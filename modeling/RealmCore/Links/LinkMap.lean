import RealmCore.Links.Db

/-!
# Walking a link path: `LinkMap::map_links` and `get_origin_ndxs`

A `LinkMap` is a path of link, link-list and backlink columns bound to a base table by
`set_base_table`. `map_links` walks it from an origin object depth first and hands each
key of the last hop to a visitor, `LinkMapFunction::consume`, which answers whether to go
on. The visitor is modelled by its answers: `consume seen k` is what it says to `k` after
having consumed `seen`, so every deterministic visitor is one of them.

`mapLinks_setBaseTable` gives the exact trace: the last hop's loop stops at the first
`false`, but the loops of the hops before it ignore that outcome and map the rest of the
path from their next key, so the visitor can be called again after answering `false`
(`mapLinks_consumes_after_stop`). The row overload reads the first hop from the
cluster's leaf and agrees with the key overload (`mapLinksRow_eq_mapLinks`).

`get_origin_ndxs` walks the path backwards from a key of the last table. Across a backlink
hop it pushes the forward single link of each object without testing it for null
(`getOriginNdxs_null_link`).
-/

namespace RealmCore
namespace Links

/-- `LinkMap::set_base_table(table)`: the hops of the path's column keys from `table`,
each next table the opposite table of the column before. -/
def setBaseTable (s : Schema) : (table : Nat) → List Nat → List Hop
  | _, [] => []
  | table, column :: columns =>
      s.hop table column :: setBaseTable s (s.oppositeTable table column) columns

/-- The columns are, one after the other, columns of the table the path has reached. -/
def Schema.isPath (s : Schema) : (table : Nat) → List Nat → Bool
  | _, [] => true
  | table, column :: columns => decide (table ∈ s.tables) && decide (column ∈ s.columns table) &&
      s.isPath (s.oppositeTable table column) columns

/-- Consume `keys` in order until `consume` answers `false` (that key included), after
`seen`. -/
def consumeAll (consume : List Int → Int → Bool) : (seen keys : List Int) → List Int
  | seen, [] => seen
  | seen, k :: keys => if consume seen k then consumeAll consume (seen ++ [k]) keys else seen ++ [k]

/-- The `for` loop of `map_links` over the keys of a link list or a backlink column. On the
last hop it consumes each key and returns at the first `false`; on an earlier hop it maps
the rest of the path from each key, whatever the visitor answered there. -/
def visitKeys (consume : List Int → Int → Bool) (last : Bool)
    (mapRest : Int → List Int → Option (List Int)) (keys seen : List Int) : Option (List Int) :=
  if last then some (consumeAll consume seen keys)
  else keys.foldlM (fun seen k => mapRest k seen) seen

/-- `LinkMap::map_links(column, key, lm)` on the hops from `column` on: the keys passed to
`lm.consume`, after `seen`. `none` is the throw of `get_object` for a key of no object. -/
def mapLinks (db : Db) (consume : List Int → Int → Bool) :
    List Hop → Int → List Int → Option (List Int)
  | [], _, seen => some seen
  | hop :: rest, key, seen =>
      if key ∈ db.objects hop.table then
        match hop.type with
        | .link =>
            let k := db.link hop.table hop.column key
            if k ≠ nullKey then
              if rest.isEmpty then some (seen ++ [k]) else mapLinks db consume rest k seen
            else some seen
        | .linkList => visitKeys consume rest.isEmpty (mapLinks db consume rest)
            (db.list hop.table hop.column key) seen
        | .backLink => visitKeys consume rest.isEmpty (mapLinks db consume rest)
            (db.backlinks hop.table hop.column key) seen
      else none

/-- The leaf of the base table's first path column in the current cluster, by row: the
`ArrayKey`, `ArrayList` (`none` for a null ref) and `ArrayBacklink` accessors. -/
structure LinkLeaf where
  keyAt : Nat → Int
  listAt : Nat → Option (List Int)
  backlinkCount : Nat → Nat
  backlinkAt : Nat → Nat → Int

/-- `LinkMap::map_links(column, row, lm)`: the first hop is read from the leaf at `row`. -/
def mapLinksRow (db : Db) (consume : List Int → Int → Bool) (leaf : LinkLeaf) :
    List Hop → Nat → List Int → Option (List Int)
  | [], _, seen => some seen
  | hop :: rest, row, seen =>
      match hop.type with
      | .link =>
          let k := leaf.keyAt row
          if k ≠ nullKey then
            if rest.isEmpty then some (seen ++ [k]) else mapLinks db consume rest k seen
          else some seen
      | .linkList =>
          match leaf.listAt row with
          | some links => visitKeys consume rest.isEmpty (mapLinks db consume rest) links seen
          | none => some seen
      | .backLink => visitKeys consume rest.isEmpty (mapLinks db consume rest)
          ((List.range (leaf.backlinkCount row)).map (leaf.backlinkAt row)) seen

/-- The keys the leaf's `row` leads to through `hop`, as `Db.read` gives them for an
object. -/
def LinkLeaf.read (leaf : LinkLeaf) (hop : Hop) (row : Nat) : List Int :=
  match hop.type with
  | .link => if leaf.keyAt row = nullKey then [] else [leaf.keyAt row]
  | .linkList => (leaf.listAt row).getD []
  | .backLink => (List.range (leaf.backlinkCount row)).map (leaf.backlinkAt row)

/-- `T(key, hops)`: the keys at the end of the path from `key`, in link order. -/
def reference (db : Db) : List Hop → Int → List Int
  | [], key => [key]
  | hop :: rest, key => (db.read hop key).flatMap (reference db rest)

/-- The key lists the last hop's loop runs over, one per object the path reaches before
its last hop, in the order `map_links` reaches them. -/
def lastGroups (db : Db) : List Hop → Int → List (List Int)
  | [], _ => []
  | hop :: rest, key =>
      if rest.isEmpty then [db.read hop key] else (db.read hop key).flatMap (lastGroups db rest)

section

variable {db : Db} {consume : List Int → Int → Bool}

/-! ## One hop -/

/-- Every hop of `map_links` is the loop of `visitKeys` over the keys the hop reads; a single
link is a loop over at most one key. -/
theorem mapLinks_cons (hop : Hop) (rest : List Hop) (key : Int) (seen : List Int) :
    mapLinks db consume (hop :: rest) key seen =
      if key ∈ db.objects hop.table then
        visitKeys consume rest.isEmpty (mapLinks db consume rest) (db.read hop key) seen
      else none := by
  unfold mapLinks
  by_cases live : key ∈ db.objects hop.table
  · rw [if_pos live, if_pos live]
    rcases hop with ⟨table, column, _ | _ | _⟩
    · by_cases null : db.link table column key = nullKey <;> cases rest <;>
        simp [Db.read, visitKeys, consumeAll, null]
    · rfl
    · rfl
  · rw [if_neg live, if_neg live]

theorem mapLinksRow_cons (leaf : LinkLeaf) (hop : Hop) (rest : List Hop) (row : Nat)
    (seen : List Int) :
    mapLinksRow db consume leaf (hop :: rest) row seen =
      visitKeys consume rest.isEmpty (mapLinks db consume rest) (leaf.read hop row) seen := by
  rcases hop with ⟨table, column, _ | _ | _⟩
  · by_cases null : leaf.keyAt row = nullKey <;> cases rest <;>
      simp [mapLinksRow, LinkLeaf.read, visitKeys, consumeAll, null]
  · cases list : leaf.listAt row <;> cases rest <;>
      simp [mapLinksRow, LinkLeaf.read, visitKeys, consumeAll, list]
  · rfl

/-- Both overloads of `map_links` agree on the row of a live object whose leaf entry holds
what the object's column holds. -/
theorem mapLinksRow_eq_mapLinks (leaf : LinkLeaf) (hop : Hop) (rest : List Hop) (row : Nat)
    (key : Int) (seen : List Int) (live : key ∈ db.objects hop.table)
    (stores : leaf.read hop row = db.read hop key) :
    mapLinksRow db consume leaf (hop :: rest) row seen =
      mapLinks db consume (hop :: rest) key seen := by
  rw [mapLinksRow_cons, mapLinks_cons, if_pos live, stores]

theorem mapLinksRow_eq_mapLinks_list :
    mapLinksRow ⟨fun _ => [0], fun _ _ k => k, fun _ _ _ => [0, 1], fun _ _ _ => []⟩
        (fun _ _ => true) ⟨fun _ => 0, fun _ => some [0, 1], fun _ => 0, fun _ _ => 0⟩
        [⟨0, 0, .linkList⟩] 0 [] =
      mapLinks ⟨fun _ => [0], fun _ _ k => k, fun _ _ _ => [0, 1], fun _ _ _ => []⟩
        (fun _ _ => true) [⟨0, 0, .linkList⟩] 0 [] :=
  mapLinksRow_eq_mapLinks _ _ _ 0 0 [] (by decide) (by decide)

/-! ## The whole path -/

theorem consumeAll_of_forall_true (continues : ∀ seen k, consume seen k = true) :
    ∀ seen keys, consumeAll consume seen keys = seen ++ keys
  | _, [] => (List.append_nil _).symm
  | seen, k :: keys => by
      rw [consumeAll, if_pos (continues seen k), consumeAll_of_forall_true continues]
      simp

theorem setBaseTable_isEmpty {s : Schema} (table : Nat) (columns : List Nat) :
    (setBaseTable s table columns).isEmpty = columns.isEmpty := by
  cases columns <;> rfl

/-- The inner loop runs the rest of the path from each key in turn, one group after the
other. -/
theorem foldlM_mapLinks {rest : List Hop} {keys : List Int}
    (each : ∀ k ∈ keys, ∀ seen, mapLinks db consume rest k seen =
      some ((lastGroups db rest k).foldl (consumeAll consume) seen)) :
    ∀ seen, keys.foldlM (fun seen k => mapLinks db consume rest k seen) seen =
      some ((keys.flatMap (lastGroups db rest)).foldl (consumeAll consume) seen) := by
  induction keys with
  | nil => intro seen; rfl
  | cons k keys ih =>
      intro seen
      rw [List.foldlM_cons, each k (List.mem_cons_self _ _), List.flatMap_cons, List.foldl_append]
      exact ih (fun k' mem => each k' (List.mem_cons_of_mem _ mem)) _

/-- `map_links` from a live object along a path bound by `set_base_table` returns, and
passes the visitor the keys of each last-hop loop in turn, each loop cut at its first
`false`: the groups concatenate to `T(key, hops)`, but one group's stop does not stop the
next. -/
theorem mapLinks_setBaseTable {s : Schema} (live : db.LinksLive s) :
    ∀ (columns : List Nat) (table : Nat) (key : Int) (seen : List Int),
      s.isPath table columns → key ∈ db.objects table →
      mapLinks db consume (setBaseTable s table columns) key seen =
        some ((lastGroups db (setBaseTable s table columns) key).foldl (consumeAll consume) seen)
  | [], _, _, _, _, _ => rfl
  | column :: columns, table, key, seen, path, keyLive => by
      simp only [Schema.isPath, Bool.and_eq_true, decide_eq_true_eq] at path
      obtain ⟨⟨tableMem, columnMem⟩, restPath⟩ := path
      rw [setBaseTable, mapLinks_cons, Schema.hop_table, if_pos keyLive, lastGroups,
        setBaseTable_isEmpty]
      cases columns with
      | nil => rfl
      | cons next columns =>
          refine foldlM_mapLinks (fun k mem seen' => ?_) seen
          exact mapLinks_setBaseTable live (next :: columns) _ k seen' restPath
            (live table tableMem column columnMem key keyLive k mem)

theorem flatten_lastGroups : ∀ (hops : List Hop) (key : Int), hops ≠ [] →
    (lastGroups db hops key).flatten = reference db hops key
  | [], _, nonempty => absurd rfl nonempty
  | [hop], key, _ => by simp [lastGroups, reference]
  | hop :: next :: rest, key, _ => by
      rw [lastGroups, if_neg (by simp), reference]
      induction db.read hop key with
      | nil => rfl
      | cons k keys ih =>
          rw [List.flatMap_cons, List.flatten_append, ih, List.flatMap_cons,
            ← flatten_lastGroups (next :: rest) k (List.cons_ne_nil _ _)]

theorem foldl_consumeAll_of_forall_true (continues : ∀ seen k, consume seen k = true) :
    ∀ (groups : List (List Int)) (seen : List Int),
      groups.foldl (consumeAll consume) seen = seen ++ groups.flatten
  | [], seen => (List.append_nil seen).symm
  | group :: groups, seen => by
      rw [List.foldl_cons, consumeAll_of_forall_true continues,
        foldl_consumeAll_of_forall_true continues groups, List.flatten_cons, List.append_assoc]

/-- `map_links(0, key, lm)` from a live object of the base table, along a non-empty path
bound by `set_base_table`, returns; the visitor sees the last hop's key lists one after the
other, each cut at its first `false`, and those lists concatenate to `T(key, hops)`. A
visitor that always goes on sees exactly `T(key, hops)`. -/
theorem mapLinks_trace {s : Schema} (live : db.LinksLive s) (table : Nat) (columns : List Nat)
    (nonempty : columns ≠ []) (path : s.isPath table columns) (key : Int)
    (keyLive : key ∈ db.objects table) :
    mapLinks db consume (setBaseTable s table columns) key [] =
        some ((lastGroups db (setBaseTable s table columns) key).foldl (consumeAll consume) []) ∧
      (lastGroups db (setBaseTable s table columns) key).flatten =
        reference db (setBaseTable s table columns) key ∧
      ((∀ seen k, consume seen k = true) →
        mapLinks db consume (setBaseTable s table columns) key [] =
          some (reference db (setBaseTable s table columns) key)) := by
  have trace := @mapLinks_setBaseTable db consume s live columns table key [] path keyLive
  have groups : (lastGroups db (setBaseTable s table columns) key).flatten =
      reference db (setBaseTable s table columns) key := by
    refine flatten_lastGroups _ key ?_
    cases columns with
    | nil => exact absurd rfl nonempty
    | cons _ _ => exact List.cons_ne_nil _ _
  refine ⟨trace, groups, fun continues => ?_⟩
  rw [trace, foldl_consumeAll_of_forall_true continues, groups, List.nil_append]

end

/-! ## Back along the path: `get_origin_ndxs` -/

/-- `LinkMap::get_origin_ndxs(key, column)` on the hops from `column` on: the objects the
path leads from to `key`, read backwards. Across a backlink column it reads the forward
column of each key's object: the key of a single link, null or not, or the keys of a list.
Across a forward column it reads each key's backlinks for that column. `none` is a throw of
`get_object` or the failed `REALM_ASSERT(forward_type == type_LinkList)`. -/
def getOriginNdxs (s : Schema) (db : Db) (key : Int) : List Hop → Option (List Int)
  | [] => some [key]
  | hop :: rest => do
      let keys ← getOriginNdxs s db key rest
      if hop.type = .backLink then
        let linkTable := s.oppositeTable hop.table hop.column
        let linkColumn := s.oppositeColumn hop.table hop.column
        let lists ← keys.mapM fun k =>
          if k ∈ db.objects linkTable then
            match s.columnType linkTable linkColumn with
            | .link => some [db.link linkTable linkColumn k]
            | .linkList => some (db.list linkTable linkColumn k)
            | .backLink => none
          else none
        pure lists.flatten
      else
        let target := s.oppositeTable hop.table hop.column
        let lists ← keys.mapM fun k =>
          if k ∈ db.objects target then
            some (db.backlinks target (s.oppositeColumn hop.table hop.column) k)
          else none
        pure lists.flatten

/-- What `get_origin_ndxs(t, 0)` is for: each object `o` of the base table, once per
occurrence of `t` in `T(o, hops)`. -/
def originsOf (db : Db) (base : Nat) (hops : List Hop) (t : Int) : List Int :=
  (db.objects base).flatMap fun o => List.replicate ((reference db hops o).count t) o

/-- Table 0 has the backlink column of the single link column of table 1. -/
def linkBack : Schema :=
  ⟨[0, 1], fun _ => [0], fun t _ => if t = 0 then .backLink else .link, fun t _ => 1 - t,
    fun _ _ => 0⟩

/-- One object in each table; the single link of table 1 is null. -/
def nullLinkDb : Db :=
  ⟨fun _ => [0], fun _ _ _ => nullKey, fun _ _ _ => [], fun _ _ _ => []⟩

/-- In a consistent state, the object of table 1 whose link is null is reached from no
object of table 0, yet `get_origin_ndxs` answers the null key for it. -/
theorem getOriginNdxs_null_link :
    linkBack.Paired ∧ nullLinkDb.Consistent linkBack ∧
      getOriginNdxs linkBack nullLinkDb 0 (setBaseTable linkBack 0 [0]) = some [nullKey] ∧
      originsOf nullLinkDb 0 (setBaseTable linkBack 0 [0]) 0 = [] := by
  decide

/-! ## A path that calls the visitor after `false` -/

/-- Table 0 has a link list to table 1, table 1 a single link to table 2. -/
def listThenLink : Schema :=
  ⟨[0, 1, 2], fun t => if t < 2 then [0] else [], fun t _ => if t = 0 then .linkList else .link,
    fun t _ => t + 1, fun _ _ => 0⟩

/-- Every list holds `[0, 1]`, and each object of table 1 links to the object of table 2 with
its key. -/
def listThenLinkDb : Db :=
  ⟨fun _ => [0, 1], fun _ _ k => k, fun _ _ _ => [0, 1], fun _ _ _ => []⟩

theorem mapLinks_trace_listThenLink :
    mapLinks listThenLinkDb (fun _ _ => false) (setBaseTable listThenLink 0 [0, 0]) 0 [] =
        some ((lastGroups listThenLinkDb (setBaseTable listThenLink 0 [0, 0]) 0).foldl
          (consumeAll fun _ _ => false) []) ∧
      (lastGroups listThenLinkDb (setBaseTable listThenLink 0 [0, 0]) 0).flatten =
        reference listThenLinkDb (setBaseTable listThenLink 0 [0, 0]) 0 ∧
      ((∀ (seen : List Int) (k : Int), (fun _ _ => false) seen k = true) →
        mapLinks listThenLinkDb (fun _ _ => false) (setBaseTable listThenLink 0 [0, 0]) 0 [] =
          some (reference listThenLinkDb (setBaseTable listThenLink 0 [0, 0]) 0)) :=
  mapLinks_trace (by decide) 0 [0, 0] (by decide) (by decide) 0 (by decide)

/-- A visitor that stops at the first key it is given: both overloads of `map_links` give it
the second key too, where `T(0, hops) = [0, 1]` cut at the first `false` is `[0]`. -/
theorem mapLinks_consumes_after_stop :
    listThenLink.isPath 0 [0, 0] ∧ listThenLinkDb.LinksLive listThenLink ∧
      mapLinks listThenLinkDb (fun _ _ => false) (setBaseTable listThenLink 0 [0, 0]) 0 [] =
        some [0, 1] ∧
      mapLinksRow listThenLinkDb (fun _ _ => false) ⟨fun _ => 0, fun _ => some [0, 1],
        fun _ => 0, fun _ _ => 0⟩ (setBaseTable listThenLink 0 [0, 0]) 0 [] = some [0, 1] ∧
      consumeAll (fun _ _ => false) []
        (reference listThenLinkDb (setBaseTable listThenLink 0 [0, 0]) 0) = [0] := by
  decide

end Links
end RealmCore
