import RealmCore.Links.LinkMap
import RealmCore.Links.Consistency

/-!
# `get_origin_ndxs` reverses the path

`LinkMap::get_origin_ndxs(t, 0)` walks a path backwards from a key `t` of its last table.
Over a consistent database each backward step is the inverse of the forward one: across
a forward column the backlinks of `y` are, as a multiset, the objects whose column leads to
`y`, and across a backlink column the forward links of `y` are the objects whose
backlinks hold `y`. Counting along the path, `getOriginNdxs_perm_originsOf` shows the
answer holds each object `o` of the base table once per occurrence of `t` in `T(o, hops)`,
for every path whose backlink hops reverse link lists. Across a single link the step
pushes the link without testing it for null (`getOriginNdxs_null_link`).
-/

namespace RealmCore
namespace Links

/-- The table a path of columns from `table` ends at. -/
def Schema.endTable (s : Schema) : Nat → List Nat → Nat
  | table, [] => table
  | table, column :: columns => s.endTable (s.oppositeTable table column) columns

/-! ## Counting along lists -/

theorem count_flatMap (keys : List Int) (f : Int → List Int) (x : Int) :
    (keys.flatMap f).count x = (keys.map fun k => (f k).count x).sum := by
  rw [List.flatMap_def, List.count_flatten, List.map_map]
  rfl

theorem sum_map_ite_eq_count (keys : List Int) (a : Int) :
    (keys.map fun k => if a = k then 1 else 0).sum = keys.count a := by
  induction keys with
  | nil => rfl
  | cons b keys ih =>
    rw [List.map_cons, List.sum_cons, ih, List.count_cons]
    by_cases same : a = b
    · subst same
      simp [Nat.add_comm]
    · simp [same, Ne.symm same]

/-- Pairs of equal entries, counted from either list. -/
theorem sum_map_count_comm (left right : List Int) :
    (left.map fun k => right.count k).sum = (right.map fun k => left.count k).sum := by
  induction left with
  | nil => simp
  | cons a left ih =>
    simp only [List.map_cons, List.sum_cons, ih, List.count_cons, beq_iff_eq, List.sum_map_add,
      sum_map_ite_eq_count]
    simp only [eq_comm, Nat.add_comm]

theorem mapM_eq_some {keys : List Int} {f : Int → Option (List Int)} {g : Int → List Int}
    (each : ∀ k ∈ keys, f k = some (g k)) : keys.mapM f = some (keys.map g) := by
  induction keys with
  | nil => rfl
  | cons k keys ih =>
    rw [List.mapM_cons, each k (List.mem_cons_self k keys),
      ih fun k' mem => each k' (List.mem_cons_of_mem k mem)]
    rfl

/-- Each object of the base table, once per occurrence of `t` at the end of its path. -/
theorem count_originsOf (db : Db) (base : Nat) (hops : List Hop) (t x : Int) :
    (originsOf db base hops t).count x =
      (db.objects base).count x * (reference db hops x).count t := by
  unfold originsOf
  induction db.objects base with
  | nil => simp
  | cons a rest ih =>
    rw [List.flatMap_cons, List.count_append, ih, List.count_replicate, List.count_cons]
    by_cases same : a = x
    · subst same
      simp [Nat.add_mul, Nat.add_comm]
    · simp [same]

/-! ## One step back -/

section

variable {s : Schema} {db : Db} (paired : s.Paired) (keys : db.KeysValid s)
  (consistent : db.Consistent s) {table column : Nat} (ht : table ∈ s.tables)
  (hc : column ∈ s.columns table)

/-- What `get_origin_ndxs` reads from each key of the next table to step back over the
column `column` of `table`. -/
def backStep (s : Schema) (db : Db) (table column : Nat) : Int → Option (List Int) :=
  let hop := s.hop table column
  if hop.type = .backLink then
    let linkTable := s.oppositeTable hop.table hop.column
    let linkColumn := s.oppositeColumn hop.table hop.column
    fun k => if k ∈ db.objects linkTable then
        match s.columnType linkTable linkColumn with
        | .link => some [db.link linkTable linkColumn k]
        | .linkList => some (db.list linkTable linkColumn k)
        | .backLink => none
      else none
  else
    let target := s.oppositeTable hop.table hop.column
    fun k => if k ∈ db.objects target then
        some (db.backlinks target (s.oppositeColumn hop.table hop.column) k)
      else none

theorem getOriginNdxs_cons (key : Int) (rest : List Hop) :
    getOriginNdxs s db key (s.hop table column :: rest) =
      getOriginNdxs s db key rest >>= fun keys =>
        keys.mapM (backStep s db table column) >>= fun lists => pure lists.flatten := by
  rw [getOriginNdxs]
  congr 1
  funext keys
  unfold backStep
  dsimp only
  split_ifs <;> rfl

include paired keys consistent ht hc

/-- From an object `y` of the next table, the step back reads each object `o` of `table`
once per time the column leads from `o` to `y`. -/
theorem backStep_count
    (listBack : s.columnType table column = .backLink →
      s.columnType (s.oppositeTable table column) (s.oppositeColumn table column) = .linkList)
    {y : Int} (live : y ∈ db.objects (s.oppositeTable table column)) :
    ∃ back, backStep s db table column y = some back ∧ ∀ o,
      back.count o = (db.objects table).count o * (db.read (s.hop table column) o).count y := by
  have opp := paired.opposite_mem table ht column hc
  have back := paired.opposite_opposite table ht column hc
  by_cases backLink : s.columnType table column = .backLink
  · -- The forward column runs from the next table back to `table`.
    have forwardType := listBack backLink
    have forward : s.columnType (s.oppositeTable table column)
        (s.oppositeColumn table column) ≠ .backLink := by simp [forwardType]
    refine ⟨db.list (s.oppositeTable table column) (s.oppositeColumn table column) y,
      by simp [backStep, backLink, live, forwardType], fun o => ?_⟩
    have onceY : (db.objects (s.oppositeTable table column)).count y = 1 :=
      List.count_eq_one_of_mem (keys.nodup _ opp.1) live
    by_cases originLive : o ∈ db.objects table
    · have inverse := List.perm_iff_count.mp (consistent.inverse _ opp.1 _ opp.2 forward o
        (by rw [back.1]; exact originLive)) y
      rw [back.1, back.2, Db.count_origins, onceY, Nat.one_mul] at inverse
      simp only [Db.read, Schema.hop_type, forwardType, Schema.hop_table,
        Schema.hop_column] at inverse
      rw [List.count_eq_one_of_mem (keys.nodup table ht) originLive, Nat.one_mul, ← inverse]
      simp [Db.read, backLink]
    · have absent : (db.list (s.oppositeTable table column) (s.oppositeColumn table column)
          y).count o = 0 := by
        refine List.count_eq_zero.mpr fun mem => originLive ?_
        have := consistent.live _ opp.1 _ opp.2 y live o (by simpa [Db.read, forwardType] using mem)
        rwa [back.1] at this
      simp [absent, List.count_eq_zero.mpr originLive]
  · refine ⟨db.backlinks (s.oppositeTable table column) (s.oppositeColumn table column) y,
      by simp [backStep, backLink, live], fun o => ?_⟩
    rw [← Db.count_origins]
    exact List.perm_iff_count.mp (consistent.inverse table ht column hc backLink y live) o

end

/-! ## The whole path -/

/-- Every backlink hop of the path from `table` reverses a link list. -/
def Schema.BacklinksOfLists (s : Schema) : Nat → List Nat → Prop
  | _, [] => True
  | table, column :: columns =>
      (s.columnType table column = .backLink →
        s.columnType (s.oppositeTable table column) (s.oppositeColumn table column) = .linkList) ∧
      s.BacklinksOfLists (s.oppositeTable table column) columns

instance (s : Schema) : (table : Nat) → (columns : List Nat) → Decidable (s.BacklinksOfLists table columns)
  | _, [] => inferInstanceAs (Decidable True)
  | table, column :: columns =>
    have : Decidable (s.BacklinksOfLists (s.oppositeTable table column) columns) :=
      instDecidableBacklinksOfLists s _ columns
    inferInstanceAs (Decidable (_ ∧ _))

theorem getOriginNdxs_count {s : Schema} {db : Db} (paired : s.Paired) (keys : db.KeysValid s)
    (consistent : db.Consistent s) {t : Int} :
    ∀ (columns : List Nat) (table : Nat), table ∈ s.tables → s.isPath table columns →
      s.BacklinksOfLists table columns → t ∈ db.objects (s.endTable table columns) →
      ∃ origins, getOriginNdxs s db t (setBaseTable s table columns) = some origins ∧
        ∀ o, origins.count o = (db.objects table).count o *
          (reference db (setBaseTable s table columns) o).count t
  | [], table, tableMem, _, _, live => ⟨[t], rfl, fun o => by
      by_cases same : o = t
      · subst same
        simp [reference, setBaseTable, List.count_eq_one_of_mem (keys.nodup table tableMem) live]
      · simp [reference, setBaseTable, same, Ne.symm same]⟩
  | column :: columns, table, _, path, lists, live => by
    simp only [Schema.isPath, Bool.and_eq_true, decide_eq_true_eq] at path
    obtain ⟨⟨ht, hc⟩, restPath⟩ := path
    have opp := paired.opposite_mem table ht column hc
    obtain ⟨later, rest, laterCounts⟩ :=
      getOriginNdxs_count paired keys consistent columns _ opp.1 restPath lists.2 live
    -- Every key found further along is an object of the next table.
    have laterLive : ∀ y ∈ later, y ∈ db.objects (s.oppositeTable table column) :=
      fun y mem => by
      have := List.count_pos_iff.mpr mem
      rw [laterCounts] at this
      exact List.count_pos_iff.mp (Nat.pos_of_mul_pos_right this)
    have step : ∀ y ∈ later, backStep s db table column y =
          some ((backStep s db table column y).getD []) ∧
        ∀ o, ((backStep s db table column y).getD []).count o =
          (db.objects table).count o * (db.read (s.hop table column) o).count y := fun y mem => by
      obtain ⟨back, found, counts⟩ :=
        backStep_count paired keys consistent ht hc lists.1 (laterLive y mem)
      simp [found, counts]
    rw [setBaseTable, getOriginNdxs_cons, rest, Option.bind_eq_bind, Option.some_bind,
      mapM_eq_some fun y mem => (step y mem).1, Option.bind_eq_bind, Option.some_bind]
    refine ⟨_, rfl, fun o => ?_⟩
    rw [← List.flatMap_def, reference]
    calc (later.flatMap fun y => (backStep s db table column y).getD []).count o
        = (later.map fun y => (db.objects table).count o *
            (db.read (s.hop table column) o).count y).sum := by
          rw [count_flatMap]
          exact congrArg List.sum (List.map_congr_left fun y mem => (step y mem).2 o)
      _ = (db.objects table).count o *
            ((db.read (s.hop table column) o).map fun y => later.count y).sum := by
          rw [List.sum_map_mul_left, sum_map_count_comm]
      _ = (db.objects table).count o *
            ((db.read (s.hop table column) o).map fun y =>
              (reference db (setBaseTable s (s.oppositeTable table column) columns) y).count
                t).sum := by
          by_cases originLive : o ∈ db.objects table
          · refine congrArg _ (congrArg List.sum (List.map_congr_left fun y mem => ?_))
            have yLive := consistent.live table ht column hc o originLive y mem
            rw [laterCounts, List.count_eq_one_of_mem (keys.nodup _ opp.1) yLive, Nat.one_mul]
          · simp [List.count_eq_zero.mpr originLive]
      _ = _ := by rw [count_flatMap]

/-- Over a consistent database with unique keys, for every path from a table of the schema
whose backlink hops reverse link lists, `get_origin_ndxs(t, 0)` returns, and its answer
holds each object `o` of the base table once per occurrence of `t` in `T(o, hops)`. -/
theorem getOriginNdxs_perm_originsOf {s : Schema} {db : Db} (paired : s.Paired)
    (keys : db.KeysValid s) (consistent : db.Consistent s) {table : Nat} (tableMem : table ∈ s.tables)
    {columns : List Nat} (path : s.isPath table columns) (lists : s.BacklinksOfLists table columns)
    {t : Int} (live : t ∈ db.objects (s.endTable table columns)) :
    ∃ origins, getOriginNdxs s db t (setBaseTable s table columns) = some origins ∧
      origins.Perm (originsOf db table (setBaseTable s table columns) t) := by
  obtain ⟨origins, found, counts⟩ :=
    getOriginNdxs_count paired keys consistent columns table tableMem path lists live
  exact ⟨origins, found, List.perm_iff_count.mpr fun o =>
    (counts o).trans (count_originsOf db table _ t o).symm⟩

/-- Objects 0 and 1 of table 0 link to objects of table 1 through lists `[0, 0, 1]` and
`[1]`. -/
def twoLists : Db :=
  ⟨fun _ => [0, 1], fun _ _ _ => nullKey,
    fun t _ k => if t = 0 then (if k = 0 then [0, 0, 1] else [1]) else [],
    fun t _ k => if t = 1 then (if k = 0 then [0, 0] else [0, 1]) else []⟩

/-- From object 1 of table 1, back over the link list and then over the backlink column. -/
theorem getOriginNdxs_perm_originsOf_twoLists :
    ∃ origins, getOriginNdxs listToTarget twoLists 1 (setBaseTable listToTarget 1 [0, 0]) =
        some origins ∧
      origins.Perm (originsOf twoLists 1 (setBaseTable listToTarget 1 [0, 0]) 1) :=
  getOriginNdxs_perm_originsOf (by decide) (by decide) (by decide) (by decide) (by decide)
    (by decide) (by decide)

end Links
end RealmCore
