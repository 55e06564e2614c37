import RealmCore.Links.LinkMap

/-!
# What a link path reads

Beside the hops, `LinkMap::set_base_table` records the tables the path passes through
(`m_tables`) and whether every hop is a single link (`m_only_unary_links`).
`LinkMap::collect_dependencies` reports the tables whose versions a query over the path
observes, and `Columns<Link>::evaluate` stores one key instead of a list when the path has
only single links.

`collectDependencies_frame` shows the report is enough: it has no repeats, and two
databases that agree on the reported tables give the same `map_links` answer, for every
visitor and start key, and the same `get_origin_ndxs` answer. `evaluate_onlyUnaryLinks`
shows the one key loses nothing: along single links `map_links` passes the visitor at most
one key, never null.
-/

namespace RealmCore
namespace Links

/-- `LinkMap::m_tables` as `set_base_table(table)` fills it: the base table, then the
opposite table of each column in turn. -/
def pathTables (s : Schema) : Nat → List Nat → List Nat
  | table, [] => [table]
  | table, column :: columns => table :: pathTables s (s.oppositeTable table column) columns

/-- `LinkMap::collect_dependencies(tables)`: each table of `m_tables` that `tables` does not
hold yet is appended. -/
def collectDependencies (mTables tables : List Nat) : List Nat :=
  mTables.foldl (fun tables k => if k ∈ tables then tables else tables ++ [k]) tables

/-- `m_only_unary_links` as `set_base_table` leaves it: set, then cleared by each link-list
or backlink column of the path. -/
def onlyUnaryLinks (hops : List Hop) : Bool :=
  hops.foldl (fun only hop => if hop.type = .linkList ∨ hop.type = .backLink then false else only)
    true

/-- A `Value<ObjKey>` as `Columns<Link>::evaluate` initialises it: whether it came from a
link list, and its keys. -/
structure LinkValue where
  fromLinkList : Bool
  values : List Int
  deriving DecidableEq, Repr

/-- `Columns<Link>::evaluate(index, destination)` on `links = m_link_map.get_links(index)`:
with only single links one value, the first key or null; otherwise every key. -/
def columnsLinkEvaluate (onlyUnary : Bool) (links : List Int) : LinkValue :=
  if onlyUnary then ⟨false, [links.headD nullKey]⟩ else ⟨true, links⟩

/-- Two databases hold the same objects and the same link, link-list and backlink columns
in each of `tables`. -/
def Db.AgreeOn (tables : List Nat) (db db' : Db) : Prop :=
  ∀ t ∈ tables, db.objects t = db'.objects t ∧ db.link t = db'.link t ∧
    db.list t = db'.list t ∧ db.backlinks t = db'.backlinks t

/-! ## The reported tables -/

theorem collectDependencies_cons (t : Nat) (mTables tables : List Nat) :
    collectDependencies (t :: mTables) tables =
      collectDependencies mTables (if t ∈ tables then tables else tables ++ [t]) :=
  rfl

theorem mem_collectDependencies {k : Nat} :
    ∀ {mTables tables : List Nat},
      k ∈ collectDependencies mTables tables ↔ k ∈ tables ∨ k ∈ mTables
  | [], _ => by simp [collectDependencies]
  | t :: mTables, tables => by
      rw [collectDependencies_cons, mem_collectDependencies]
      split_ifs with listed
      · rcases eq_or_ne k t with rfl | other <;> simp [*]
      · simp [or_assoc]

theorem collectDependencies_nodup :
    ∀ {mTables tables : List Nat}, tables.Nodup → (collectDependencies mTables tables).Nodup
  | [], _, nodup => nodup
  | t :: mTables, tables, nodup => by
      rw [collectDependencies_cons]
      refine collectDependencies_nodup ?_
      split_ifs with listed
      · exact nodup
      · exact List.nodup_append.2 ⟨nodup, List.nodup_singleton t, by simpa using listed⟩

theorem mem_pathTables_self (s : Schema) (table : Nat) (columns : List Nat) :
    table ∈ pathTables s table columns := by
  cases columns <;> simp [pathTables]

/-- Each hop reads its own table, and the backward walk reads the opposite one: both are
tables of the path. -/
theorem hop_mem_pathTables {s : Schema} :
    ∀ {table : Nat} {columns : List Nat}, ∀ hop ∈ setBaseTable s table columns,
      hop.table ∈ pathTables s table columns ∧
        s.oppositeTable hop.table hop.column ∈ pathTables s table columns
  | _, [], _, mem => absurd mem (List.not_mem_nil _)
  | table, column :: columns, hop, mem => by
      rw [setBaseTable, List.mem_cons] at mem
      rw [pathTables]
      rcases mem with rfl | mem
      · exact ⟨List.mem_cons_self _ _, List.mem_cons_of_mem _ (mem_pathTables_self _ _ _)⟩
      · obtain ⟨own, opposite⟩ := hop_mem_pathTables hop mem
        exact ⟨List.mem_cons_of_mem _ own, List.mem_cons_of_mem _ opposite⟩

/-! ## Databases that agree on the reported tables -/

section

variable {db db' : Db} {tables : List Nat}

theorem Db.AgreeOn.read (agree : db.AgreeOn tables db') {hop : Hop} (mem : hop.table ∈ tables) :
    db.read hop = db'.read hop := by
  obtain ⟨-, link, list, backlinks⟩ := agree hop.table mem
  funext key
  simp only [Db.read, link, list, backlinks]

/-- `map_links` reads the objects and columns of each hop's own table only. -/
theorem mapLinks_congr (agree : db.AgreeOn tables db') {consume : List Int → Int → Bool} :
    ∀ {hops : List Hop}, (∀ hop ∈ hops, hop.table ∈ tables) →
      mapLinks db consume hops = mapLinks db' consume hops
  | [], _ => rfl
  | hop :: rest, reads => by
      have own := reads hop (List.mem_cons_self _ _)
      funext key seen
      rw [mapLinks_cons, mapLinks_cons, (agree hop.table own).1, agree.read own,
        mapLinks_congr agree fun next mem => reads next (List.mem_cons_of_mem _ mem)]

/-- `get_origin_ndxs` reads the objects and columns of each hop's opposite table only. -/
theorem getOriginNdxs_congr {s : Schema} (agree : db.AgreeOn tables db') (key : Int) :
    ∀ {hops : List Hop}, (∀ hop ∈ hops, s.oppositeTable hop.table hop.column ∈ tables) →
      getOriginNdxs s db key hops = getOriginNdxs s db' key hops
  | [], _ => rfl
  | hop :: rest, reads => by
      obtain ⟨objects, link, list, backlinks⟩ := agree _ (reads hop (List.mem_cons_self _ _))
      simp only [getOriginNdxs, objects, link, list, backlinks,
        getOriginNdxs_congr agree key fun next mem => reads next (List.mem_cons_of_mem _ mem)]

end

/-- `collect_dependencies` adds the path's tables without repeats, and they are all a query
along the path reads: two databases that agree on them give the same `map_links` answer for
every visitor and start key, and the same `get_origin_ndxs` answer for every key. -/
theorem collectDependencies_frame {s : Schema} {table : Nat} {columns tables : List Nat}
    {db db' : Db} (nodup : tables.Nodup)
    (agree : db.AgreeOn (collectDependencies (pathTables s table columns) tables) db') :
    (collectDependencies (pathTables s table columns) tables).Nodup ∧
      (∀ consume, mapLinks db consume (setBaseTable s table columns) =
        mapLinks db' consume (setBaseTable s table columns)) ∧
      ∀ key, getOriginNdxs s db key (setBaseTable s table columns) =
        getOriginNdxs s db' key (setBaseTable s table columns) := by
  have reported : ∀ t ∈ pathTables s table columns,
      t ∈ collectDependencies (pathTables s table columns) tables :=
    fun t mem => mem_collectDependencies.2 (.inr mem)
  exact ⟨collectDependencies_nodup nodup,
    fun _ => mapLinks_congr agree fun hop mem => reported _ (hop_mem_pathTables hop mem).1,
    fun key => getOriginNdxs_congr agree key fun hop mem =>
      reported _ (hop_mem_pathTables hop mem).2⟩

/-- `listThenLinkDb` with the objects of table 3, which the path from table 0 never reaches,
removed. -/
def listThenLinkDbWithout3 : Db :=
  { listThenLinkDb with objects := fun t => if t = 3 then [] else listThenLinkDb.objects t }

theorem collectDependencies_frame_listThenLink :
    ([] : List Nat).Nodup ∧
      listThenLinkDb.AgreeOn (collectDependencies (pathTables listThenLink 0 [0, 0]) [])
        listThenLinkDbWithout3 ∧
      (collectDependencies (pathTables listThenLink 0 [0, 0]) []).Nodup ∧
      (∀ consume, mapLinks listThenLinkDb consume (setBaseTable listThenLink 0 [0, 0]) =
        mapLinks listThenLinkDbWithout3 consume (setBaseTable listThenLink 0 [0, 0])) ∧
      ∀ key, getOriginNdxs listThenLink listThenLinkDb key
          (setBaseTable listThenLink 0 [0, 0]) =
        getOriginNdxs listThenLink listThenLinkDbWithout3 key
          (setBaseTable listThenLink 0 [0, 0]) := by
  have agree : listThenLinkDb.AgreeOn (collectDependencies (pathTables listThenLink 0 [0, 0]) [])
      listThenLinkDbWithout3 := by
    intro t mem
    have : t ≠ 3 := by rintro rfl; revert mem; decide
    simp [listThenLinkDbWithout3, this]
  exact ⟨List.nodup_nil, agree, collectDependencies_frame List.nodup_nil agree⟩

/-! ## Paths of single links -/

theorem onlyUnaryLinks_iff {hops : List Hop} :
    onlyUnaryLinks hops = true ↔ ∀ hop ∈ hops, hop.type = .link := by
  suffices fold : ∀ (only : Bool) (hops : List Hop),
      hops.foldl (fun only hop =>
        if hop.type = .linkList ∨ hop.type = .backLink then false else only) only =
        (only && hops.all fun hop => hop.type = .link) by
    rw [onlyUnaryLinks, fold]
    simp
  intro only hops
  induction hops generalizing only with
  | nil => simp
  | cons hop hops ih =>
    rw [List.foldl_cons, ih]
    rcases hop with ⟨table, column, _ | _ | _⟩ <;> simp

/-- Along single links `map_links` passes the visitor at most one key, and never null. -/
theorem mapLinks_eq_seen_or_single {consume : List Int → Int → Bool} {db : Db}
    (seen : List Int) :
    ∀ {hops : List Hop} {key : Int} {links : List Int}, (∀ hop ∈ hops, hop.type = .link) →
      mapLinks db consume hops key seen = some links →
        links = seen ∨ ∃ k, k ≠ nullKey ∧ links = seen ++ [k]
  | [], _, _, _, found => .inl (Option.some.inj found).symm
  | ⟨table, column, type⟩ :: rest, key, links, single, found => by
      obtain rfl : type = .link := single _ (List.mem_cons_self _ _)
      simp only [mapLinks] at found
      split_ifs at found with live null last
      · exact .inr ⟨_, null, (Option.some.inj found).symm⟩
      · exact mapLinks_eq_seen_or_single seen
          (fun hop mem => single hop (List.mem_cons_of_mem _ mem)) found
      · exact .inl (Option.some.inj found).symm

/-- When `set_base_table` leaves `m_only_unary_links` set, the one value
`Columns<Link>::evaluate` stores is the key `map_links` found, or null exactly when the path
leads nowhere: nothing is dropped by keeping the first key only. -/
theorem evaluate_onlyUnaryLinks {consume : List Int → Int → Bool} {db : Db} {hops : List Hop}
    {key : Int} {links : List Int} (unary : onlyUnaryLinks hops = true)
    (found : mapLinks db consume hops key [] = some links) :
    ∃ v, columnsLinkEvaluate (onlyUnaryLinks hops) links = ⟨false, [v]⟩ ∧
      links = if v = nullKey then [] else [v] := by
  rw [unary]
  rcases mapLinks_eq_seen_or_single [] (onlyUnaryLinks_iff.1 unary) found with
    rfl | ⟨k, notNull, rfl⟩
  · exact ⟨nullKey, rfl, by simp⟩
  · exact ⟨k, rfl, by simp [notNull]⟩

/-- From object 1 of table 1 of `listThenLink`, over its single link to table 2. -/
theorem evaluate_onlyUnaryLinks_listThenLink :
    onlyUnaryLinks (setBaseTable listThenLink 1 [0]) = true ∧
      mapLinks listThenLinkDb (fun _ _ => true) (setBaseTable listThenLink 1 [0]) 1 [] =
        some [1] ∧
      ∃ v, columnsLinkEvaluate (onlyUnaryLinks (setBaseTable listThenLink 1 [0])) [1] =
          ⟨false, [v]⟩ ∧
        [1] = if v = nullKey then [] else [v] :=
  ⟨by decide, by decide,
    @evaluate_onlyUnaryLinks (fun _ _ => true) listThenLinkDb _ 1 [1] (by decide) (by decide)⟩

end Links
end RealmCore
