import RealmCore.Links.Origins

/-!
# Counting an object's backlinks

`ConstObj::get_backlink_count(only_strong_links)` and `ConstObj::has_backlinks` read only
the backlink columns of the object's own table: for each of them they find the origin table
and column with `get_opposite_table` / `get_opposite_column`, skip it when only strong links
are asked for and the origin column is not strong, and count the stored backlinks.

`getBacklinkCount_linkOccurrences` shows that over a consistent database the answers are
about the forward links: the count is the number of times the counted origin columns lead
to the object, and `has_backlinks` holds exactly when a live object of some counted origin
column links to it.
-/

namespace RealmCore
namespace Links

/-- The backlink columns of `table` in column order, as `Table::for_each_backlink_column`
visits them. -/
def backlinkColumns (s : Schema) (table : Nat) : List Nat :=
  (s.columns table).filter fun column => s.columnType table column = .backLink

/-- Whether the backlink column `backlinkCol` of `table` is counted: always, or with
`only_strong_links` when its origin column has `col_attr_StrongLinks` (`strong`). -/
def countsColumn (s : Schema) (strong : Nat → Nat → Bool) (onlyStrongLinks : Bool)
    (table backlinkCol : Nat) : Bool :=
  !onlyStrongLinks ||
    strong (s.oppositeTable table backlinkCol) (s.oppositeColumn table backlinkCol)

/-- `ConstObj::get_backlink_count(origin, origin_col_key)` of object `key` of `table`: the
number of backlinks it stores in the column opposite the origin column. -/
def getBacklinkCountFrom (s : Schema) (db : Db) (table : Nat) (key : Int)
    (origin originCol : Nat) : Nat :=
  (db.backlinks table (s.oppositeColumn origin originCol) key).length

/-- `ConstObj::has_backlinks(only_strong_links)` of object `key` of `table`: some counted
backlink column stores a backlink. -/
def hasBacklinks (s : Schema) (db : Db) (strong : Nat → Nat → Bool) (onlyStrongLinks : Bool)
    (table : Nat) (key : Int) : Bool :=
  (backlinkColumns s table).any fun b =>
    countsColumn s strong onlyStrongLinks table b &&
      getBacklinkCountFrom s db table key (s.oppositeTable table b) (s.oppositeColumn table b) != 0

/-- `ConstObj::get_backlink_count(only_strong_links)` of object `key` of `table`: the stored
backlinks of the counted backlink columns. -/
def getBacklinkCount (s : Schema) (db : Db) (strong : Nat → Nat → Bool) (onlyStrongLinks : Bool)
    (table : Nat) (key : Int) : Nat :=
  ((backlinkColumns s table).map fun b =>
    if countsColumn s strong onlyStrongLinks table b then
      getBacklinkCountFrom s db table key (s.oppositeTable table b) (s.oppositeColumn table b)
    else 0).sum

/-- How often the origin columns of the counted backlink columns of `table` lead to `key`,
counted on the forward side. -/
def linkOccurrences (s : Schema) (db : Db) (strong : Nat → Nat → Bool) (onlyStrongLinks : Bool)
    (table : Nat) (key : Int) : Nat :=
  ((backlinkColumns s table).map fun b =>
    if countsColumn s strong onlyStrongLinks table b then
      (db.origins s (s.oppositeTable table b) (s.oppositeColumn table b) key).length
    else 0).sum

theorem mem_backlinkColumns {s : Schema} {table b : Nat} :
    b ∈ backlinkColumns s table ↔
      b ∈ s.columns table ∧ s.columnType table b = .backLink := by
  simp [backlinkColumns]

section

variable {s : Schema} {db : Db} (paired : s.Paired) (consistent : db.Consistent s)
  {table : Nat} (ht : table ∈ s.tables) {key : Int} (live : key ∈ db.objects table)

include paired consistent ht live

/-- A backlink column of a consistent database stores, as a multiset, the objects whose
origin column leads to the object. -/
theorem backlinks_perm_origins {b : Nat} (hb : b ∈ backlinkColumns s table) :
    (db.backlinks table (s.oppositeColumn (s.oppositeTable table b) (s.oppositeColumn table b))
      key).Perm (db.origins s (s.oppositeTable table b) (s.oppositeColumn table b) key) := by
  obtain ⟨column, backLink⟩ := mem_backlinkColumns.1 hb
  have opp := paired.opposite_mem table ht b column
  have back := paired.opposite_opposite table ht b column
  have forward := (paired.backLink_iff table ht b column).not.2 (by simp [backLink])
  have inverse := consistent.inverse _ opp.1 _ opp.2 forward key (by rwa [back.1])
  rwa [back.1] at inverse

theorem getBacklinkCountFrom_eq_length_origins {b : Nat} (hb : b ∈ backlinkColumns s table) :
    getBacklinkCountFrom s db table key (s.oppositeTable table b) (s.oppositeColumn table b) =
      (db.origins s (s.oppositeTable table b) (s.oppositeColumn table b) key).length :=
  (backlinks_perm_origins paired consistent ht live hb).length_eq

end

theorem length_origins_ne_zero {s : Schema} {db : Db} {t c : Nat} {key : Int} :
    (db.origins s t c key).length ≠ 0 ↔
      ∃ a ∈ db.objects t, key ∈ db.read (s.hop t c) a := by
  rw [← Nat.pos_iff_ne_zero, List.length_pos_iff_exists_mem]
  constructor
  · rintro ⟨a, mem⟩
    have counts := List.count_pos_iff.mpr mem
    rw [Db.count_origins] at counts
    exact ⟨a, List.count_pos_iff.mp (Nat.pos_of_mul_pos_right counts),
      List.count_pos_iff.mp (Nat.pos_of_mul_pos_left counts)⟩
  · rintro ⟨a, origin, leads⟩
    exact ⟨a, Db.mem_origins origin leads⟩

/-- Over a consistent database, `get_backlink_count` of a live object is the number of times
the counted origin columns lead to it, and `has_backlinks` holds exactly when a live object
of a counted origin column links to it. -/
theorem getBacklinkCount_linkOccurrences {s : Schema} {db : Db} (paired : s.Paired)
    (consistent : db.Consistent s) (strong : Nat → Nat → Bool) (onlyStrongLinks : Bool)
    {table : Nat} (ht : table ∈ s.tables) {key : Int} (live : key ∈ db.objects table) :
    getBacklinkCount s db strong onlyStrongLinks table key =
        linkOccurrences s db strong onlyStrongLinks table key ∧
      (hasBacklinks s db strong onlyStrongLinks table key = true ↔
        ∃ b ∈ backlinkColumns s table, countsColumn s strong onlyStrongLinks table b = true ∧
          ∃ a ∈ db.objects (s.oppositeTable table b),
            key ∈ db.read (s.hop (s.oppositeTable table b) (s.oppositeColumn table b)) a) := by
  have counts := fun b (hb : b ∈ backlinkColumns s table) =>
    getBacklinkCountFrom_eq_length_origins paired consistent ht live hb
  refine ⟨congrArg List.sum (List.map_congr_left fun b hb => by rw [counts b hb]), ?_⟩
  simp only [hasBacklinks, List.any_eq_true, Bool.and_eq_true, bne_iff_ne]
  refine exists_congr fun b => and_congr_right fun hb => and_congr_right fun _ => ?_
  rw [counts b hb, length_origins_ne_zero]

/-- `twoLists` is consistent: object 0 of table 1 has the two backlinks of the two entries `0`
of the list of object 0 of table 0. -/
theorem getBacklinkCount_linkOccurrences_twoLists :
    listToTarget.Paired ∧ twoLists.Consistent listToTarget ∧ 1 ∈ listToTarget.tables ∧
      (0 : Int) ∈ twoLists.objects 1 ∧
      getBacklinkCount listToTarget twoLists (fun _ _ => false) false 1 0 =
        linkOccurrences listToTarget twoLists (fun _ _ => false) false 1 0 ∧
      (hasBacklinks listToTarget twoLists (fun _ _ => false) false 1 0 = true ↔
        ∃ b ∈ backlinkColumns listToTarget 1,
          countsColumn listToTarget (fun _ _ => false) false 1 b = true ∧
          ∃ a ∈ twoLists.objects (listToTarget.oppositeTable 1 b),
            0 ∈ twoLists.read (listToTarget.hop (listToTarget.oppositeTable 1 b)
              (listToTarget.oppositeColumn 1 b)) a) :=
  ⟨by decide, by decide, by decide, by decide,
    getBacklinkCount_linkOccurrences (by decide) (by decide) _ _ (by decide) (by decide)⟩

end Links
end RealmCore
