import RealmCore.Keys

/-!
# Link columns and their backlinks

A forward link column of table `A` points at objects of its target table `B`: a single
link holds one key (null when unset), a link list holds a list of keys, duplicates
allowed. For each forward column `B` has a backlink column, which stores for every
object `b` of `B` the keys of the objects of `A` that link to `b`, once per link.
`Table::get_opposite_table` and `get_opposite_column` go from either column to the
other.

`Db.Consistent` is the state the link code relies on: links point at live objects and
every backlink column holds exactly the inverse multiset of its forward column.
-/

namespace RealmCore
namespace Links

/-- The kinds of link column (`col_type_Link`, `col_type_LinkList`, `col_type_BackLink`). -/
inductive ColumnType
  | link
  | linkList
  | backLink
  deriving DecidableEq, Repr

/-- The tables and link columns, with each column's type (`ColKey::get_type`) and its
`get_opposite_table` / `get_opposite_column`: the target table and backlink column of a
forward column, the origin table and forward column of a backlink column. -/
structure Schema where
  tables : List Nat
  columns : Nat → List Nat
  columnType : Nat → Nat → ColumnType
  oppositeTable : Nat → Nat → Nat
  oppositeColumn : Nat → Nat → Nat

/-- The objects of each table and what their link columns hold: `get<ObjKey>` of a single
link, the keys of a link list, and the stored backlinks (`get_all_backlinks`). -/
structure Db where
  objects : Nat → List Int
  link : Nat → Nat → Int → Int
  list : Nat → Nat → Int → List Int
  backlinks : Nat → Nat → Int → List Int

/-- One step of a link path: a column of a table, with its type. -/
structure Hop where
  table : Nat
  column : Nat
  type : ColumnType
  deriving DecidableEq, Repr

namespace Schema

/-- The column `column` of `table` as a hop. -/
def hop (s : Schema) (table column : Nat) : Hop := ⟨table, column, s.columnType table column⟩

@[simp] theorem hop_table (s : Schema) (table column : Nat) :
    (s.hop table column).table = table :=
  rfl

@[simp] theorem hop_column (s : Schema) (table column : Nat) :
    (s.hop table column).column = column :=
  rfl

@[simp] theorem hop_type (s : Schema) (table column : Nat) :
    (s.hop table column).type = s.columnType table column :=
  rfl

/-- Every column has its opposite column in the opposite table, that column's opposite is
the column itself, and exactly one of the two is a backlink column. -/
structure Paired (s : Schema) : Prop where
  opposite_mem : ∀ t ∈ s.tables, ∀ c ∈ s.columns t,
    s.oppositeTable t c ∈ s.tables ∧ s.oppositeColumn t c ∈ s.columns (s.oppositeTable t c)
  opposite_opposite : ∀ t ∈ s.tables, ∀ c ∈ s.columns t,
    s.oppositeTable (s.oppositeTable t c) (s.oppositeColumn t c) = t ∧
      s.oppositeColumn (s.oppositeTable t c) (s.oppositeColumn t c) = c
  backLink_iff : ∀ t ∈ s.tables, ∀ c ∈ s.columns t,
    s.columnType (s.oppositeTable t c) (s.oppositeColumn t c) = .backLink ↔
      s.columnType t c ≠ .backLink

instance (s : Schema) : Decidable s.Paired :=
  decidable_of_iff (_ ∧ _ ∧ _) ⟨fun ⟨a, b, c⟩ => ⟨a, b, c⟩, fun ⟨a, b, c⟩ => ⟨a, b, c⟩⟩

end Schema

namespace Db

/-- The keys `hop` leads to from `key`: the target of a non-null single link, the keys of
a link list in order, or the stored backlinks in order. -/
def read (db : Db) (hop : Hop) (key : Int) : List Int :=
  match hop.type with
  | .link => if db.link hop.table hop.column key = nullKey then [] else
      [db.link hop.table hop.column key]
  | .linkList => db.list hop.table hop.column key
  | .backLink => db.backlinks hop.table hop.column key

/-- The objects of `origin` whose column `column` leads to `b`, once per occurrence of `b`. -/
def origins (s : Schema) (db : Db) (origin column : Nat) (b : Int) : List Int :=
  (db.objects origin).flatMap fun a => List.replicate ((db.read (s.hop origin column) a).count b) a

/-- Links of live objects lead to live objects of the opposite table. -/
def LinksLive (s : Schema) (db : Db) : Prop :=
  ∀ t ∈ s.tables, ∀ c ∈ s.columns t, ∀ a ∈ db.objects t,
    ∀ k ∈ db.read (s.hop t c) a, k ∈ db.objects (s.oppositeTable t c)

instance (s : Schema) (db : Db) : Decidable (db.LinksLive s) :=
  inferInstanceAs (Decidable (∀ t ∈ s.tables, ∀ c ∈ s.columns t, ∀ a ∈ db.objects t,
    ∀ k ∈ db.read (s.hop t c) a, k ∈ db.objects (s.oppositeTable t c)))

/-- Links lead to live objects of the opposite table, and the backlinks of each object
`b` for a forward column are, as a multiset, the objects whose column leads to `b`. -/
structure Consistent (s : Schema) (db : Db) : Prop where
  live : ∀ t ∈ s.tables, ∀ c ∈ s.columns t, ∀ a ∈ db.objects t,
    ∀ k ∈ db.read (s.hop t c) a, k ∈ db.objects (s.oppositeTable t c)
  inverse : ∀ t ∈ s.tables, ∀ c ∈ s.columns t, s.columnType t c ≠ .backLink →
    ∀ b ∈ db.objects (s.oppositeTable t c),
      (db.backlinks (s.oppositeTable t c) (s.oppositeColumn t c) b).Perm (db.origins s t c b)

instance (s : Schema) (db : Db) : Decidable (db.Consistent s) :=
  decidable_of_iff (_ ∧ _) ⟨fun ⟨a, b⟩ => ⟨a, b⟩, fun ⟨a, b⟩ => ⟨a, b⟩⟩

end Db

end Links
end RealmCore
