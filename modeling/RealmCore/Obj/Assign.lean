import RealmCore.Store.SearchIndex
import RealmCore.Links.Assign

/-!
# `Obj::assign` over the scalar and the link columns

`x.assign(y)` walks `get_column_keys()` once. A scalar column is copied through the setters
of `Obj` (`Store.Table.assignColumn`), a link or a list of links through `set<ObjKey>`, or
`clear` and `insert_any` (`Links.assignColumn`); a throw ends the walk. Then `copy_links` runs
over the table's backlink columns. The cells and search indexes of the scalar columns are the
Store model's, the links and backlinks the link model's; `State` holds both, and every step of
`assign` changes one of them only.

`assign_copies_cells` shows that on a consistent database of weak links, when each scalar
value of `y` fits its column, the call returns: the cells are what the Store model's loop
leaves, in which the scalar columns of `x` hold `y`'s values and every other cell is as it
was, and the links are what the link model's `assign` leaves. `assign_valid` shows that,
whatever the call does, throws included, it changes the cells by setter calls only, so their
search indexes stay exact and their values typed.
-/

namespace RealmCore
namespace Obj

open Links (Schema Db)

/-- A column as `Table::get_column_keys()` lists it: a scalar column of the Store model, or a
link column (a single link or a list of links) of the link model. -/
inductive ColumnRef
  | scalar (col : Nat)
  | link (col : Nat)
  deriving DecidableEq, Repr

/-- The key of a scalar column. -/
def ColumnRef.scalarKey : ColumnRef → Option Nat
  | .scalar col => some col
  | .link _ => none

/-- The key of a link column. -/
def ColumnRef.linkKey : ColumnRef → Option Nat
  | .scalar _ => none
  | .link col => some col

/-- `cols` are the public columns of `table` in `get_column_keys()` order: the scalar columns
of the Store table `t` and the forward link columns of the schema. -/
structure Layout (s : Schema) (table : Nat) (t : Store.Table) (cols : List ColumnRef) : Prop where
  scalars : cols.filterMap ColumnRef.scalarKey = t.columnKeys
  links : cols.filterMap ColumnRef.linkKey = Links.forwardColumns s table

/-- What `Obj::assign` reads and writes: the cells and search indexes of the table's scalar
columns, and the links and backlinks of the database. -/
structure State where
  cells : Store.Table
  links : Db

/-- A setter call of the Store model, on the cells. -/
def onCells (call : Store.Table → Store.Table × Option LogicError) :
    EStateM LogicError State Unit := fun st =>
  match call st.cells with
  | (t, none) => .ok () ⟨t, st.links⟩
  | (t, some e) => .error e ⟨t, st.links⟩

/-- A call of the link model, on the links. -/
def onLinks (call : EStateM LogicError Db Unit) : EStateM LogicError State Unit := fun st =>
  match call.run st.links with
  | .ok _ db => .ok () ⟨st.cells, db⟩
  | .error e db => .error e ⟨st.cells, db⟩

/-- One column of `Obj::assign(other)` of object `x` of `table`, from object `y`. -/
def assignColumn (s : Schema) (table : Nat) (x y : Int) :
    ColumnRef → EStateM LogicError State Unit
  | .scalar col => onCells fun t => t.assignColumn x y col
  | .link col => onLinks (Links.assignColumn s table col x y)

/-- The loop of `Obj::assign` over the columns `cols`. -/
def assignColumns (s : Schema) (table : Nat) (x y : Int) :
    List ColumnRef → EStateM LogicError State Unit
  | [] => pure ()
  | col :: cols => do
      assignColumn s table x y col
      assignColumns s table x y cols

/-- `Obj::assign(other)` of object `x` of `table`, whose columns are `cols`, from object `y`:
the loop over the columns, then `copy_links` over the backlink columns. -/
def assign (s : Schema) (table : Nat) (cols : List ColumnRef) (x y : Int) :
    EStateM LogicError State Unit := do
  assignColumns s table x y cols
  onLinks (Links.copyAllLinks s table x y (Links.backlinkColumns s table))

/-! ## The call as the two models' calls side by side -/

section

variable {s : Schema} {table : Nat} {x y : Int}

/-- When the Store model's loop over the scalar columns returns and the link model's loop over
the link columns returns, the loop over all the columns returns with both results. -/
theorem assignColumns_run_of_parts : ∀ (cols : List ColumnRef) (st : State)
    {t' : Store.Table} {db' : Db},
    st.cells.assignColumns x y (cols.filterMap ColumnRef.scalarKey) = (t', none) →
    (Links.assignColumns s table x y (cols.filterMap ColumnRef.linkKey)).run st.links =
      .ok () db' →
    (assignColumns s table x y cols).run st = .ok () ⟨t', db'⟩
  | [], ⟨_, _⟩, _, _, cells, links => by
    cases cells
    cases links
    rfl
  | .scalar col :: cols, st, _, _, cells, links => by
    obtain ⟨t₁, first, rest⟩ := Store.Table.assignColumns_cons_of_returned cells
    have ran : (assignColumn s table x y (.scalar col)).run st = .ok () ⟨t₁, st.links⟩ := by
      show (match st.cells.assignColumn x y col with
        | (t, none) => _ | (t, some e) => _) = _
      rw [first]
    rw [assignColumns, Links.run_bind_of_ok ran]
    exact assignColumns_run_of_parts cols ⟨t₁, st.links⟩ rest links
  | .link col :: cols, st, _, _, cells, links => by
    obtain ⟨_, db₁, first, rest⟩ := Links.ok_of_run_bind links
    have ran : (assignColumn s table x y (.link col)).run st = .ok () ⟨st.cells, db₁⟩ := by
      show (match (Links.assignColumn s table col x y).run st.links with
        | .ok _ db => _ | .error e db => _) = _
      rw [first]
    rw [assignColumns, Links.run_bind_of_ok ran]
    exact assignColumns_run_of_parts cols ⟨st.cells, db₁⟩ cells rest

end

/-- On a consistent database of weak links, `x.assign(y)` for two objects of one table, each
scalar value of `y` fitting its column, returns. The cells are then what the Store model's
loop leaves: each scalar column of `x` holds `y`'s value, and every other cell is as it was.
The links are what the link model's `assign` leaves. -/
theorem assign_copies_cells {s : Schema} {db : Db} {table : Nat} {x y : Int}
    {t : Store.Table} {cols : List ColumnRef} (paired : s.Paired) (keys : db.KeysValid s)
    (consistent : db.Consistent s) (ht : table ∈ s.tables) (xLive : x ∈ db.objects table)
    (yLive : y ∈ db.objects table) (distinct : x ≠ y) (layout : Layout s table t cols)
    (xCell : x ∈ t.objects) (yCell : y ∈ t.objects)
    (fits : ∀ col ∈ t.columnKeys, (t.column col).fits (t.value col y) = true) :
    ∃ t' db', (assign s table cols x y).run ⟨t, db⟩ = .ok () ⟨t', db'⟩ ∧
      t.assign x y = (t', none) ∧ (Links.assign s table x y).run db = .ok () db' ∧
      t'.column = t.column ∧ t'.objects = t.objects ∧
      ∀ c k, t'.value c k = if c ∈ t.columnKeys ∧ k = x then t.value c y else t.value c k := by
  obtain ⟨t', cellsRan, column, objects, value⟩ :=
    Store.Table.assignColumns_copies t.columnKeys t xCell yCell fits
  obtain ⟨db₁, linksRan, steps, -⟩ := Links.assignColumns_run ht distinct paired (s.columns table)
    (fun _ => id) keys consistent xLive yLive
  have objects₁ := steps.objects
  obtain ⟨db', copied, -⟩ := Links.copyAllLinks_run paired ht distinct
    (Links.backlinkColumns s table) (fun _ => id) (keys.of_objects objects₁)
    (steps.linkSteps.consistent paired keys consistent).1 (objects₁ ▸ xLive) (objects₁ ▸ yLive)
  have loop := assignColumns_run_of_parts cols ⟨t, db⟩ (by rw [layout.scalars]; exact cellsRan)
    (by rw [layout.links, Links.forwardColumns, ← Links.assignColumns_run_filter]; exact linksRan)
  refine ⟨t', db', ?_, cellsRan, by rw [Links.assign, Links.run_bind_of_ok linksRan, copied],
    column, objects, fun c k => by rw [value]⟩
  rw [assign, Links.run_bind_of_ok loop]
  show (match (Links.copyAllLinks s table x y (Links.backlinkColumns s table)).run db₁ with
    | .ok _ db => _ | .error e db => _) = _
  rw [copied]

/-! ## The cells stay valid -/

/-- The cells after a call on the joint state, whether it returned or threw. -/
def cellsAfter : EStateM.Result LogicError State Unit → Store.Table
  | .ok _ st => st.cells
  | .error _ st => st.cells

/-- A call changes the cells by setter calls of the Store model only. -/
@[reducible] def CellsBySetters (call : EStateM LogicError State Unit) : Prop :=
  ∀ st : State, st.cells.Reaches (cellsAfter (call.run st))

namespace CellsBySetters

/-- Returning changes no cell. -/
theorem pure : CellsBySetters (pure ()) := fun _ => .refl

/-- Two calls in a row that change the cells by setter calls only do so together. -/
theorem bind {first : EStateM LogicError State Unit} {rest : Unit → EStateM LogicError State Unit}
    (byFirst : CellsBySetters first) (byRest : ∀ u, CellsBySetters (rest u)) :
    CellsBySetters (first >>= rest) := fun st => by
  have reach := byFirst st
  cases ran : first.run st <;> rw [ran] at reach
  · exact reach.trans (by rw [Links.run_bind_of_ok ran]; exact byRest _ _)
  · rwa [Links.run_bind_of_error ran]

/-- A setter call of the Store model. -/
theorem onCells {call : Store.Table → Store.Table × Option LogicError}
    (outcome : ∀ t : Store.Table, t.Outcome (call t)) : CellsBySetters (onCells call) := fun st => by
  show st.cells.Reaches (cellsAfter (match call st.cells with
    | (t, none) => .ok () ⟨t, st.links⟩ | (t, some e) => .error e ⟨t, st.links⟩))
  have step : st.cells.Step (call st.cells).1 := ⟨_, outcome st.cells⟩
  revert step
  rcases call st.cells with ⟨t, _ | e⟩ <;> exact .single

/-- A call of the link model leaves the cells as they are. -/
theorem onLinks (call : EStateM LogicError Db Unit) : CellsBySetters (onLinks call) := fun st => by
  show st.cells.Reaches (cellsAfter (match call.run st.links with
    | .ok _ db => .ok () ⟨st.cells, db⟩ | .error e db => .error e ⟨st.cells, db⟩))
  rcases call.run st.links with _ | _ <;> exact .refl

end CellsBySetters

/-- The loop of `Obj::assign` changes the cells by setter calls only. -/
theorem assignColumns_cellsBySetters (s : Schema) (table : Nat) (x y : Int) :
    ∀ cols, CellsBySetters (assignColumns s table x y cols)
  | [] => .pure
  | .scalar col :: cols => .bind (.onCells fun t => t.assignColumn_outcome x y col) fun _ =>
      assignColumns_cellsBySetters s table x y cols
  | .link _ :: cols => .bind (.onLinks _) fun _ => assignColumns_cellsBySetters s table x y cols

/-- `Obj::assign` changes the cells by setter calls only. -/
theorem assign_cellsBySetters (s : Schema) (table : Nat) (cols : List ColumnRef) (x y : Int) :
    CellsBySetters (assign s table cols x y) :=
  .bind (assignColumns_cellsBySetters s table x y cols) fun _ => .onLinks _

/-- Whatever `Obj::assign` does, throws included, it keeps the cells valid: every search
index exact and every value typed. -/
theorem assign_valid (s : Schema) (table : Nat) (cols : List ColumnRef) (x y : Int) (st : State)
    (valid : st.cells.Valid) : (cellsAfter ((assign s table cols x y).run st)).Valid :=
  (assign_cellsBySetters s table cols x y st).keeps (fun valid outcome => outcome.valid valid) valid

/-! ## An example -/

/-- The cells of the table of `Links.selfLinks`: objects `0`, `1` and `2` holding their keys
in column `2`, an indexed `Int` column that is not nullable. -/
def ownKeys : Store.Table where
  columnKeys := [2]
  column := fun _ => ⟨.int, false, true, by decide⟩
  objects := [0, 1, 2]
  value := fun _ k => .int k
  index := fun _ => [⟨.int 0, 0⟩, ⟨.int 1, 1⟩, ⟨.int 2, 2⟩]
  intView := .boolBits

/-- The columns of that table: the link list `0` and the scalar column `2`. -/
def listThenKey : List ColumnRef := [.link 0, .scalar 2]

/-- Object 0 takes the list and the key of object 1. -/
theorem assign_copies_cells_ownKeys :
    ∃ t' db', (assign Links.selfLinks 0 listThenKey 0 1).run ⟨ownKeys, Links.listsOfOne⟩ =
        .ok () ⟨t', db'⟩ ∧
      ownKeys.assign 0 1 = (t', none) ∧
      (Links.assign Links.selfLinks 0 0 1).run Links.listsOfOne = .ok () db' ∧
      t'.column = ownKeys.column ∧ t'.objects = ownKeys.objects ∧
      ∀ c k, t'.value c k =
        if c ∈ ownKeys.columnKeys ∧ k = 0 then ownKeys.value c 1 else ownKeys.value c k :=
  assign_copies_cells (by decide) (by decide) (by decide) (by decide) (by decide) (by decide)
    (by decide) ⟨rfl, rfl⟩ (by decide) (by decide) (by decide)

/-- The cells stay valid when object 0 takes the list and the key of object 1. -/
theorem assign_valid_ownKeys :
    ownKeys.Valid ∧
      (cellsAfter ((assign Links.selfLinks 0 listThenKey 0 1).run ⟨ownKeys, Links.listsOfOne⟩)).Valid :=
  ⟨by decide, assign_valid _ _ _ _ _ _ (by decide)⟩

end Obj
end RealmCore
