import RealmCore.Keys
import RealmCore.Value.Mixed

/-!
# The cells of a table and the setters of `Obj`

A table's scalar columns hold one value per object, in the column's cluster leaf, and a
column may carry a search index (`StringIndex`), which maps each value to the objects holding
it. Every setter of `Obj` that writes a value makes the same two writes, in this order: it
tells the index the new value (`index->set(m_key, value)`), and then writes the leaf. The
index finds the entry to replace by the value the leaf still holds, so the order matters.

Each setter is modelled as a function of the table that returns the table after the call
and what it threw, if anything. All of them throw before their first write.

`Obj::add_int` checks no column type: it reads and writes the leaf through an integer view
(`ArrayIntNull` or `ArrayInteger`), and tells the index the integer sum. What such a view
reads from, and leaves in, the leaf of a column of another type is decided by the leaf
arrays, which are not in the source; the table carries it as an `IntView`.

Link columns are not cells of this model: their values and backlinks are the link model's
(`Links.Db`), and `Obj.assign` runs `Obj::assign` over both. List columns have no search
index and are not modelled.
-/

namespace RealmCore
namespace Store

/-- What the setters read of a scalar column: its type (`ColKey::get_type`),
`col_attr_Nullable`, and whether it has a search index. -/
structure Column where
  type : DataType
  nullable : Bool
  indexed : Bool
  scalar : type ≠ .link
  deriving DecidableEq, Repr

/-- Whether the leaf of column `c` can hold `v`, read by the column's type: null when the
column is nullable, otherwise a value of the column's type. -/
def Column.holds (c : Column) : Mixed → Bool
  | .null => c.nullable
  | v => v.getType == some c.type

/-- An entry of a search index: a value and the key of an object that holds it. -/
structure IndexEntry where
  value : Mixed
  key : Int
  deriving DecidableEq, Repr

/-- How `add_int`'s integer views see the leaf of a column: `ArrayIntNull::get` (`none` is
null) and `ArrayInteger::get` of a cell, and what the leaf reads back, by its own type, after
the view writes an integer over a cell. The leaf arrays are not in the source; on an `Int`
leaf the view is the leaf itself, and whatever the leaf reads back is null or of its type.
The write is taken to change the cell of its row only. -/
structure IntView where
  getNull : Column → Mixed → Option Int
  get : Column → Mixed → Int
  readBack : Column → Mixed → Int → Mixed
  getNull_int : ∀ c, c.type = .int → ∀ n, getNull c (.int n) = some n
  getNull_null : ∀ c, c.type = .int → getNull c .null = none
  get_int : ∀ c, c.type = .int → ∀ n, get c (.int n) = n
  readBack_int : ∀ c, c.type = .int → ∀ old n, readBack c old n = .int n
  readBack_ofType : ∀ c old n, readBack c old n = .null ∨ (readBack c old n).getType = some c.type

/-- One integer view a leaf may have, for the examples: an `Int` leaf is its own view; a
`Bool` leaf holds `0` or `1` and reads back a nonzero integer as true; a leaf of another type
reads no integer (null through `ArrayIntNull`, `0` through `ArrayInteger`) and reads back its
type's empty value. -/
def IntView.boolBits : IntView where
  getNull _ v := match v with
    | .int n => some n
    | .bool b => some (if b then 1 else 0)
    | _ => none
  get _ v := match v with
    | .int n => n
    | .bool b => if b then 1 else 0
    | _ => 0
  readBack c _ n := match c.type with
    | .int => .int n
    | .bool => .bool (n ≠ 0)
    | .float => .float 0
    | .double => .double 0
    | .string => .string ""
    | .binary => .binary []
    | .timestamp => .timestamp ⟨0, 0⟩
    | .link => .null
  getNull_int _ _ _ := rfl
  getNull_null _ _ := rfl
  get_int _ _ _ := rfl
  readBack_int c int _ _ := by simp only [int]
  readBack_ofType c _ _ := by
    cases c with
    | mk type => cases type <;> simp [Mixed.getType]

/-- One table: its scalar columns, the keys of its objects, the value each object holds in
each column read by the column's type (`Mixed.null` for null), the entries of each column's
search index, and how its leaves look through an integer view. -/
structure Table where
  columnKeys : List Nat
  column : Nat → Column
  objects : List Int
  value : Nat → Int → Mixed
  index : Nat → List IndexEntry
  intView : IntView

/-- Modelled from the spec: `Table::max_string_size`, the storage cap of a string
(`0xFFFFF8` less the array header and the terminating zero). -/
def maxStringSize : Nat := 0xFFFFF8 - 8 - 1

/-- Modelled from the spec: `ArrayBlob::max_binary_size` (`0xFFFFF8` less the array
header). -/
def maxBinarySize : Nat := 0xFFFFF8 - 8

namespace Table

/-- Modelled from the spec: `StringIndex::set(key, new_value)`. The index reads the value the
leaf holds for `key` now, by the column's type, erases the entry for it, and inserts one for
`new_value`. -/
def indexSet (t : Table) (col : Nat) (key : Int) (newValue : Mixed) : Table :=
  { t with index := fun c =>
      if c = col then (t.index col).erase ⟨t.value col key, key⟩ ++ [⟨newValue, key⟩]
      else t.index c }

/-- The leaf write `values.set(m_row_ndx, value)`, or `values.set_null(m_row_ndx)`. -/
def store (t : Table) (col : Nat) (key : Int) (v : Mixed) : Table :=
  { t with value := fun c k => if c = col ∧ k = key then v else t.value c k }

/-- The two writes of a setter, in their order: the column's search index, if it has one, is
told `told`, then the leaf comes to hold `stored`. -/
def writeAs (t : Table) (col : Nat) (key : Int) (told stored : Mixed) : Table :=
  (if (t.column col).indexed then t.indexSet col key told else t).store col key stored

/-- The two writes of a typed setter: the index is told the value the leaf then holds. -/
def write (t : Table) (col : Nat) (key : Int) (v : Mixed) : Table :=
  t.writeAs col key v v

/-! ## The setters of `Obj` -/

/-- `Obj::set<int64_t>(col_key, value)` on object `key`. An accessor whose object is gone
throws `KeyNotFound` (`update_if_needed`). -/
def setInt (t : Table) (col : Nat) (key value : Int) : Table × Option LogicError :=
  if key ∉ t.objects then (t, some .keyNotFound)
  else if (t.column col).type ≠ .int then (t, some .illegalType)
  else (t.write col key (.int value), none)

/-- `add_wrap`: the sum of two `int64_t` values in two's complement, wrapping around. -/
def addWrap (a b : Int) : Int := (a + b + 2 ^ 63) % 2 ^ 64 - 2 ^ 63

/-- `add_wrap` gives the one `int64_t` value congruent to the sum modulo `2 ^ 64`. -/
theorem addWrap_spec (a b : Int) :
    -2 ^ 63 ≤ addWrap a b ∧ addWrap a b < 2 ^ 63 ∧
      addWrap a b % 2 ^ 64 = (a + b) % 2 ^ 64 := by
  unfold addWrap
  omega

example : addWrap (2 ^ 63 - 1) 1 = -2 ^ 63 := by decide

/-- The two writes of `add_int`: `index->set<int64_t>(m_key, new_val)`, then
`values.set(m_row_ndx, new_val)` through the integer view. -/
def writeInt (t : Table) (col : Nat) (key n : Int) : Table :=
  t.writeAs col key (.int n) (t.intView.readBack (t.column col) (t.value col key) n)

/-- `Obj::add_int(col_key, value)`. The column's type is not checked: a nullable column is
read through `ArrayIntNull`, where a null throws `illegal_combination`, any other through
`ArrayInteger`. -/
def addInt (t : Table) (col : Nat) (key value : Int) : Table × Option LogicError :=
  if key ∉ t.objects then (t, some .keyNotFound)
  else if (t.column col).nullable then
    match t.intView.getNull (t.column col) (t.value col key) with
    | some old => (t.writeInt col key (addWrap old value), none)
    | none => (t, some .illegalCombination)
  else (t.writeInt col key (addWrap (t.intView.get (t.column col) (t.value col key)) value), none)

/-- One live object, `0`, holding `false` in column `0`, a Bool column that is neither
nullable nor indexed. -/
def boolColumn : Table where
  columnKeys := [0]
  column := fun _ => ⟨.bool, false, false, by decide⟩
  objects := [0]
  value := fun _ _ => .bool false
  index := fun _ => []
  intView := .boolBits

/-- `add_int` on a Bool column throws nothing: it adds to the leaf as to an integer leaf. -/
theorem addInt_bool_column_returns :
    (boolColumn.column 0).type ≠ .int ∧ (boolColumn.addInt 0 0 1).2 = none ∧
      (boolColumn.addInt 0 0 1).1.value 0 0 ≠ boolColumn.value 0 0 := by
  decide

/-- `check_range(value)`: a string or a binary over the storage cap throws. -/
def checkRange : Mixed → Option LogicError
  | .string s => if s.utf8ByteSize > maxStringSize then some .stringTooBig else none
  | .binary b => if b.length > maxBinarySize then some .binaryTooBig else none
  | _ => none

/-- `Obj::set<T>(col_key, value)` for a `T` of type `type`; a null `StringData`,
`BinaryData` or `Timestamp` is `Mixed.null`. -/
def setTyped (t : Table) (col : Nat) (key : Int) (type : DataType) (value : Mixed) :
    Table × Option LogicError :=
  if key ∉ t.objects then (t, some .keyNotFound)
  else if (t.column col).type ≠ type then (t, some .illegalType)
  else if value = .null ∧ (t.column col).nullable = false then (t, some .columnNotNullable)
  else
    match checkRange value with
    | some e => (t, some e)
    | none => (t.write col key value, none)

/-- `Obj::set_null(col_key)` on a scalar column: a column that is not nullable throws, and
the index and the leaf are told null. On a link column `set_null` is
`set(col_key, null_key)`, the link model's `setObjKey`. -/
def setNull (t : Table) (col : Nat) (key : Int) : Table × Option LogicError :=
  if (t.column col).nullable = false then (t, some .columnNotNullable)
  else if key ∉ t.objects then (t, some .keyNotFound)
  else (t.write col key .null, none)

/-- `Obj::set(col_key, Mixed value)` on a scalar column: null goes to `set_null`, any other
value to the setter of the column's type (a nullable `Int` through `Optional<Int>`). A value
of another type, a link among them, fails a `REALM_ASSERT`; the model throws `illegal_type`
there, before any write. -/
def setMixed (t : Table) (col : Nat) (key : Int) (value : Mixed) : Table × Option LogicError :=
  match value with
  | .null => t.setNull col key
  | .int v => if (t.column col).type = .int then t.setInt col key v else (t, some .illegalType)
  | v =>
      match v.getType with
      | some type =>
          if (t.column col).type = type then t.setTyped col key type v else (t, some .illegalType)
      | none => (t, some .illegalType)

/-- One scalar column of `Obj::assign(other)`: `other`'s value is copied through `set_null`,
the string and binary setters, or `set(col_key, Mixed)`. -/
def assignColumn (t : Table) (key other : Int) (col : Nat) : Table × Option LogicError :=
  if other ∉ t.objects then (t, some .keyNotFound)
  else
    match t.value col other with
    | .null => t.setNull col key
    | .string s => t.setTyped col key .string (.string s)
    | .binary b => t.setTyped col key .binary (.binary b)
    | v => t.setMixed col key v

/-- The loop of `Obj::assign(other)` over the scalar columns `columns`; a throw ends it. -/
def assignColumns (t : Table) (key other : Int) : List Nat → Table × Option LogicError
  | [] => (t, none)
  | col :: cols =>
      match t.assignColumn key other col with
      | (t', some e) => (t', some e)
      | (t', none) => t'.assignColumns key other cols

/-- The loop of `Obj::assign(other)` on the table's scalar columns; `Obj.assign` runs it
with the link columns and `copy_links`. -/
def assign (t : Table) (key other : Int) : Table × Option LogicError :=
  t.assignColumns key other t.columnKeys

end Table

/-- Whether `assign` copies the value `v` into a column as it is: null only into a nullable
column, and any other value of the column's type within the storage caps. -/
def Column.fits (c : Column) : Mixed → Bool
  | .null => c.nullable
  | v => v.getType == some c.type && (Table.checkRange v).isNone

/-- A call of a setter on an object of the table. -/
inductive Op
  | setInt (col : Nat) (key value : Int)
  | addInt (col : Nat) (key value : Int)
  | setBool (col : Nat) (key : Int) (value : Bool)
  | setFloat (col : Nat) (key : Int) (bits : UInt32)
  | setDouble (col : Nat) (key : Int) (bits : UInt64)
  | setString (col : Nat) (key : Int) (value : Option String)
  | setBinary (col : Nat) (key : Int) (value : Option (List UInt8))
  | setTimestamp (col : Nat) (key : Int) (value : Option Timestamp)
  | setNull (col : Nat) (key : Int)
  | setMixed (col : Nat) (key : Int) (value : Mixed)
  | assign (key other : Int)

/-- The table after the call, and what it threw. -/
def Op.apply (t : Table) : Op → Table × Option LogicError
  | .setInt col key value => t.setInt col key value
  | .addInt col key value => t.addInt col key value
  | .setBool col key value => t.setTyped col key .bool (.bool value)
  | .setFloat col key bits => t.setTyped col key .float (.float bits)
  | .setDouble col key bits => t.setTyped col key .double (.double bits)
  | .setString col key value => t.setTyped col key .string ((value.map .string).getD .null)
  | .setBinary col key value => t.setTyped col key .binary ((value.map .binary).getD .null)
  | .setTimestamp col key value =>
      t.setTyped col key .timestamp ((value.map .timestamp).getD .null)
  | .setNull col key => t.setNull col key
  | .setMixed col key value => t.setMixed col key value
  | .assign key other => t.assign key other

/-- Whether a call keeps to the columns' types: `add_int` only on an `Int` column. -/
def Op.Allowed (column : Nat → Column) : Op → Bool
  | .addInt col _ _ => (column col).type == .int
  | _ => true

/-- A sequence of calls, each from the state the one before left, whether it returned or
threw. -/
def Table.run (t : Table) (ops : List Op) : Table :=
  ops.foldl (fun t op => (op.apply t).1) t

end Store
end RealmCore
