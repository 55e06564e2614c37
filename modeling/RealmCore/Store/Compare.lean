import RealmCore.Store.Setters

/-!
# Comparing two objects: `ConstObj::cmp` and `operator==`

`ConstObj::cmp(other, col_key)` reads the two objects' values of one column as the C++ type
of the column (`_get<T>`) and asks that type's `operator<` one way and then the other:
`-1` when the first value is less, `1` when the second is, `0` otherwise. `operator==`
asks `cmp` of every public column, from the last down.

For a `float` or a `double` column that `operator<` is IEEE 754's, under which a NaN is
neither less nor greater than any value. `cmp_nan_compare` shows that `cmp` then answers `0`
where `Mixed::compare` of the two values (`get_any`) puts the NaN below, and that
`operator==` is not transitive. On columns whose values are totally ordered, such as `Int`,
`cmp` is `Mixed::compare` (`cmp_int_compare`).
-/

namespace RealmCore

namespace Mixed

/-- The integer an `Int` leaf holds. -/
def getInt : Mixed → Option Int
  | .int v => some v
  | _ => none

/-- The value a `Bool` leaf holds. -/
def getBool : Mixed → Option Bool
  | .bool v => some v
  | _ => none

/-- The bits a `float` leaf holds. -/
def getFloat : Mixed → Option UInt32
  | .float bits => some bits
  | _ => none

/-- The bits a `double` leaf holds. -/
def getDouble : Mixed → Option UInt64
  | .double bits => some bits
  | _ => none

/-- The string a `String` leaf holds. -/
def getString : Mixed → Option String
  | .string v => some v
  | _ => none

/-- The bytes a `Binary` leaf holds. -/
def getBinary : Mixed → Option (List UInt8)
  | .binary v => some v
  | _ => none

/-- The value a `Timestamp` leaf holds. -/
def getTimestamp : Mixed → Option Timestamp
  | .timestamp v => some v
  | _ => none

/-- The key a link leaf holds. -/
def getLink : Mixed → Option Int
  | .link key => some key
  | _ => none

end Mixed

namespace Store

/-- `ConstObj::cmp<T>(other, col_ndx)` on the two values read: `T`'s `operator<` one way,
then the other. -/
def cmpBy {α : Type} (lt : α → α → Bool) (v1 v2 : α) : Int :=
  if lt v1 v2 then -1 else if lt v2 v1 then 1 else 0

/-- Asking `<` first or `>` first makes no difference for an asymmetric order. -/
theorem cmpBy_eq_threeWay {α : Type} {lt : α → α → Bool}
    (asymm : ∀ a b, lt a b = true → lt b a = false) (v1 v2 : α) :
    cmpBy lt v1 v2 = threeWay lt v1 v2 := by
  unfold cmpBy threeWay
  cases below : lt v1 v2 <;> cases above : lt v2 v1 <;> simp_all

/-- What `ConstObj::cmp` reads that is not in the source: the `operator<` of
`util::Optional<int64_t>`, `StringData`, `BinaryData` and `Timestamp`, null being `none`,
and what `_get<T>` reads from a null `bool`, `float` or `double` leaf. -/
structure LeafOrders where
  optionalInt : Option Int → Option Int → Bool
  string : Option String → Option String → Bool
  binary : Option (List UInt8) → Option (List UInt8) → Bool
  timestamp : Option Timestamp → Option Timestamp → Bool
  nullBool : Bool
  nullFloat : UInt32
  nullDouble : UInt64

namespace Table

/-- `ConstObj::get_any(col_key)` of object `key`: the value its leaf holds, null included. -/
def getAny (t : Table) (col : Nat) (key : Int) : Mixed := t.value col key

/-- `ConstObj::cmp(other, col_key)` of objects `a` and `b`, dispatched on the column's type
to `cmp<T>` for the type `_get<T>` reads: `Optional<Int>` for a nullable `Int` column, the
IEEE `<` for `float` and `double`, the `<` of keys for a link column (a case of the source's
switch that no column of this model takes: link columns are the link model's). -/
def cmp (orders : LeafOrders) (t : Table) (a b : Int) (col : Nat) : Int :=
  let v1 := t.value col a
  let v2 := t.value col b
  match (t.column col).type with
  | .int =>
      if (t.column col).nullable then cmpBy orders.optionalInt v1.getInt v2.getInt
      else cmpBy (fun x y => decide (x < y)) (v1.getInt.getD 0) (v2.getInt.getD 0)
  | .bool => cmpBy (fun x y => !x && y) (v1.getBool.getD orders.nullBool)
      (v2.getBool.getD orders.nullBool)
  | .float => cmpBy FloatValue.ieeeLt
      (FloatFormat.float.decode (v1.getFloat.getD orders.nullFloat).toNat)
      (FloatFormat.float.decode (v2.getFloat.getD orders.nullFloat).toNat)
  | .double => cmpBy FloatValue.ieeeLt
      (FloatFormat.double.decode (v1.getDouble.getD orders.nullDouble).toNat)
      (FloatFormat.double.decode (v2.getDouble.getD orders.nullDouble).toNat)
  | .string => cmpBy orders.string v1.getString v2.getString
  | .binary => cmpBy orders.binary v1.getBinary v2.getBinary
  | .timestamp => cmpBy orders.timestamp v1.getTimestamp v2.getTimestamp
  | .link => cmpBy (fun x y => decide (x < y)) (v1.getLink.getD nullKey) (v2.getLink.getD nullKey)

/-- `ConstObj::operator==(other)`: `cmp` answers `0` on every public column, asked from the
last column down. -/
def operatorEq (orders : LeafOrders) (t : Table) (a b : Int) : Bool :=
  t.columnKeys.reverse.all fun col => t.cmp orders a b col == 0

/-- On an `Int` column that is not nullable, `cmp` is `Mixed::compare` of the two values. -/
theorem cmp_int_compare (orders : LeafOrders) (utf8Compare : String → String → Bool)
    {t : Table} {col : Nat} (intCol : (t.column col).type = .int)
    (notNull : (t.column col).nullable = false) {a b : Int} {x y : Int}
    (ha : t.value col a = .int x) (hb : t.value col b = .int y) :
    (t.getAny col a).compare utf8Compare (t.getAny col b) = some (t.cmp orders a b col) := by
  have asymm : ∀ x y : Int, decide (x < y) = true → decide (y < x) = false := fun x y lt => by
    simp only [decide_eq_true_eq] at lt
    simp [lt_asymm lt]
  simp only [cmp, getAny, intCol, notNull, ha, hb, Mixed.getInt, Option.getD_some,
    cmpBy_eq_threeWay asymm, Mixed.compare, Bool.false_eq_true, if_false]

/-- Three live objects holding the smallest positive double, NaN and the next double in
column `0`, a `double` column that is neither nullable nor indexed. -/
def nanBetween : Table where
  columnKeys := [0]
  column := fun _ => ⟨.double, false, false, by decide⟩
  objects := [0, 1, 2]
  value := fun _ key => .double (if key = 0 then 1 else if key = 1 then 0x7FF8000000000000 else 2)
  index := fun _ => []
  intView := .boolBits

/-- `cmp` answers `0` between NaN and a number, which `Mixed::compare` orders, and
`operator==` holds between the first number and NaN and between NaN and the second number
but not between the two numbers, whatever the orders of the types a double column does not
read. -/
theorem cmp_nan_compare (orders : LeafOrders) (utf8Compare : String → String → Bool) :
    nanBetween.cmp orders 1 0 0 = 0 ∧
      (nanBetween.getAny 0 1).compare utf8Compare (nanBetween.getAny 0 0) = some (-1) ∧
      nanBetween.operatorEq orders 0 1 = true ∧ nanBetween.operatorEq orders 1 2 = true ∧
      nanBetween.operatorEq orders 0 2 = false := by
  refine ⟨?_, rfl, ?_, ?_, ?_⟩ <;>
    simp [Table.cmp, nanBetween, Mixed.getDouble, operatorEq] <;> decide

end Table

end Store
end RealmCore
