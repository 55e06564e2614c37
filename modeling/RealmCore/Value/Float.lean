import RealmCore.Value.Comparator

/-!
# `float` and `double` bit patterns and `_impl::compare_float`

A `float` or a `double` is an IEEE 754 binary interchange datum: a sign bit, an exponent
field and a fraction field. `FloatFormat.decode` gives what a bit pattern stands for; a
finite value is counted in units of the smallest subnormal, so two finite values compare
as two integers.

`compare_float` compares two values that are not NaN as IEEE floats (`==`, then `<`),
puts every NaN below every other value, and compares two NaNs by their bit patterns read
as unsigned integers. `compareFloat_eq_threeWay` shows it is the three-way comparison of
one key in a linear order, so it is a total preorder (`compareFloat_isTotalPreorder`).
-/

namespace RealmCore

/-- An IEEE 754 binary interchange format: the widths of the exponent and fraction
fields. -/
structure FloatFormat where
  exponentBits : Nat
  fractionBits : Nat
  deriving DecidableEq, Repr

/-- What a bit pattern stands for (IEEE 754 §3.4): NaN, an infinity, or a finite value by
its sign and its magnitude in units of the smallest subnormal. -/
inductive FloatValue
  | nan
  | infinity (negative : Bool)
  | finite (negative : Bool) (magnitude : Nat)
  deriving DecidableEq, Repr

namespace FloatFormat

/-- `float`: binary32. -/
def float : FloatFormat := ⟨8, 23⟩

/-- `double`: binary64. -/
def double : FloatFormat := ⟨11, 52⟩

/-- The value a bit pattern of the format stands for: an all-ones exponent is an infinity
(zero fraction) or NaN, a zero exponent a subnormal, any other a normal value with the
hidden bit. -/
def decode (f : FloatFormat) (bits : Nat) : FloatValue :=
  let negative := decide (bits / 2 ^ (f.exponentBits + f.fractionBits) % 2 = 1)
  let exponent := bits / 2 ^ f.fractionBits % 2 ^ f.exponentBits
  let fraction := bits % 2 ^ f.fractionBits
  if exponent = 2 ^ f.exponentBits - 1 then
    if fraction = 0 then .infinity negative else .nan
  else if exponent = 0 then .finite negative fraction
  else .finite negative ((2 ^ f.fractionBits + fraction) * 2 ^ (exponent - 1))

/-- `std::isnan`. -/
def isNan (f : FloatFormat) (bits : Nat) : Bool := f.decode bits == .nan

end FloatFormat

namespace FloatValue

/-- The place of a value on the extended line: an infinity at either end, a finite value
at its signed magnitude, so `-0` and `+0` share a place. NaN has none; it is put at the
bottom. -/
def place : FloatValue → WithBot (WithTop Int)
  | .nan => ⊥
  | .infinity true => ⊥
  | .infinity false => ⊤
  | .finite negative magnitude =>
      ((if negative then -(magnitude : Int) else (magnitude : Int) : Int) : WithTop Int)

/-- Modelled from the spec: IEEE 754 `a == b`, false when either is NaN. -/
def ieeeEq (a b : FloatValue) : Bool := a != .nan && b != .nan && decide (a.place = b.place)

/-- Modelled from the spec: IEEE 754 `a < b`, false when either is NaN. -/
def ieeeLt (a b : FloatValue) : Bool := a != .nan && b != .nan && decide (a.place < b.place)

end FloatValue

/-- `_impl::compare_float(a_raw, b_raw)` on the bit patterns of two values of format `f`;
two NaNs are compared as the unsigned integers their bits spell. -/
def compareFloat (f : FloatFormat) (aRaw bRaw : Nat) : Int :=
  let aNan := f.isNan aRaw
  let bNan := f.isNan bRaw
  if !aNan && !bNan then
    if (f.decode aRaw).ieeeEq (f.decode bRaw) then 0
    else if (f.decode aRaw).ieeeLt (f.decode bRaw) then -1 else 1
  else if aNan && bNan then
    if aRaw = bRaw then 0 else if aRaw < bRaw then -1 else 1
  else if aNan then -1 else 1

/-- What `compare_float` orders by: NaNs first, by bit pattern, then the other values by
their place on the extended line. -/
def floatKey (f : FloatFormat) (bits : Nat) : Bool ×ₗ WithBot (WithTop Int) :=
  if f.isNan bits then toLex (false, (((bits : Int) : WithTop Int) : WithBot (WithTop Int)))
  else toLex (true, (f.decode bits).place)

section

variable {γ : Type} [LinearOrder γ]

/-- `a == b ? 0 : a < b ? -1 : 1`, the form of both branches of `compare_float`, is the
three-way comparison of a linear order. -/
theorem eq_lt_three_way (a b : γ) :
    (if a = b then 0 else if a < b then -1 else 1 : Int) =
      threeWay (fun x y => decide (x < y)) a b := by
  unfold threeWay
  rcases lt_trichotomy a b with lt | rfl | gt
  · simp [lt, lt_asymm lt, ne_of_lt lt]
  · simp
  · simp [gt, lt_asymm gt, ne_of_gt gt]

end

theorem compareFloat_eq_threeWay (f : FloatFormat) (a b : Nat) :
    compareFloat f a b = threeWay (fun x y => decide (x < y)) (floatKey f a) (floatKey f b) := by
  unfold compareFloat floatKey
  cases aNan : f.isNan a <;> cases bNan : f.isNan b
  · have aNum : (f.decode a != .nan) = true := by simpa [FloatFormat.isNan] using aNan
    have bNum : (f.decode b != .nan) = true := by simpa [FloatFormat.isNan] using bNan
    simp only [FloatValue.ieeeEq, FloatValue.ieeeLt, aNum, bNum, Bool.true_and,
      decide_eq_true_eq, Bool.not_false, Bool.and_self, if_true]
    rw [eq_lt_three_way]
    simp [threeWay, Prod.Lex.lt_iff]
  · simp [threeWay, Prod.Lex.lt_iff]
  · simp [threeWay, Prod.Lex.lt_iff]
    decide
  · simp only [Bool.not_true, Bool.false_and, Bool.and_self, if_true, Bool.false_eq_true,
      if_false]
    rw [eq_lt_three_way]
    simp [threeWay, Prod.Lex.lt_iff]

theorem compareFloat_isTotalPreorder (f : FloatFormat) : IsTotalPreorder (compareFloat f) := by
  have key : compareFloat f = fun a b =>
      threeWay (fun x y => decide (x < y)) (floatKey f a) (floatKey f b) :=
    funext fun a => funext (compareFloat_eq_threeWay f a)
  rw [key]
  exact strictTotal_lt.isTotalPreorder.comap _

end RealmCore
