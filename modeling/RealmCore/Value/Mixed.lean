import RealmCore.Value.Float

/-!
# `Mixed::compare`

`Mixed::compare(b)` orders null below every other value and otherwise compares two
values of the type of `this`: integers, booleans, timestamps and link keys by `>` then
`<`, strings by `utf8_compare`, binaries bytewise with `memcmp` and then by size, floats
and doubles by `compare_float`. `b.get<T>()` asserts that `b` holds that type.

`compare_laws` shows that, for any `utf8_compare` that is a strict total order, the
comparison is a total preorder on null and the values of any one type, so it can serve
as a sort comparator: null and NaN sit at the bottom, two NaNs compare by bit pattern,
and binaries compare bytewise with a proper prefix below.
-/

namespace RealmCore

/-- Modelled from the spec: a non-null `Timestamp`. -/
structure Timestamp where
  seconds : Int
  nanoseconds : Int
  deriving DecidableEq, Repr

/-- Modelled from the spec: `Timestamp::operator<`, seconds first, then nanoseconds. -/
def Timestamp.lt (a b : Timestamp) : Bool :=
  decide (a.seconds < b.seconds ∨ a.seconds = b.seconds ∧ a.nanoseconds < b.nanoseconds)

/-- `Timestamp::operator<` is a strict total order. -/
theorem Timestamp.strictTotal_lt : StrictTotal Timestamp.lt where
  irrefl a := by simp [Timestamp.lt]
  trans a b c := by
    simp only [Timestamp.lt, decide_eq_true_eq]
    omega
  total a b ne := by
    rcases a with ⟨s, n⟩
    rcases b with ⟨s', n'⟩
    simp only [ne_eq, Timestamp.mk.injEq] at ne
    simp only [Timestamp.lt, decide_eq_true_eq]
    omega

/-- Modelled from the spec: the sign of `memcmp(a, b, n)`: the first of the first `n` byte
pairs that differ decides, bytes read as `unsigned char`. The C library fixes only the sign;
an implementation may return, say, the difference of the two bytes, so where the model's
`compare_binary` and `Mixed::compare` of two binaries give `-1` or `1`, the code may give
any value of that sign. -/
def memcmp : List UInt8 → List UInt8 → Nat → Int
  | x :: xs, y :: ys, n + 1 =>
      if x.toNat < y.toNat then -1 else if y.toNat < x.toNat then 1 else memcmp xs ys n
  | _, _, _ => 0

/-- `_impl::compare_binary(a, b)`, with `memcmp`'s value taken as its sign. -/
def compareBinary (a b : List UInt8) : Int :=
  let ret := memcmp a b (min a.length b.length)
  if ret = 0 then
    if a.length > b.length then 1 else if a.length < b.length then -1 else ret
  else ret

/-- Bytewise lexicographic order with a proper prefix below: what `compare_binary` is
for. -/
def lexCompare : List UInt8 → List UInt8 → Int
  | [], [] => 0
  | [], _ :: _ => -1
  | _ :: _, [] => 1
  | x :: xs, y :: ys =>
      if x.toNat < y.toNat then -1 else if y.toNat < x.toNat then 1 else lexCompare xs ys

/-- `compare_binary` of two non-empty binaries is decided by their first bytes, or else by
the rest. -/
theorem compareBinary_cons (x y : UInt8) (xs ys : List UInt8) :
    compareBinary (x :: xs) (y :: ys) =
      if x.toNat < y.toNat then -1 else if y.toNat < x.toNat then 1 else compareBinary xs ys := by
  simp only [compareBinary, List.length_cons, Nat.add_min_add_right, memcmp]
  by_cases below : x.toNat < y.toNat
  · simp [below]
  · by_cases above : y.toNat < x.toNat
    · simp [below, above]
    · simp only [below, above, if_false, gt_iff_lt, Nat.add_lt_add_iff_right]

/-- `compare_binary` is the bytewise lexicographic order. -/
theorem compareBinary_eq_lexCompare : ∀ a b, compareBinary a b = lexCompare a b
  | [], [] => rfl
  | [], _ :: _ => by simp [compareBinary, memcmp, lexCompare]
  | _ :: _, [] => by simp [compareBinary, memcmp, lexCompare]
  | x :: xs, y :: ys => by
      rw [compareBinary_cons, lexCompare, compareBinary_eq_lexCompare xs ys]

/-- The bytewise lexicographic order is a total preorder. -/
theorem lexCompare_isTotalPreorder : IsTotalPreorder lexCompare where
  refl a := by
    induction a with
    | nil => rfl
    | cons x xs ih => simp [lexCompare, ih]
  antisymm a b := by
    induction a generalizing b with
    | nil => cases b <;> rfl
    | cons x xs ih =>
        cases b with
        | nil => rfl
        | cons y ys =>
            simp only [lexCompare]
            split_ifs <;> first | omega | exact ih ys
  trans a b c := by
    induction a generalizing b c with
    | nil => cases c <;> simp [lexCompare]
    | cons x xs ih =>
        cases b with
        | nil => simp [lexCompare]
        | cons y ys =>
            cases c with
            | nil => simp [lexCompare]
            | cons z zs =>
                simp only [lexCompare]
                split_ifs <;> first | omega | exact ih ys zs

/-- `_impl::compare_string(a, b)`, for a given `utf8_compare`. -/
def compareString (utf8Compare : String → String → Bool) (a b : String) : Int :=
  if a = b then 0 else if utf8Compare a b then -1 else 1

/-- For a strict total `utf8_compare`, `compare_string` asks it one way and then the
other. -/
theorem compareString_eq_threeWay {utf8Compare : String → String → Bool}
    (order : StrictTotal utf8Compare) (a b : String) :
    compareString utf8Compare a b = threeWay utf8Compare a b := by
  unfold compareString threeWay
  by_cases same : a = b
  · simp [same, order.irrefl]
  · rcases order.total a b same with below | above
    · simp [same, below, order.asymm below]
    · simp [same, above, order.asymm above]

/-- The types `Mixed::compare` can compare (`DataType`). -/
inductive DataType
  | int
  | bool
  | string
  | binary
  | timestamp
  | float
  | double
  | link
  deriving DecidableEq, Repr

/-- A `Mixed`: null, or a value of one of the types `Mixed::compare` accepts. Integers and
link keys are `int64_t` values, floats and doubles their bit patterns. -/
inductive Mixed
  | null
  | int (value : Int)
  | bool (value : Bool)
  | float (bits : UInt32)
  | double (bits : UInt64)
  | string (value : String)
  | binary (value : List UInt8)
  | timestamp (value : Timestamp)
  | link (key : Int)
  deriving DecidableEq, Repr

namespace Mixed

/-- `get_type()`; null has none. -/
def getType : Mixed → Option DataType
  | null => none
  | int _ => some .int
  | bool _ => some .bool
  | float _ => some .float
  | double _ => some .double
  | string _ => some .string
  | binary _ => some .binary
  | timestamp _ => some .timestamp
  | link _ => some .link

/-- Null, or two values of one type: what `compare` accepts. -/
def Comparable (a b : Mixed) : Prop :=
  a = null ∨ b = null ∨ a.getType = b.getType

/-- `Mixed::compare(b)` for a given `utf8_compare`. `none` is the failed assertion of
`b.get<T>()` when `b` is not null and does not hold the type of `this`. -/
def compare (utf8Compare : String → String → Bool) : Mixed → Mixed → Option Int
  | null, null => some 0
  | null, _ => some (-1)
  | _, null => some 1
  | int a, int b => some (threeWay (fun x y => decide (x < y)) a b)
  | string a, string b => some (compareString utf8Compare a b)
  | binary a, binary b => some (compareBinary a b)
  | float a, float b => some (compareFloat .float a.toNat b.toNat)
  | double a, double b => some (compareFloat .double a.toNat b.toNat)
  | bool a, bool b => some (threeWay (fun x y => decide (x < y)) a.toNat b.toNat)
  | timestamp a, timestamp b => some (threeWay Timestamp.lt a b)
  | link a, link b => some (threeWay (fun x y => decide (x < y)) a b)
  | _, _ => none

/-! ## A total preorder on each type -/

section

variable {utf8Compare : String → String → Bool}

/-- Integers and link keys compare as a total preorder. -/
theorem int_isTotalPreorder : IsTotalPreorder (threeWay fun a b : Int => decide (a < b)) :=
  threeWay_lt_isTotalPreorder

/-- Booleans compare, `false` below `true`, as a total preorder. -/
theorem bool_isTotalPreorder :
    IsTotalPreorder fun a b : Bool => threeWay (fun x y : Nat => decide (x < y)) a.toNat b.toNat :=
  threeWay_lt_isTotalPreorder.comap Bool.toNat

/-- `compare_float` is a total preorder on the bit patterns of floats. -/
theorem float_isTotalPreorder :
    IsTotalPreorder fun a b : UInt32 => compareFloat .float a.toNat b.toNat :=
  (compareFloat_isTotalPreorder _).comap UInt32.toNat

/-- `compare_float` is a total preorder on the bit patterns of doubles. -/
theorem double_isTotalPreorder :
    IsTotalPreorder fun a b : UInt64 => compareFloat .double a.toNat b.toNat :=
  (compareFloat_isTotalPreorder _).comap UInt64.toNat

/-- For a strict total `utf8_compare`, strings compare as a total preorder. -/
theorem string_isTotalPreorder (order : StrictTotal utf8Compare) :
    IsTotalPreorder (compareString utf8Compare) := by
  have same : compareString utf8Compare = threeWay utf8Compare :=
    funext fun a => funext (compareString_eq_threeWay order a)
  rw [same]
  exact order.isTotalPreorder

/-- Binaries compare as a total preorder. -/
theorem binary_isTotalPreorder : IsTotalPreorder compareBinary := by
  have same : compareBinary = lexCompare := funext fun a => funext (compareBinary_eq_lexCompare a)
  rw [same]
  exact lexCompare_isTotalPreorder

/-- Timestamps compare as a total preorder. -/
theorem timestamp_isTotalPreorder : IsTotalPreorder (threeWay Timestamp.lt) :=
  Timestamp.strictTotal_lt.isTotalPreorder

/-- Every value compares equal to itself. -/
theorem compare_refl (a : Mixed) : a.compare utf8Compare a = some 0 := by
  cases a with
  | null => rfl
  | int x => exact congrArg some (threeWay_lt_isTotalPreorder.refl x)
  | bool x => exact congrArg some (threeWay_lt_isTotalPreorder.refl x.toNat)
  | float x => exact congrArg some ((compareFloat_isTotalPreorder _).refl x.toNat)
  | double x => exact congrArg some ((compareFloat_isTotalPreorder _).refl x.toNat)
  | string x => exact congrArg some (if_pos rfl)
  | binary x => exact congrArg some ((compareBinary_eq_lexCompare x x).trans
      (lexCompare_isTotalPreorder.refl x))
  | timestamp x => exact congrArg some (Timestamp.strictTotal_lt.isTotalPreorder.refl x)
  | link x => exact congrArg some (threeWay_lt_isTotalPreorder.refl x)

/-- Values of one type, or null, always compare. -/
theorem compare_isSome {a b : Mixed} (comparable : a.Comparable b) :
    ∃ r, a.compare utf8Compare b = some r := by
  rcases comparable with rfl | rfl | same
  · cases b <;> exact ⟨_, rfl⟩
  · cases a <;> exact ⟨_, rfl⟩
  · cases a <;> cases b <;> simp only [getType, Option.some.injEq, reduceCtorEq] at same <;>
      exact ⟨_, rfl⟩

/-- Comparing the other way round negates the answer. -/
theorem compare_swap (order : StrictTotal utf8Compare) {a b : Mixed} {r : Int}
    (compared : a.compare utf8Compare b = some r) : b.compare utf8Compare a = some (-r) := by
  cases a <;> cases b <;> simp only [compare, Option.some.injEq, reduceCtorEq] at compared <;>
    subst compared <;> simp only [compare, Option.some.injEq]
  all_goals first
    | with_reducible exact int_isTotalPreorder.antisymm _ _
    | with_reducible exact bool_isTotalPreorder.antisymm _ _
    | with_reducible exact float_isTotalPreorder.antisymm _ _
    | with_reducible exact double_isTotalPreorder.antisymm _ _
    | with_reducible exact (string_isTotalPreorder order).antisymm _ _
    | with_reducible exact binary_isTotalPreorder.antisymm _ _
    | with_reducible exact timestamp_isTotalPreorder.antisymm _ _
    | rfl

/-- Every value other than null compares above null. -/
theorem compare_null_right {a : Mixed} (notNull : a ≠ null) :
    a.compare utf8Compare null = some 1 := by
  cases a
  · exact absurd rfl notNull
  all_goals rfl

/-- Two answers of at most `0` in a row give an answer of at most `0` across. -/
theorem compare_trans (order : StrictTotal utf8Compare) {a b c : Mixed} {r s : Int}
    (ab : a.compare utf8Compare b = some r) (bc : b.compare utf8Compare c = some s)
    (abLe : r ≤ 0) (bcLe : s ≤ 0) : ∃ t, a.compare utf8Compare c = some t ∧ t ≤ 0 := by
  by_cases aNull : a = null
  · subst aNull
    cases c <;> exact ⟨_, rfl, by decide⟩
  by_cases bNull : b = null
  · subst bNull
    rw [compare_null_right aNull, Option.some.injEq] at ab
    omega
  by_cases cNull : c = null
  · subst cNull
    rw [compare_null_right bNull, Option.some.injEq] at bc
    omega
  -- Three values of one type.
  cases a <;> cases b <;>
    simp only [compare, Option.some.injEq, reduceCtorEq, not_true_eq_false] at ab aNull bNull <;>
    cases c <;>
    simp only [compare, Option.some.injEq, reduceCtorEq, not_true_eq_false] at bc cNull <;>
    subst ab bc <;> simp only [compare, Option.some.injEq, exists_eq_left']
  all_goals first
    | with_reducible exact int_isTotalPreorder.trans _ _ _ abLe bcLe
    | with_reducible exact bool_isTotalPreorder.trans _ _ _ abLe bcLe
    | with_reducible exact float_isTotalPreorder.trans _ _ _ abLe bcLe
    | with_reducible exact double_isTotalPreorder.trans _ _ _ abLe bcLe
    | with_reducible exact (string_isTotalPreorder order).trans _ _ _ abLe bcLe
    | with_reducible exact binary_isTotalPreorder.trans _ _ _ abLe bcLe
    | with_reducible exact timestamp_isTotalPreorder.trans _ _ _ abLe bcLe

/-- What `Mixed::compare` offers a sort, for a given `utf8_compare`: a total preorder on
null and the values of each type, null below every value, every NaN below every other
float or double, two NaNs by bit pattern, and binaries bytewise with a proper prefix
below. -/
structure CompareLaws (utf8Compare : String → String → Bool) : Prop where
  refl : ∀ a : Mixed, a.compare utf8Compare a = some 0
  antisymm : ∀ a b : Mixed, a.Comparable b →
    ∃ r, a.compare utf8Compare b = some r ∧ b.compare utf8Compare a = some (-r)
  trans : ∀ (a b c : Mixed) (r s : Int), a.compare utf8Compare b = some r →
    b.compare utf8Compare c = some s → r ≤ 0 → s ≤ 0 →
    ∃ t, a.compare utf8Compare c = some t ∧ t ≤ 0
  null_below : ∀ b : Mixed, b ≠ null →
    null.compare utf8Compare b = some (-1) ∧ b.compare utf8Compare null = some 1
  nan_below_float : ∀ x y : UInt32, FloatFormat.float.isNan x.toNat = true →
    FloatFormat.float.isNan y.toNat = false → (float x).compare utf8Compare (float y) = some (-1)
  nan_below_double : ∀ x y : UInt64, FloatFormat.double.isNan x.toNat = true →
    FloatFormat.double.isNan y.toNat = false →
    (double x).compare utf8Compare (double y) = some (-1)
  nan_bits_float : ∀ x y : UInt32, FloatFormat.float.isNan x.toNat = true →
    FloatFormat.float.isNan y.toNat = true →
    (float x).compare utf8Compare (float y) =
      some (threeWay (fun a b => decide (a < b)) x.toNat y.toNat)
  nan_bits_double : ∀ x y : UInt64, FloatFormat.double.isNan x.toNat = true →
    FloatFormat.double.isNan y.toNat = true →
    (double x).compare utf8Compare (double y) =
      some (threeWay (fun a b => decide (a < b)) x.toNat y.toNat)
  binary_lex : ∀ a b : List UInt8,
    (binary a).compare utf8Compare (binary b) = some (lexCompare a b)

/-- A NaN compares below every float or double that is no NaN. -/
theorem compareFloat_nan_below {f : FloatFormat} {a b : Nat} (aNan : f.isNan a = true)
    (bNum : f.isNan b = false) : compareFloat f a b = -1 := by
  simp [compareFloat, aNan, bNum]

/-- Two NaNs compare by their bit patterns. -/
theorem compareFloat_nan_nan {f : FloatFormat} {a b : Nat} (aNan : f.isNan a = true)
    (bNan : f.isNan b = true) :
    compareFloat f a b = threeWay (fun x y => decide (x < y)) a b := by
  simp only [compareFloat, aNan, bNan, Bool.not_true, Bool.and_self, Bool.false_and,
    Bool.false_eq_true, if_false, if_true]
  exact eq_lt_three_way a b

/-- For every `utf8_compare` that is a strict total order, `Mixed::compare` keeps all of
`CompareLaws`. -/
theorem compare_laws (order : StrictTotal utf8Compare) : CompareLaws utf8Compare where
  refl := compare_refl
  antisymm a b comparable := by
    obtain ⟨r, compared⟩ : ∃ r, a.compare utf8Compare b = some r := compare_isSome comparable
    exact ⟨r, compared, compare_swap order compared⟩
  trans a b c r s ab bc abLe bcLe := compare_trans order ab bc abLe bcLe
  null_below b notNull := by cases b <;> first | exact absurd rfl notNull | exact ⟨rfl, rfl⟩
  nan_below_float x y xNan yNum := congrArg some (compareFloat_nan_below xNan yNum)
  nan_below_double x y xNan yNum := congrArg some (compareFloat_nan_below xNan yNum)
  nan_bits_float x y xNan yNan := congrArg some (compareFloat_nan_nan xNan yNan)
  nan_bits_double x y xNan yNan := congrArg some (compareFloat_nan_nan xNan yNan)
  binary_lex a b := congrArg some (compareBinary_eq_lexCompare a b)

/-- `Mixed::compare` keeps its laws under the code-point order of strings. -/
theorem compare_laws_string_lt : CompareLaws fun a b : String => decide (a < b) :=
  compare_laws strictTotal_lt

end

end Mixed

end RealmCore
