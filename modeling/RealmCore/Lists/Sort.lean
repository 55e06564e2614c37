import RealmCore.Value.Mixed

/-!
# Sorting and deduplicating a list: `ConstLstIf<T>::sort` and `distinct`

`sort(indices, ascending)` first makes `indices` cover `[0, size())`: it starts over when the
list has shrunk below their number, and appends the missing indices. It then calls
`std::sort` on the indices with a comparator that compares the elements with `T`'s `<`
(or `>`). `std::sort` is not stable and its loop is not in the source, so a call is modelled
by its contract: any permutation in which no index is less than one before it
(`SortOutcome`). `distinct(indices, sort_order)` sorts from no indices, drops with
`std::unique` each index whose element is `==` to the last one kept, and, without a sort
order, sorts what is left by index.

`sortResult_inOrder` shows that when `T`'s `<` is the order `Mixed::compare` gives, every
result is a permutation of `[0, size())` whose elements are in order under
`Mixed::compare`. A `double`'s `<` is IEEE 754's, and `sort_number_before_nan` shows that a
NaN may then stay after a number. `distinct_keeps_equal` shows that `distinct` may keep two
equal elements when a NaN stands between them, and may keep the second of two equal
integers.
-/

namespace RealmCore
namespace Lists

variable {α : Type}

/-- The indices `sort` hands to `std::sort` for a list of `sz` elements: those given, or
none when the list has shrunk below their number, followed by the missing ones. -/
def prepareIndices (sz : Nat) (indices : List Nat) : List Nat :=
  let kept := if sz < indices.length then [] else indices
  kept ++ List.range' kept.length (sz - kept.length)

/-- What `std::sort(first, last, comp)` may leave: a permutation of the input sorted with
respect to `comp`, no element being less than one before it. -/
def SortOutcome (comp : Nat → Nat → Bool) (input output : List Nat) : Prop :=
  output.Perm input ∧ output.Pairwise fun i j => comp j i = false

instance (comp : Nat → Nat → Bool) (input output : List Nat) :
    Decidable (SortOutcome comp input output) :=
  inferInstanceAs (Decidable (_ ∧ _))

/-- The comparator `sort` hands to `std::sort`: `m_tree->get(i1) < m_tree->get(i2)`, or
`m_tree->get(i1) > m_tree->get(i2)` when descending, for the `<` of the elements. -/
def elementLess (less : α → α → Bool) (values : List α) (ascending : Bool) (i1 i2 : Nat) :
    Bool :=
  match values[i1]?, values[i2]? with
  | some a, some b => if ascending then less a b else less b a
  | _, _ => false

/-- `ConstLstIf<T>::sort(indices, ascending)` of the list `values`, whose elements `T`
orders by `less`: what it may leave in `indices`. -/
def SortResult (less : α → α → Bool) (values : List α) (indices : List Nat) (ascending : Bool)
    (result : List Nat) : Prop :=
  SortOutcome (elementLess less values ascending) (prepareIndices values.length indices) result

instance (less : α → α → Bool) (values : List α) (indices : List Nat) (ascending : Bool)
    (result : List Nat) : Decidable (SortResult less values indices ascending result) :=
  inferInstanceAs (Decidable (SortOutcome _ _ _))

/-- The rest of `std::unique(first, last, pred)` as libstdc++ runs it after the element
`kept`: an element is dropped when `pred` holds between the last element kept and it. -/
def uniqueFrom (pred : Nat → Nat → Bool) (kept : Nat) : List Nat → List Nat
  | [] => []
  | i :: rest => if pred kept i then uniqueFrom pred kept rest else i :: uniqueFrom pred i rest

/-- `std::unique(first, last, pred)` followed by `erase(duplicates, end)`: the elements kept. -/
def unique (pred : Nat → Nat → Bool) : List Nat → List Nat
  | [] => []
  | i :: rest => i :: uniqueFrom pred i rest

/-- The predicate `distinct` hands to `std::unique`: `m_tree->get(i1) == m_tree->get(i2)`. -/
def elementEq (eq : α → α → Bool) (values : List α) (i1 i2 : Nat) : Bool :=
  match values[i1]?, values[i2]? with
  | some a, some b => eq a b
  | _, _ => false

/-- `ConstLstIf<T>::distinct(indices, sort_order)` of the list `values`, whose elements `T`
orders by `less` and compares by `eq`: what it may leave in `indices`. -/
def DistinctResult (less eq : α → α → Bool) (values : List α) (sortOrder : Option Bool)
    (result : List Nat) : Prop :=
  ∃ sorted, SortResult less values [] (sortOrder.getD true) sorted ∧
    match sortOrder with
    | some _ => result = unique (elementEq eq values) sorted
    | none => SortOutcome (fun i1 i2 => decide (i1 < i2)) (unique (elementEq eq values) sorted)
        result

/-- `a` may stand before `b` in a list sorted under `Mixed::compare`, ascending or
descending. -/
def InOrder (utf8Compare : String → String → Bool) (ascending : Bool) (a b : Mixed) : Bool :=
  match a.compare utf8Compare b with
  | some r => if ascending then decide (r ≤ 0) else decide (0 ≤ r)
  | none => false

/-! ## What `sort` leaves -/

/-- From a permutation of `[0, k)`, `sort` hands `std::sort` a permutation of
`[0, size())`. -/
theorem prepareIndices_perm {sz k : Nat} {indices : List Nat} (perm : indices.Perm (List.range k)) :
    (prepareIndices sz indices).Perm (List.range sz) := by
  have len := perm.length_eq
  rw [List.length_range] at len
  unfold prepareIndices
  split_ifs with shrunk
  · simp [List.range_eq_range']
  · have whole := List.range'_append_1 0 k (sz - k)
    rw [Nat.zero_add, Nat.sub_add_cancel (by omega)] at whole
    dsimp only
    rw [List.range_eq_range', ← whole, ← List.range_eq_range', len]
    exact perm.append_right _

/-- No element is less than the one before it under `T`'s `<`: the two stand in order
under a `Mixed::compare` that is the three-way comparison of that `<`. -/
theorem inOrder_of_not_less {utf8Compare : String → String → Bool} {less : α → α → Bool}
    {toMixed : α → Mixed}
    (agrees : ∀ a b, (toMixed a).compare utf8Compare (toMixed b) = some (threeWay less a b))
    {ascending : Bool} {a b : α} (notLess : (if ascending then less b a else less a b) = false) :
    InOrder utf8Compare ascending (toMixed a) (toMixed b) = true := by
  unfold InOrder
  rw [agrees, threeWay]
  cases ascending
  · simp only [Bool.false_eq_true, if_false] at notLess ⊢
    split_ifs <;> simp_all
  · simp only [if_true] at notLess ⊢
    split_ifs <;> simp_all

/-- When `T`'s `<` is the order `Mixed::compare` gives its values, every result of `sort`
from a permutation of `[0, k)` is a permutation of `[0, size())` whose elements stand in
order under `Mixed::compare`. -/
theorem sortResult_inOrder (utf8Compare : String → String → Bool) {less : α → α → Bool}
    (toMixed : α → Mixed)
    (agrees : ∀ a b, (toMixed a).compare utf8Compare (toMixed b) = some (threeWay less a b))
    {values : List α} {indices : List Nat} {k : Nat} (perm : indices.Perm (List.range k))
    {ascending : Bool} {result : List Nat} (sorted : SortResult less values indices ascending result) :
    result.Perm (List.range values.length) ∧
      result.Chain' fun i j => InOrder utf8Compare ascending
        ((values.map toMixed).getD i .null) ((values.map toMixed).getD j .null) := by
  have covers := sorted.1.trans (prepareIndices_perm perm)
  refine ⟨covers, (sorted.2.imp_of_mem fun {i j} hi hj notLess => ?_).chain'⟩
  have hi' : i < values.length := List.mem_range.1 (covers.subset hi)
  have hj' : j < values.length := List.mem_range.1 (covers.subset hj)
  simp only [elementLess, List.getElem?_eq_getElem hi', List.getElem?_eq_getElem hj'] at notLess
  simp only [List.getD_eq_getElem?_getD, List.getElem?_map, List.getElem?_eq_getElem hi',
    List.getElem?_eq_getElem hj', Option.map_some', Option.getD_some]
  exact inOrder_of_not_less agrees notLess

/-- `[3, 1, 2]` of `Int`, sorted ascending from the indices `[1, 0]`, whose `std::sort` can
only leave `[1, 2, 0]`. -/
theorem sortResult_inOrder_ints :
    [1, 0].Perm (List.range 2) ∧
      SortResult (fun a b : Int => decide (a < b)) [3, 1, 2] [1, 0] true [1, 2, 0] ∧
      [1, 2, 0].Perm (List.range 3) ∧
      [1, 2, 0].Chain' fun i j => InOrder (fun a b => decide (a < b)) true
        (([3, 1, 2].map Mixed.int).getD i .null) (([3, 1, 2].map Mixed.int).getD j .null) :=
  ⟨by decide, by decide,
    sortResult_inOrder _ Mixed.int (fun _ _ => rfl) (show [1, 0].Perm (List.range 2) by decide)
      (show SortResult (fun a b : Int => decide (a < b)) [3, 1, 2] [1, 0] true [1, 2, 0] by
        decide)⟩

/-! ## `double` elements -/

/-- `double`'s `<`, IEEE 754's, on the bits a double is stored as. -/
def doubleLess (a b : UInt64) : Bool :=
  (FloatFormat.double.decode a.toNat).ieeeLt (FloatFormat.double.decode b.toNat)

/-- `double`'s `==`, IEEE 754's. -/
def doubleEq (a b : UInt64) : Bool :=
  (FloatFormat.double.decode a.toNat).ieeeEq (FloatFormat.double.decode b.toNat)

/-- The bits of the quiet NaN `std::numeric_limits<double>::quiet_NaN()`. -/
def quietNan : UInt64 := 0x7FF8000000000000

/-- Sorting `[d, NaN]` ascending from no indices, `d` the smallest positive double:
`std::sort` may leave `[0, 1]`, since neither element is less than the other, though
`Mixed::compare` puts NaN below `d`. -/
theorem sort_number_before_nan (utf8Compare : String → String → Bool) :
    SortResult doubleLess [1, quietNan] [] true [0, 1] ∧
      InOrder utf8Compare true (.double 1) (.double quietNan) = false :=
  ⟨by decide, rfl⟩

/-! ## What `distinct` leaves -/

/-- Without a sort order, `distinct` may keep both `d`s of `[d, NaN, d]`, which are `==`,
since no element is `==` to a NaN next to it; and it keeps index `1` of `[5, 5]`, not the
first occurrence `0`, when `std::sort` leaves the two equal elements swapped. -/
theorem distinct_keeps_equal :
    DistinctResult doubleLess doubleEq [1, quietNan, 1] none [0, 1, 2] ∧ doubleEq 1 1 = true ∧
      DistinctResult (fun a b : Int => decide (a < b)) (fun a b => decide (a = b)) [5, 5] none
        [1] ∧
      [(5 : Int), 5].indexOf 5 = 0 :=
  ⟨⟨[0, 1, 2], by decide, by decide⟩, by decide, ⟨[1, 0], by decide, by decide⟩, rfl⟩

end Lists
end RealmCore
