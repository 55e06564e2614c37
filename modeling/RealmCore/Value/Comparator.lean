import Mathlib

/-!
# Three-way comparators

`Mixed::compare` and the comparisons it calls answer `-1`, `0` or `1`. A comparator that
can serve sorting is the three-way comparator of a total preorder: every value is
equivalent to itself, swapping the arguments negates the answer, and "not above" is
transitive.

Most of the comparisons of `Mixed::compare` are `a > b ? 1 : a < b ? -1 : 0` for a strict
total order (`threeWay`), possibly read through a map into an ordered type (`comap`).
-/

namespace RealmCore

/-- `cmp` is the three-way comparator of a total preorder. -/
structure IsTotalPreorder {α : Type} (cmp : α → α → Int) : Prop where
  refl : ∀ a, cmp a a = 0
  antisymm : ∀ a b, cmp b a = -cmp a b
  trans : ∀ a b c, cmp a b ≤ 0 → cmp b c ≤ 0 → cmp a c ≤ 0

/-- `lt` is a strict total order. -/
structure StrictTotal {α : Type} (lt : α → α → Bool) : Prop where
  irrefl : ∀ a, lt a a = false
  trans : ∀ a b c, lt a b = true → lt b c = true → lt a c = true
  total : ∀ a b, a ≠ b → lt a b = true ∨ lt b a = true

/-- `a > b ? 1 : a < b ? -1 : 0` for the order `lt`. -/
def threeWay {α : Type} (lt : α → α → Bool) (a b : α) : Int :=
  if lt b a then 1 else if lt a b then -1 else 0

section

variable {α β : Type} {lt : α → α → Bool}

theorem StrictTotal.asymm (order : StrictTotal lt) {a b : α} (below : lt a b = true) :
    lt b a = false := by
  cases above : lt b a
  · rfl
  · simpa [order.irrefl] using order.trans a b a below above

/-- Below or equal in a three-way comparison is "not above". -/
theorem threeWay_nonpos_iff (a b : α) :
    threeWay lt a b ≤ 0 ↔ lt b a = false := by
  unfold threeWay
  cases lt b a <;> cases lt a b <;> simp

theorem StrictTotal.isTotalPreorder (order : StrictTotal lt) : IsTotalPreorder (threeWay lt) where
  refl a := by simp [threeWay, order.irrefl]
  antisymm a b := by
    unfold threeWay
    cases below : lt a b <;> cases above : lt b a <;> simp
    exact absurd (order.asymm below) (by simp [above])
  trans a b c ab bc := by
    rw [threeWay_nonpos_iff] at ab bc ⊢
    cases ca : lt c a
    · rfl
    · by_cases aEq : a = b
      · exact absurd (aEq ▸ ca) (by simp [bc])
      rcases order.total a b aEq with below | above
      · by_cases bEq : b = c
        · exact absurd (order.asymm below) (by simp [bEq ▸ ca])
        rcases order.total b c bEq with below' | above'
        · exact absurd (order.trans a b c below below') (by simp [order.asymm ca])
        · simp [bc] at above'
      · simp [ab] at above

theorem strictTotal_lt [LinearOrder α] [DecidableRel fun a b : α => a < b] :
    StrictTotal fun a b : α => decide (a < b) where
  irrefl a := by simp
  trans a b c ab bc := by simp only [decide_eq_true_eq] at *; exact lt_trans ab bc
  total a b ne := by simpa using lt_or_gt_of_ne ne

theorem threeWay_lt_isTotalPreorder [LinearOrder α] [DecidableRel fun a b : α => a < b] :
    IsTotalPreorder (threeWay fun a b : α => decide (a < b)) :=
  strictTotal_lt.isTotalPreorder

/-- A comparator read through a map is still one of a total preorder. -/
theorem IsTotalPreorder.comap {cmp : α → α → Int} (total : IsTotalPreorder cmp)
    (f : β → α) : IsTotalPreorder fun a b => cmp (f a) (f b) where
  refl a := total.refl (f a)
  antisymm a b := total.antisymm (f a) (f b)
  trans a b c := total.trans (f a) (f b) (f c)

end

end RealmCore
