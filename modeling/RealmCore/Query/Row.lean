import Mathlib

/-!
# Rows and the `not_found` sentinel

Condition nodes answer a row index of the current cluster, or `not_found`, the
largest `size_t`. `firstMatch` is the row-by-row scan every `find_first` is measured
against: the least row of `[start, stop)` where a predicate holds, or `notFound`.
`IsFirstMatch` states the same property relationally; the two agree exactly.
-/

namespace RealmCore
namespace Query

/-- `not_found` (also `npos`): `size_t(-1)`. -/
def notFound : Nat := 2 ^ 64 - 1

/-- Scan `count` rows from `start` for the first row where `holds` is true. -/
def scanRows (holds : Nat → Bool) : (count start : Nat) → Nat
  | 0, _ => notFound
  | count + 1, start => if holds start then start else scanRows holds count (start + 1)

/-- The least row of `[start, stop)` where `holds` is true, or `notFound`. -/
def firstMatch (holds : Nat → Bool) (start stop : Nat) : Nat :=
  scanRows holds (stop - start) start

/-- `r` is the least row of `[start, stop)` where `holds` is true, or `notFound` when no
row of the range satisfies `holds`. -/
def IsFirstMatch (holds : Nat → Bool) (start stop r : Nat) : Prop :=
  (start ≤ r ∧ r < stop ∧ holds r = true ∧ ∀ i, start ≤ i → i < r → holds i = false) ∨
    (r = notFound ∧ ∀ i, start ≤ i → i < stop → holds i = false)

section

variable {holds : Nat → Bool} {start stop : Nat}

theorem firstMatch_of_le (stopLe : stop ≤ start) : firstMatch holds start stop = notFound := by
  simp [firstMatch, Nat.sub_eq_zero_of_le stopLe, scanRows]

/-- One row of the scan: the start row if it holds, else the scan from the next row. -/
theorem firstMatch_of_lt (inRange : start < stop) :
    firstMatch holds start stop =
      if holds start then start else firstMatch holds (start + 1) stop := by
  obtain ⟨count, hcount⟩ : ∃ count, stop - start = count + 1 :=
    ⟨stop - start - 1, by omega⟩
  have rest : stop - (start + 1) = count := by omega
  cases holdsStart : holds start <;> simp [firstMatch, hcount, rest, scanRows, holdsStart]

theorem firstMatch_of_holds (inRange : start < stop) (holdsStart : holds start = true) :
    firstMatch holds start stop = start := by
  rw [firstMatch_of_lt inRange, if_pos holdsStart]

theorem firstMatch_of_not_holds (inRange : start < stop) (failsStart : holds start = false) :
    firstMatch holds start stop = firstMatch holds (start + 1) stop := by
  rw [firstMatch_of_lt inRange, failsStart, if_neg Bool.false_ne_true]

/-- The scan answers the least matching row. -/
theorem isFirstMatch_firstMatch (holds : Nat → Bool) (start stop : Nat) :
    IsFirstMatch holds start stop (firstMatch holds start stop) := by
  obtain ⟨count, h⟩ : ∃ count, stop - start = count := ⟨_, rfl⟩
  induction count generalizing start with
  | zero =>
      rw [firstMatch_of_le (by omega)]
      exact .inr ⟨rfl, fun i _ _ => by omega⟩
  | succ count ih =>
      cases holdsStart : holds start
      · rw [firstMatch_of_not_holds (by omega) holdsStart]
        rcases ih (start + 1) (by omega) with ⟨lo, hi, found, before⟩ | ⟨none, missed⟩
        · refine .inl ⟨by omega, hi, found, fun i lo' hi' => ?_⟩
          rcases Nat.eq_or_lt_of_le lo' with rfl | lt
          · exact holdsStart
          · exact before i lt hi'
        · refine .inr ⟨none, fun i lo' hi' => ?_⟩
          rcases Nat.eq_or_lt_of_le lo' with rfl | lt
          · exact holdsStart
          · exact missed i lt hi'
      · rw [firstMatch_of_holds (by omega) holdsStart]
        exact .inl ⟨Nat.le_refl _, by omega, holdsStart, fun i lo hi => by omega⟩

/-- The least matching row is unique, so the scan is the only answer. -/
theorem IsFirstMatch.eq_firstMatch {r : Nat}
    (first : IsFirstMatch holds start stop r) : r = firstMatch holds start stop := by
  rcases first, isFirstMatch_firstMatch holds start stop with
    ⟨⟨lo, hi, found, before⟩ | ⟨rfl, missed⟩,
      ⟨lo', hi', found', before'⟩ | ⟨eq', missed'⟩⟩
  · rcases Nat.lt_trichotomy r (firstMatch holds start stop) with lt | eq | gt
    · exact absurd (before' r lo lt) (by simp [found])
    · exact eq
    · exact absurd (before _ lo' gt) (by simp [found'])
  · exact absurd (missed' r lo hi) (by simp [found])
  · exact absurd (missed _ lo' hi') (by simp [found'])
  · exact eq'.symm

theorem isFirstMatch_iff {r : Nat} :
    IsFirstMatch holds start stop r ↔ r = firstMatch holds start stop :=
  ⟨IsFirstMatch.eq_firstMatch, fun h => h ▸ isFirstMatch_firstMatch holds start stop⟩

/-- Every answer of the scan is `notFound` or a row of the range. -/
theorem firstMatch_mem (holds : Nat → Bool) (start stop : Nat) :
    firstMatch holds start stop = notFound ∨
      (start ≤ firstMatch holds start stop ∧ firstMatch holds start stop < stop) := by
  rcases isFirstMatch_firstMatch holds start stop with ⟨lo, hi, -⟩ | ⟨eq, -⟩
  · exact .inr ⟨lo, hi⟩
  · exact .inl eq

/-- The first match only depends on the predicate's values inside the range. -/
theorem firstMatch_congr {other : Nat → Bool}
    (same : ∀ r, start ≤ r → r < stop → holds r = other r) :
    firstMatch holds start stop = firstMatch other start stop := by
  symm
  apply IsFirstMatch.eq_firstMatch
  rcases isFirstMatch_firstMatch other start stop with
    ⟨lo, hi, found, before⟩ | ⟨eq, missed⟩
  · exact .inl ⟨lo, hi, (same _ lo hi).trans found,
      fun i l h => (same i l (by omega)).trans (before i l h)⟩
  · exact .inr ⟨eq, fun i l h => (same i l h).trans (missed i l h)⟩

/-- Cutting off a tail of the range where `holds` fails does not change the first match. -/
theorem firstMatch_truncate {cut : Nat} (cutLe : cut ≤ stop)
    (fails : ∀ r, cut ≤ r → r < stop → holds r = false) :
    firstMatch holds start stop = firstMatch holds start cut := by
  symm
  apply IsFirstMatch.eq_firstMatch
  rcases isFirstMatch_firstMatch holds start cut with ⟨lo, hi, found, before⟩ | ⟨eq, missed⟩
  · exact .inl ⟨lo, by omega, found, before⟩
  · refine .inr ⟨eq, fun i l h => ?_⟩
    by_cases below : i < cut
    · exact missed i l below
    · exact fails i (by omega) h

theorem firstMatch_lt_of_ne (found : firstMatch holds start stop ≠ notFound) :
    firstMatch holds start stop < stop := by
  rcases firstMatch_mem holds start stop with eq | ⟨-, hi⟩
  · exact absurd eq found
  · exact hi

theorem start_le_firstMatch (startLe : start ≤ notFound) :
    start ≤ firstMatch holds start stop := by
  rcases firstMatch_mem holds start stop with eq | ⟨lo, -⟩ <;> omega

/-- Skipping rows of the range where `holds` fails does not change the first match. -/
theorem firstMatch_skip {holds : Nat → Bool} {start mid stop : Nat} (startLe : start ≤ mid)
    (fails : ∀ i, start ≤ i → i < mid → i < stop → holds i = false) :
    firstMatch holds start stop = firstMatch holds mid stop := by
  obtain ⟨gap, rfl⟩ : ∃ gap, mid = start + gap := ⟨mid - start, by omega⟩
  induction gap generalizing start with
  | zero => rfl
  | succ gap ih =>
      by_cases inRange : start < stop
      · rw [firstMatch_of_not_holds inRange (fails start (Nat.le_refl _) (by omega) inRange),
          ih (by omega) (fun i lo hi => fails i (by omega) (by omega))]
        congr 1
        omega
      · rw [firstMatch_of_le (by omega), firstMatch_of_le (by omega)]

/-- A node answering `m ≠ start` holds at `m` (when `m` is a row of the range) and fails
on every row it skipped. -/
theorem firstMatch_advance {holds : Nat → Bool} {start stop : Nat} (inRange : start < stop)
    (stopLe : stop ≤ notFound) (moved : firstMatch holds start stop ≠ start) :
    start < firstMatch holds start stop ∧
      (firstMatch holds start stop < stop → holds (firstMatch holds start stop) = true) ∧
      ∀ i, start ≤ i → i < firstMatch holds start stop → i < stop → holds i = false := by
  rcases isFirstMatch_firstMatch holds start stop with ⟨lo, -, found, before⟩ | ⟨eq, missed⟩
  · exact ⟨by omega, fun _ => found, fun i lo hi _ => before i lo hi⟩
  · exact ⟨by omega, fun hi => by omega, fun i lo _ hi => missed i lo hi⟩

/-- A node answering `start` itself holds there. -/
theorem firstMatch_stay {holds : Nat → Bool} {start stop : Nat} (inRange : start < stop)
    (stopLe : stop ≤ notFound) (stayed : firstMatch holds start stop = start) :
    holds start = true := by
  rcases isFirstMatch_firstMatch holds start stop with ⟨-, -, found, -⟩ | ⟨eq, -⟩
  · rwa [stayed] at found
  · omega

/-- Splitting the range at `mid`: the first match of the lower part, if any, else the first
match of the upper part. -/
theorem firstMatch_split (holds : Nat → Bool) {start mid stop : Nat} (startLe : start ≤ mid)
    (midLe : mid ≤ stop) (midBound : mid ≤ notFound) :
    firstMatch holds start stop =
      if firstMatch holds start mid = notFound then firstMatch holds mid stop
      else firstMatch holds start mid := by
  split_ifs with lower
  · rcases isFirstMatch_firstMatch holds start mid with ⟨-, hi, -⟩ | ⟨-, missed⟩
    · omega
    · exact firstMatch_skip startLe fun i lo hi _ => missed i lo hi
  · rcases isFirstMatch_firstMatch holds start mid with ⟨lo, hi, found, before⟩ | ⟨eq, -⟩
    · exact (IsFirstMatch.eq_firstMatch (.inl ⟨lo, by omega, found, before⟩)).symm
    · exact absurd eq lower

/-- A subrange `[start, stop)` of `[lo, hi)` that begins at or before the first match of
`[lo, hi)` has that match as its own first match when it reaches it, else none. -/
theorem firstMatch_inner {lo hi : Nat} (loLe : lo ≤ start) (stopLe : stop ≤ hi)
    (startLe : start ≤ firstMatch holds lo hi) :
    firstMatch holds start stop =
      if firstMatch holds lo hi < stop then firstMatch holds lo hi else notFound := by
  symm
  apply IsFirstMatch.eq_firstMatch
  rcases isFirstMatch_firstMatch holds lo hi with ⟨-, -, found, before⟩ | ⟨eq, missed⟩
  · split_ifs with reached
    · exact .inl ⟨startLe, reached, found, fun i l h => before i (by omega) h⟩
    · exact .inr ⟨rfl, fun i l h => before i (by omega) (by omega)⟩
  · rw [eq, ite_self]
    exact .inr ⟨rfl, fun i l h => missed i (by omega) (by omega)⟩

end

end Query
end RealmCore
