import RealmCore.Query.ParentNode

/-!
# The known-range cache of `NotNode`

`NotNode` negates an inner query. It remembers one range `[m_known_range_start,
m_known_range_end)` together with the first row of that range where the negation holds
(`m_first_in_known_range`, or `not_found`), and `find_first_local(start, end)`
dispatches over the five ways `[start, end)` can sit against that range.

`evaluate_at(i)` asks the inner query about the single row `i`. Its effect is a monad
`M`: the identity when the inner query is a fixed predicate of the row, a state monad
when the inner query has a cache of its own (see `DoubleNot`).

For a fixed predicate, every call keeps the cache invariant `KnownRange.Valid`, and every
answer is the first match of `[start, end)` except in one case: inside the known range,
a cached first match equal to `end` is answered as a row (`find_first_covered_by_known`
tests `> end` where the range is open at `end`).
-/

namespace RealmCore
namespace Query

/-- The cache fields of a `NotNode`. -/
structure KnownRange where
  knownRangeStart : Nat
  knownRangeEnd : Nat
  firstInKnownRange : Nat
  deriving DecidableEq, Repr

/-- The cache invariant for a fixed `evaluate_at`: the known range fits in a `size_t`
and `m_first_in_known_range` is its first row where `evaluate_at` holds, or `not_found`. -/
structure KnownRange.Valid (holds : Nat → Bool) (k : KnownRange) : Prop where
  ordered : k.knownRangeStart ≤ k.knownRangeEnd
  bounded : k.knownRangeEnd ≤ notFound
  first : k.firstInKnownRange = firstMatch holds k.knownRangeStart k.knownRangeEnd

namespace NotNode

/-- The cache `cluster_changed` leaves: the empty range `[0, 0)`, no known match. -/
def clusterChanged : KnownRange := ⟨0, 0, notFound⟩

section

variable {M : Type → Type} [Monad M] (evaluateAt : Nat → M Bool)

/-- `NotNode::find_first_loop`: the rows of `[start, end)` in order. -/
def findFirstLoop (start stop : Nat) : M Nat :=
  scan (stop - start) start
where
  /-- The loop from row `i` with `count` rows left. -/
  scan : Nat → Nat → M Nat
    | 0, _ => pure notFound
    | count + 1, i => do
        if ← evaluateAt i then pure i else scan count (i + 1)

/-- `NotNode::find_first_covers_known`: `[start, end)` contains the known range. -/
def findFirstCoversKnown (k : KnownRange) (start stop : Nat) : M (Nat × KnownRange) := do
  let result ← findFirstLoop evaluateAt start k.knownRangeStart
  if result ≠ notFound then
    pure (result, ⟨start, k.knownRangeEnd, result⟩)
  else if k.firstInKnownRange ≠ notFound then
    pure (k.firstInKnownRange, ⟨start, k.knownRangeEnd, k.firstInKnownRange⟩)
  else
    let result ← findFirstLoop evaluateAt k.knownRangeEnd stop
    pure (result, ⟨start, stop, result⟩)

/-- `NotNode::find_first_covered_by_known`: the known range contains `[start, end)`. -/
def findFirstCoveredByKnown (k : KnownRange) (start stop : Nat) : M (Nat × KnownRange) :=
  if k.firstInKnownRange ≠ notFound ∧ k.firstInKnownRange > stop then
    pure (notFound, k)
  else if k.firstInKnownRange ≠ notFound ∧ k.firstInKnownRange ≥ start then
    pure (k.firstInKnownRange, k)
  else do
    -- The first known match is before `start`: the cache does not help.
    let result ← findFirstLoop evaluateAt start stop
    pure (result, k)

/-- `NotNode::find_first_overlap_lower`: `[start, end)` overlaps the known range from below. -/
def findFirstOverlapLower (k : KnownRange) (start stop : Nat) : M (Nat × KnownRange) := do
  let result ← findFirstLoop evaluateAt start k.knownRangeStart
  let result := if result = notFound then k.firstInKnownRange else result
  pure (if result < stop then result else notFound, ⟨start, k.knownRangeEnd, result⟩)

/-- `NotNode::find_first_overlap_upper`: `[start, end)` overlaps the known range from above. -/
def findFirstOverlapUpper (k : KnownRange) (start stop : Nat) : M (Nat × KnownRange) :=
  if k.firstInKnownRange ≠ notFound then
    if k.firstInKnownRange ≥ start then
      pure (k.firstInKnownRange, ⟨k.knownRangeStart, stop, k.firstInKnownRange⟩)
    else do
      let result ← findFirstLoop evaluateAt start stop
      pure (result, ⟨k.knownRangeStart, stop, k.firstInKnownRange⟩)
  else do
    let result ← findFirstLoop evaluateAt k.knownRangeEnd stop
    pure (result, ⟨k.knownRangeStart, stop, result⟩)

/-- `NotNode::find_first_no_overlap`: the cache is replaced only by a wider range. -/
def findFirstNoOverlap (k : KnownRange) (start stop : Nat) : M (Nat × KnownRange) := do
  let result ← findFirstLoop evaluateAt start stop
  pure (result,
    if stop - start > k.knownRangeEnd - k.knownRangeStart then ⟨start, stop, result⟩ else k)

/-- `NotNode::find_first_local`: the five-way dispatch on `[start, end)` against the cache. -/
def findFirstLocal (k : KnownRange) (start stop : Nat) : M (Nat × KnownRange) :=
  if start ≤ k.knownRangeStart ∧ stop ≥ k.knownRangeEnd then
    findFirstCoversKnown evaluateAt k start stop
  else if start ≥ k.knownRangeStart ∧ stop ≤ k.knownRangeEnd then
    findFirstCoveredByKnown evaluateAt k start stop
  else if start < k.knownRangeStart ∧ stop ≥ k.knownRangeStart then
    findFirstOverlapLower evaluateAt k start stop
  else if start ≤ k.knownRangeEnd ∧ stop > k.knownRangeEnd then
    findFirstOverlapUpper evaluateAt k start stop
  else
    findFirstNoOverlap evaluateAt k start stop

/-- The node as a child of a `ParentNode` chain: `find_first_local` with the cache as
state. -/
def node : Nat → Nat → Nat → StateT KnownRange M Nat :=
  fun _ start stop k => findFirstLocal evaluateAt k start stop

/-- A sequence of `find_first_local` calls on one cluster, from the cache `k`: the
answers, and the cache after the last call. -/
def runHistory (k : KnownRange) : List (Nat × Nat) → M (List Nat × KnownRange)
  | [] => pure ([], k)
  | (start, stop) :: calls => do
      let (result, k) ← findFirstLocal evaluateAt k start stop
      let (results, k) ← runHistory k calls
      pure (result :: results, k)

end

/-! ## A fixed negated predicate -/

theorem clusterChanged_valid (holds : Nat → Bool) : clusterChanged.Valid holds :=
  ⟨Nat.le_refl _, by decide, (firstMatch_of_le (Nat.le_refl _)).symm⟩

section Fixed

variable {holds : Nat → Bool} {k : KnownRange} {start stop : Nat}

theorem findFirstLoop_scan_pure (holds : Nat → Bool) :
    ∀ count i, findFirstLoop.scan (M := Id) holds count i =
      scanRows holds count i
  | 0, _ => rfl
  | count + 1, i => by
      rw [findFirstLoop.scan, scanRows, ← findFirstLoop_scan_pure holds count]
      rfl

/-- With a fixed predicate, `find_first_loop` is the first-match scan. -/
@[simp] theorem findFirstLoop_pure (holds : Nat → Bool) (start stop : Nat) :
    findFirstLoop (M := Id) holds start stop = firstMatch holds start stop :=
  findFirstLoop_scan_pure holds _ _


theorem findFirstCoversKnown_spec (valid : k.Valid holds) (startLe : start ≤ k.knownRangeStart)
    (endLe : k.knownRangeEnd ≤ stop) (stopLe : stop ≤ notFound) :
    let out := findFirstCoversKnown (M := Id) holds k start stop
    out.1 = firstMatch holds start stop ∧ out.2.Valid holds := by
  obtain ⟨ordered, bounded, first⟩ := valid
  have atStart := firstMatch_split holds startLe ordered (by omega)
  have atEnd := firstMatch_split holds ordered endLe bounded
  have whole := firstMatch_split holds startLe (Nat.le_trans ordered endLe) (by omega)
  rw [← first] at atStart atEnd
  simp only [findFirstCoversKnown, findFirstLoop_pure, Id.bind_eq, Id.pure_eq, ne_eq]
  by_cases below : firstMatch holds start k.knownRangeStart = notFound
  · rw [if_pos below] at atStart whole
    by_cases known : k.firstInKnownRange = notFound
    · rw [if_pos known] at atEnd
      simp only [below, known, not_true_eq_false, if_false]
      exact ⟨by rw [whole, atEnd], ⟨by dsimp only; omega, stopLe, by rw [whole, atEnd]⟩⟩
    · rw [if_neg known] at atEnd
      simp only [below, known, not_true_eq_false, not_false_eq_true, if_false, if_true]
      exact ⟨by rw [whole, atEnd], ⟨by dsimp only; omega, bounded, atStart.symm⟩⟩
  · rw [if_neg below] at atStart whole
    simp only [below, not_false_eq_true, if_true]
    exact ⟨whole.symm, ⟨by dsimp only; omega, bounded, atStart.symm⟩⟩

/-- Inside the known range the cache is kept, and the answer is the first match, except
that a cached match at row `end` itself is answered although `[start, end)` has none. -/
theorem findFirstCoveredByKnown_spec (valid : k.Valid holds) (rangeOrdered : start ≤ stop)
    (startGe : k.knownRangeStart ≤ start) (stopLe : stop ≤ k.knownRangeEnd) :
    let out := findFirstCoveredByKnown (M := Id) holds k start stop
    (out.1 = firstMatch holds start stop ∨
      (out.1 = stop ∧ firstMatch holds start stop = notFound)) ∧ out.2 = k := by
  obtain ⟨ordered, bounded, first⟩ := valid
  simp only [findFirstCoveredByKnown, findFirstLoop_pure, Id.bind_eq, Id.pure_eq, ne_eq, gt_iff_lt,
    ge_iff_le]
  split_ifs with beyond within
  · obtain ⟨-, beyondStop⟩ := beyond
    refine ⟨.inl ?_, rfl⟩
    rw [firstMatch_inner startGe stopLe (by rw [← first]; omega), ← first, if_neg (by omega)]
  · refine ⟨?_, rfl⟩
    rw [firstMatch_inner startGe stopLe (by omega), ← first]
    by_cases reached : k.firstInKnownRange < stop
    · exact .inl (if_pos reached).symm
    · exact .inr ⟨by omega, if_neg reached⟩
  · exact ⟨.inl rfl, rfl⟩

theorem findFirstOverlapLower_spec (valid : k.Valid holds) (startLt : start < k.knownRangeStart)
    (stopLt : stop < k.knownRangeEnd) :
    let out := findFirstOverlapLower (M := Id) holds k start stop
    out.1 = firstMatch holds start stop ∧ out.2.Valid holds := by
  obtain ⟨ordered, bounded, first⟩ := valid
  have atStart := firstMatch_split holds (Nat.le_of_lt startLt) ordered (by omega)
  rw [← first] at atStart
  simp only [findFirstOverlapLower, findFirstLoop_pure, Id.bind_eq, Id.pure_eq]
  rw [← atStart]
  refine ⟨?_, ⟨by dsimp only; omega, bounded, rfl⟩⟩
  rw [firstMatch_inner (Nat.le_refl _) (Nat.le_of_lt stopLt) (start_le_firstMatch (by omega))]


theorem findFirstOverlapUpper_spec (valid : k.Valid holds) (startGe : k.knownRangeStart ≤ start)
    (startLe : start ≤ k.knownRangeEnd) (endLt : k.knownRangeEnd < stop)
    (stopLe : stop ≤ notFound) :
    let out := findFirstOverlapUpper (M := Id) holds k start stop
    out.1 = firstMatch holds start stop ∧ out.2.Valid holds := by
  obtain ⟨ordered, bounded, first⟩ := valid
  have atEnd := firstMatch_split holds ordered (Nat.le_of_lt endLt) bounded
  rw [← first] at atEnd
  simp only [findFirstOverlapUpper, findFirstLoop_pure, Id.bind_eq, Id.pure_eq, ne_eq, ge_iff_le]
  by_cases known : k.firstInKnownRange = notFound
  · rw [if_pos known] at atEnd
    simp only [known, not_true_eq_false, if_false]
    have skipped : firstMatch holds start k.knownRangeEnd = notFound := by
      rw [firstMatch_inner startGe (Nat.le_refl _) (by omega), ← first, known, ite_self]
    refine ⟨?_, ⟨by dsimp only; omega, stopLe, atEnd.symm⟩⟩
    rw [firstMatch_split holds startLe (Nat.le_of_lt endLt) bounded, if_pos skipped]
  · rw [if_neg known] at atEnd
    simp only [known, not_false_eq_true, if_true]
    have below := firstMatch_lt_of_ne (first ▸ known)
    split_ifs with reached
    · refine ⟨?_, ⟨by dsimp only; omega, stopLe, atEnd.symm⟩⟩
      rw [firstMatch_inner startGe (Nat.le_refl _) (by omega), atEnd, if_pos (by omega)]
    · exact ⟨rfl, ⟨by dsimp only; omega, stopLe, atEnd.symm⟩⟩

theorem findFirstNoOverlap_spec (valid : k.Valid holds) (rangeOrdered : start ≤ stop)
    (stopLe : stop ≤ notFound) :
    let out := findFirstNoOverlap (M := Id) holds k start stop
    out.1 = firstMatch holds start stop ∧ out.2.Valid holds := by
  refine ⟨by simp [findFirstNoOverlap], ?_⟩
  simp only [findFirstNoOverlap, findFirstLoop_pure, Id.bind_eq, Id.pure_eq]
  split_ifs
  · exact ⟨rangeOrdered, stopLe, rfl⟩
  · exact valid


/-- One `find_first_local` call keeps the cache valid, and answers the first match of
`[start, end)`, or `end` where `[start, end)` has no match. -/
theorem findFirstLocal_spec (valid : k.Valid holds) (rangeOrdered : start ≤ stop)
    (stopLe : stop ≤ notFound) :
    let out := findFirstLocal (M := Id) holds k start stop
    (out.1 = firstMatch holds start stop ∨
      (out.1 = stop ∧ firstMatch holds start stop = notFound)) ∧ out.2.Valid holds := by
  have ordered := valid.ordered
  unfold findFirstLocal
  split_ifs with covers covered lower upper
  · obtain ⟨answer, kept⟩ := findFirstCoversKnown_spec valid covers.1 covers.2 stopLe
    exact ⟨.inl answer, kept⟩
  · obtain ⟨answer, same⟩ :=
      findFirstCoveredByKnown_spec valid rangeOrdered covered.1 covered.2
    exact ⟨answer, by rw [same]; exact valid⟩
  · have stopLt : stop < k.knownRangeEnd := by omega
    obtain ⟨answer, kept⟩ := findFirstOverlapLower_spec valid lower.1 stopLt
    exact ⟨.inl answer, kept⟩
  · obtain ⟨answer, kept⟩ := findFirstOverlapUpper_spec valid (by omega) upper.1 upper.2 stopLe
    exact ⟨.inl answer, kept⟩
  · obtain ⟨answer, kept⟩ := findFirstNoOverlap_spec valid rangeOrdered stopLe
    exact ⟨.inl answer, kept⟩

/-- Over any history of calls with `start ≤ end` on one cluster, from a valid cache, the
cache stays valid and every answer is the first match of its range, or the range's end
when the range has no match. -/
theorem runHistory_spec (holds : Nat → Bool) :
    ∀ (calls : List (Nat × Nat)) (k : KnownRange), k.Valid holds →
      (∀ call ∈ calls, call.1 ≤ call.2 ∧ call.2 ≤ notFound) →
      let out := runHistory (M := Id) holds k calls
      out.2.Valid holds ∧
        List.Forall₂ (fun call result => result = firstMatch holds call.1 call.2 ∨
          (result = call.2 ∧ firstMatch holds call.1 call.2 = notFound)) calls out.1
  | [], k, valid, _ => ⟨valid, .nil⟩
  | (start, stop) :: calls, k, valid, ranges => by
      obtain ⟨rangeOrdered, stopLe⟩ := ranges (start, stop) (List.mem_cons_self _ _)
      obtain ⟨answer, kept⟩ := findFirstLocal_spec valid rangeOrdered stopLe
      obtain ⟨final, answers⟩ := runHistory_spec holds calls _ kept
        fun call mem => ranges call (List.mem_cons_of_mem _ mem)
      exact ⟨final, .cons answer answers⟩


/-- A scan of `[0, 10)` caches the match at row 5. The next call, on `[2, 5)`, falls inside
the known range and answers row 5, which is not a row of `[2, 5)`; `find_first_loop(2, 5)`
answers `not_found`. -/
theorem runHistory_answers_end_of_range :
    (runHistory (M := Id) (fun i => i == 5) clusterChanged [(0, 10), (2, 5)]).1 = [5, 5] ∧
      Id.run (findFirstLoop (fun i => i == 5) 2 5) = notFound := by
  decide

theorem runHistory_spec_sample :
    let out := runHistory (M := Id) (fun i => i == 5) clusterChanged [(0, 10), (2, 5)]
    out.2.Valid (fun i => i == 5) ∧
      List.Forall₂ (fun call result => result = firstMatch (fun i => i == 5) call.1 call.2 ∨
        (result = call.2 ∧ firstMatch (fun i => i == 5) call.1 call.2 = notFound))
        [(0, 10), (2, 5)] out.1 :=
  runHistory_spec _ _ _ (clusterChanged_valid _) (by decide)

end Fixed

end NotNode

end Query
end RealmCore
