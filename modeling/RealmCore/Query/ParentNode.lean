import RealmCore.Query.Row

/-!
# The conjunction loop of `ParentNode::find_first`

A query is a chain of condition nodes `m_children[0..sz)`; a row matches when every
node holds there. `ParentNode::find_first` asks the nodes round robin for their first
match from `start`, restarts the count of nodes still to verify whenever one of them
moves `start`, and answers once `sz` nodes in a row have agreed on the same row.

Children are `find_first_local` calls in an arbitrary monad `M`, so that the same loop
serves stateless leaves (`M = Id`) and nodes with caches of their own. The C++ `while`
loop has no bound; the model runs at most `fuel` passes and answers `none` if it has
not returned by then. With nodes that keep their contract, `findFirst_conjunction`
shows a linear number of passes always suffices.
-/

namespace RealmCore
namespace Query
namespace ParentNode

section

variable {M : Type → Type} [Monad M]

/-- The `while (start < end)` loop of `ParentNode::find_first` from a given
`current_cond`, `nb_cond_to_test` and `start`, for at most `fuel` passes. -/
def findFirstFrom (findFirstLocal : Nat → Nat → Nat → M Nat) (sz stop : Nat) :
    (fuel currentCond nbCondToTest start : Nat) → M (Option Nat)
  | 0, _, _, _ => pure none
  | fuel + 1, currentCond, nbCondToTest, start =>
      if start < stop then do
        let m ← findFirstLocal currentCond start stop
        -- Pointer advanced: every other condition has to be checked again.
        let nbCondToTest := (if m ≠ start then sz else nbCondToTest) - 1
        if nbCondToTest = 0 then
          pure (some m)
        else
          let currentCond := currentCond + 1
          findFirstFrom findFirstLocal sz stop fuel
            (if currentCond = sz then 0 else currentCond) nbCondToTest m
      else
        pure (some notFound)

/-- `ParentNode::find_first(start, end)` over the `sz` nodes of the chain, where
`findFirstLocal i` is `m_children[i]->find_first_local`. -/
def findFirst (findFirstLocal : Nat → Nat → Nat → M Nat) (sz fuel start stop : Nat) :
    M (Option Nat) :=
  findFirstFrom findFirstLocal sz stop fuel 0 sz start

/-- A chain of one node answers, in one pass, exactly what its node answers: the loop
never checks that answer against `[start, end)`. -/
theorem findFirst_single [LawfulMonad M] (findFirstLocal : Nat → Nat → Nat → M Nat)
    (fuel start stop : Nat) :
    findFirst findFirstLocal 1 (fuel + 1) start stop =
      if start < stop then some <$> findFirstLocal 0 start stop else pure (some notFound) := by
  simp only [findFirst, findFirstFrom]
  split_ifs
  · rw [map_eq_pure_bind]
    congr 1
    funext m
    simp only [ite_self, Nat.sub_self, if_true]
  · rfl

end

/-- Every one of the `sz` conditions holds at row `r`. -/
def allHold (conds : Nat → Nat → Bool) (sz r : Nat) : Bool :=
  decide (∀ i < sz, conds i r = true)

/-- How many steps back, round robin over `sz` nodes, node `c` was asked before the
node `currentCond` about to be asked (`sz` for `currentCond` itself). -/
def cyclicGap (sz currentCond c : Nat) : Nat :=
  if c < currentCond then currentCond - c else currentCond + sz - c

theorem cyclicGap_pos (currentCond : Nat) {sz c : Nat} (cLt : c < sz) :
    0 < cyclicGap sz currentCond c := by
  unfold cyclicGap
  split_ifs <;> omega

theorem cyclicGap_next {sz currentCond c : Nat} (cLt : c < sz) :
    cyclicGap sz (if currentCond + 1 = sz then 0 else currentCond + 1) c =
      if c = currentCond then 1 else cyclicGap sz currentCond c + 1 := by
  unfold cyclicGap
  split_ifs <;> omega

theorem allHold_of_gap {conds : Nat → Nat → Bool} {sz currentCond r : Nat}
    (condLt : currentCond < sz) (current : conds currentCond r = true)
    (verified : ∀ c < sz, cyclicGap sz currentCond c ≤ sz - 1 → conds c r = true) :
    allHold conds sz r = true := by
  simp only [allHold, decide_eq_true_eq]
  intro c cLt
  by_cases same : c = currentCond
  · exact same ▸ current
  · exact verified c cLt (by unfold cyclicGap; split_ifs <;> omega)

/-- A node that holds at `start` joins the nodes verified there, and the count of nodes
still to test drops by one. -/
theorem verified_next_of_holds {conds : Nat → Nat → Bool}
    {sz currentCond nbCondToTest start : Nat} (current : conds currentCond start = true)
    (verified : ∀ c < sz, cyclicGap sz currentCond c ≤ sz - nbCondToTest →
      conds c start = true) :
    ∀ c < sz, cyclicGap sz (if currentCond + 1 = sz then 0 else currentCond + 1) c ≤
      sz - (nbCondToTest - 1) → conds c start = true := by
  intro c cLt gap
  rw [cyclicGap_next cLt] at gap
  split_ifs at gap with same
  · exact same ▸ current
  · exact verified c cLt (by omega)

/-- A node that moved `start` to `m` is the only node verified at `m`. -/
theorem verified_next_of_moved {conds : Nat → Nat → Bool} {sz currentCond m : Nat}
    (current : conds currentCond m = true) :
    ∀ c < sz, cyclicGap sz (if currentCond + 1 = sz then 0 else currentCond + 1) c ≤
      sz - (sz - 1) → conds c m = true := by
  intro c cLt gap
  rw [cyclicGap_next cLt] at gap
  split_ifs at gap with same
  · exact same ▸ current
  · exact absurd (cyclicGap_pos currentCond cLt) (by omega)

section Conjunction

variable {conds : Nat → Nat → Bool} {children : Nat → Nat → Nat → Id Nat} {sz stop : Nat}

/-- The loop, for stateless nodes that keep the `find_first_local` contract, from any
pass where every node within `sz - nbCondToTest` steps back holds at `start` and the
fuel covers `(end - start) * sz + nbCondToTest` more passes. -/
theorem findFirstFrom_conjunction
    (localContract : ∀ i < sz, ∀ s e, s < e → children i s e = firstMatch (conds i) s e)
    (stopLe : stop ≤ notFound) :
    ∀ fuel currentCond nbCondToTest start,
      currentCond < sz → 0 < nbCondToTest → nbCondToTest ≤ sz →
      (start < stop → ∀ c < sz,
        cyclicGap sz currentCond c ≤ sz - nbCondToTest → conds c start = true) →
      (stop - start) * sz + nbCondToTest ≤ fuel →
      findFirstFrom children sz stop fuel currentCond nbCondToTest start =
        some (firstMatch (allHold conds sz) start stop)
  | 0, _, _, _, _, nbPos, _, _, enough => by omega
  | fuel + 1, currentCond, nbCondToTest, start, condLt, nbPos, nbLe, verified, enough => by
      by_cases inRange : start < stop
      · have nextLt : (if currentCond + 1 = sz then 0 else currentCond + 1) < sz := by
          split_ifs <;> omega
        simp only [findFirstFrom, inRange, if_true, localContract currentCond condLt start stop
          inRange, Id.bind_eq]
        by_cases moved : firstMatch (conds currentCond) start stop = start
        · -- The node holds at `start`: one more node is verified there.
          have holdsNow := firstMatch_stay inRange stopLe moved
          simp only [moved, ne_eq, not_true_eq_false, if_false]
          by_cases last : nbCondToTest - 1 = 0
          · rw [if_pos last, firstMatch_of_holds inRange (allHold_of_gap condLt holdsNow
              fun c cLt gap => verified inRange c cLt (by omega))]
            rfl
          · rw [if_neg last]
            exact findFirstFrom_conjunction localContract stopLe fuel _ _ _ nextLt (by omega)
              (by omega) (fun _ => verified_next_of_holds holdsNow (verified inRange)) (by omega)
        · -- The node moved `start` to `m`: only it is verified at `m`.
          obtain ⟨advanced, holdsThere, skippedFail⟩ := firstMatch_advance inRange stopLe moved
          set m := firstMatch (conds currentCond) start stop
          have skipped : firstMatch (allHold conds sz) start stop =
              firstMatch (allHold conds sz) m stop := by
            refine firstMatch_skip (Nat.le_of_lt advanced) fun i lo hi iLt => ?_
            simp only [allHold, decide_eq_false_iff_not, not_forall]
            exact ⟨currentCond, condLt, by simp [skippedFail i lo hi iLt]⟩
          simp only [moved, ne_eq, not_false_eq_true, if_true, skipped]
          by_cases last : sz - 1 = 0
          · rw [if_pos last]
            by_cases below : m < stop
            · rw [firstMatch_of_holds below (allHold_of_gap condLt (holdsThere below)
                fun c cLt gap => absurd (cyclicGap_pos currentCond cLt) (by omega))]
              rfl
            · rw [firstMatch_of_le (by omega)]
              show some m = some notFound
              rcases firstMatch_mem (conds currentCond) start stop with eq | ⟨-, hi⟩
              · exact congrArg some eq
              · omega
          · rw [if_neg last]
            have fewer : (stop - m) * sz + sz ≤ (stop - start) * sz := by
              rw [← Nat.succ_mul]
              exact Nat.mul_le_mul_right sz (by omega)
            exact findFirstFrom_conjunction localContract stopLe fuel _ _ _ nextLt (by omega)
              (by omega) (fun below => verified_next_of_moved (holdsThere below)) (by omega)
      · simp only [findFirstFrom, inRange, if_false, firstMatch_of_le (Nat.le_of_not_lt inRange)]
        rfl

/-- `ParentNode::find_first` over a non-empty chain of nodes that each answer the least
row of the range where their own condition holds (or `not_found`), from `(start, end)`
alone, returns within `(end - start + 1) * sz` passes the least row of `[start, end)`
where every condition holds, or `not_found`. -/
theorem findFirst_conjunction (nonempty : 0 < sz)
    (localContract : ∀ i < sz, ∀ s e, s < e → IsFirstMatch (conds i) s e (children i s e))
    (start fuel : Nat) (stopLe : stop ≤ notFound) (enoughFuel : (stop - start + 1) * sz ≤ fuel) :
    ∃ r, findFirst children sz fuel start stop = some r ∧
      IsFirstMatch (allHold conds sz) start stop r := by
  refine ⟨_, findFirstFrom_conjunction
    (fun i lt s e inRange => (localContract i lt s e inRange).eq_firstMatch) stopLe
    fuel 0 sz start nonempty nonempty (Nat.le_refl _) (fun _ c cLt gap => ?_) ?_,
    isFirstMatch_firstMatch _ _ _⟩
  · exact absurd (cyclicGap_pos 0 cLt) (by omega)
  · rwa [Nat.succ_mul] at enoughFuel

theorem findFirst_conjunction_multiples :
    ∃ r, findFirst (M := Id) (fun i s e => firstMatch (fun r => r % (i + 2) == 0) s e)
        2 20 1 10 = some r ∧
      IsFirstMatch (allHold (fun i r => r % (i + 2) == 0) 2) 1 10 r :=
  findFirst_conjunction (by decide) (fun _ _ _ _ _ => isFirstMatch_firstMatch _ _ _) 1 20
    (by decide) (by decide)

end Conjunction

end ParentNode
end Query
end RealmCore
