import RealmCore.Query.ParentNode

/-!
# `ParentNode::aggregate_local`

`aggregate_local(st, start, end, local_limit, source_column)` walks `[start, end)` with
the node's own `find_first_local`, and at each row it finds asks every other node of the
chain about that one row (`find_first_local(r, r + 1)`). A row where all of them hold is
handed to the column action, which answers whether to go on. The walk stops after
`local_limit` matches of the node itself, answering the row after the last one, so that
the caller can pick the next node to drive the scan; it answers `end` when the node finds
no more rows, and `not_found` when the action stops. The row before `start` is kept in a
`size_t` as `start - 1`, which wraps around for `start = 0`.

`aggregateLocal_spec` shows that, with nodes that keep the `find_first_local` contract,
every call returns and hands the action exactly the rows of `[start, ret)` where every
node holds, in order (`Aggregated`), and that a driver resuming at the returned row hands
the action every such row of `[start, end)` once, up to the first row where it stops.
-/

namespace RealmCore
namespace Query
namespace ParentNode

/-- `size_t` addition: the sum modulo `2 ^ 64`. -/
def sizeAdd (a b : Nat) : Nat := (a + b) % 2 ^ 64

/-- The rows of `[start, stop)` where `holds` is true, in ascending order. -/
def matchingRows (holds : Nat → Bool) (start stop : Nat) : List Nat :=
  (List.range' start (stop - start)).filter holds

/-- The inner loop of `aggregate_local`: the nodes `cs` in turn are asked about the one row
`r` (`find_first_local(r, r + 1)`) up to the first whose answer is not `r`; the last
answer. -/
def checkChildren (findFirstLocal : Nat → Nat → Nat → Nat) (r : Nat) : List Nat → Nat → Nat
  | [], m => m
  | c :: cs, _ =>
      let m := findFirstLocal c r (r + 1)
      if m ≠ r then m else checkChildren findFirstLocal r cs m

/-- The `for (;;)` loop of `aggregate_local` with `local_matches` and `r`, for at most
`fuel` passes. The column action is modelled by its answers: `action rows r` is whether it
goes on when handed `r` after `rows`. The result is what the call returns and the rows
handed to the action. -/
def aggregateLoop (findFirstLocal : Nat → Nat → Nat → Nat) (sz : Nat)
    (action : List Nat → Nat → Bool) (stop localLimit : Nat) :
    (fuel localMatches r : Nat) → List Nat → Option (Nat × List Nat)
  | 0, _, _, _ => none
  | fuel + 1, localMatches, r, rows =>
      if localMatches = localLimit then some (sizeAdd r 1, rows)
      else
        let r := findFirstLocal 0 (sizeAdd r 1) stop
        if r = notFound then some (stop, rows)
        else if checkChildren findFirstLocal r (List.range' 1 (sz - 1)) r = r then
          if action rows r then
            aggregateLoop findFirstLocal sz action stop localLimit fuel (localMatches + 1) r
              (rows ++ [r])
          else some (notFound, rows ++ [r])
        else aggregateLoop findFirstLocal sz action stop localLimit fuel (localMatches + 1) r rows

/-- `ParentNode::aggregate_local(st, start, end, local_limit, source_column)` over the `sz`
nodes of the chain, where `findFirstLocal i` is `m_children[i]->find_first_local` and
node `0` is this one; `r` starts at `start - 1` in `size_t`. -/
def aggregateLocal (findFirstLocal : Nat → Nat → Nat → Nat) (sz : Nat)
    (action : List Nat → Nat → Bool) (fuel start stop localLimit : Nat) :
    Option (Nat × List Nat) :=
  aggregateLoop findFirstLocal sz action stop localLimit fuel 0 (sizeAdd start notFound) []

/-- Modelled from the spec: the loop of `Query::aggregate_internal` over one cluster, which
calls `aggregate_local(start, end, local_limit)` while `start < end`, resuming at the row
the call returned (`not_found` after the action stopped). The action's state lasts across
the calls: it is handed `rows`, the rows of the earlier calls, before those of a call. -/
def aggregateDriver (findFirstLocal : Nat → Nat → Nat → Nat) (sz : Nat)
    (action : List Nat → Nat → Bool) (stop localLimit : Nat) :
    (fuel start : Nat) → List Nat → Option (List Nat)
  | 0, _, _ => none
  | fuel + 1, start, rows =>
      if start < stop then
        match aggregateLocal findFirstLocal sz (fun seen => action (rows ++ seen)) (fuel + 1)
            start stop localLimit with
        | some (ret, handed) =>
            aggregateDriver findFirstLocal sz action stop localLimit fuel ret (rows ++ handed)
        | none => none
      else some rows

/-! ## What a call is for -/

/-- Whether the action goes on at each of `rows`, handed after `seen`. -/
def goesOn (action : List Nat → Nat → Bool) : (seen rows : List Nat) → Bool
  | _, [] => true
  | seen, r :: rows => action seen r && goesOn action (seen ++ [r]) rows

/-- The rows an action is handed from `rows` after `seen`: up to the first where it stops,
that one included. -/
def handRows (action : List Nat → Nat → Bool) : (seen rows : List Nat) → List Nat
  | seen, [] => seen
  | seen, r :: rows => if action seen r then handRows action (seen ++ [r]) rows else seen ++ [r]

/-- What one call of `aggregate_local(start, end, local_limit)` may do: return `ret` in
`[start, end]` having handed the action the rows of `[start, ret)` where every node holds,
the action going on at each, with `ret < end` only after `local_limit` matches of the first
node; or hand the action such rows up to one where it stops, before the limit, and return
`not_found`. -/
inductive Aggregated (conds : Nat → Nat → Bool) (sz : Nat) (action : List Nat → Nat → Bool)
    (start stop localLimit : Nat) : Nat × List Nat → Prop
  | returned {ret : Nat} (lo : start ≤ ret) (hi : ret ≤ stop)
      (goes : goesOn action [] (matchingRows (allHold conds sz) start ret) = true)
      (limit : ret < stop → (matchingRows (conds 0) start ret).length = localLimit) :
      Aggregated conds sz action start stop localLimit
        (ret, matchingRows (allHold conds sz) start ret)
  | stopped {r : Nat} (lo : start ≤ r) (hi : r < stop) (holds : allHold conds sz r = true)
      (withinLimit : (matchingRows (conds 0) start r).length < localLimit)
      (goes : goesOn action [] (matchingRows (allHold conds sz) start r) = true)
      (stops : action (matchingRows (allHold conds sz) start r) r = false) :
      Aggregated conds sz action start stop localLimit
        (notFound, matchingRows (allHold conds sz) start r ++ [r])

/-! ## Rows, `size_t` and the action -/

theorem sizeAdd_notFound_one {start : Nat} (startLe : start ≤ notFound) :
    sizeAdd (sizeAdd start notFound) 1 = start := by
  simp only [sizeAdd, notFound] at *
  omega

theorem sizeAdd_one_of_lt {r : Nat} (lt : r < notFound) : sizeAdd r 1 = r + 1 := by
  simp only [sizeAdd, notFound] at *
  omega

section Rows

variable {holds : Nat → Bool}

theorem matchingRows_of_le {a b : Nat} (ba : b ≤ a) : matchingRows holds a b = [] := by
  simp [matchingRows, Nat.sub_eq_zero_of_le ba]

theorem matchingRows_append {a b c : Nat} (ab : a ≤ b) (bc : b ≤ c) :
    matchingRows holds a c = matchingRows holds a b ++ matchingRows holds b c := by
  have split := List.range'_append_1 a (b - a) (c - b)
  rw [Nat.add_sub_cancel' ab, show c - b + (b - a) = c - a by omega] at split
  rw [matchingRows, matchingRows, matchingRows, ← List.filter_append, split]

theorem matchingRows_succ {a b : Nat} (ab : a ≤ b) :
    matchingRows holds a (b + 1) = matchingRows holds a b ++ if holds b then [b] else [] := by
  rw [matchingRows_append ab (Nat.le_succ b)]
  cases h : holds b <;> simp [matchingRows, h]

theorem matchingRows_skip {a b c : Nat} (ab : a ≤ b) (bc : b ≤ c)
    (fails : ∀ i, b ≤ i → i < c → holds i = false) :
    matchingRows holds a c = matchingRows holds a b := by
  rw [matchingRows_append ab bc, List.append_right_eq_self, matchingRows,
    List.filter_eq_nil_iff]
  intro i mem
  rw [List.mem_range'_1] at mem
  simp [fails i mem.1 (by omega)]

end Rows

theorem goesOn_append (action : List Nat → Nat → Bool) :
    ∀ (seen rows : List Nat) (r : Nat),
      goesOn action seen (rows ++ [r]) = (goesOn action seen rows && action (seen ++ rows) r)
  | seen, [], r => by simp [goesOn]
  | seen, x :: rows, r => by
      rw [List.cons_append, goesOn, goesOn, goesOn_append action (seen ++ [x]) rows r,
        Bool.and_assoc, List.append_assoc, List.singleton_append]

/-- The action handed `rows` going on at each, then `more`. -/
theorem handRows_append (action : List Nat → Nat → Bool) :
    ∀ (seen rows more : List Nat), goesOn action seen rows = true →
      handRows action seen (rows ++ more) = handRows action (seen ++ rows) more
  | seen, [], more, _ => by simp
  | seen, r :: rows, more, goes => by
      rw [goesOn, Bool.and_eq_true] at goes
      rw [List.cons_append, handRows, if_pos goes.1,
        handRows_append action (seen ++ [r]) rows more goes.2, List.append_assoc,
        List.singleton_append]

/-! ## One call -/

section Call

variable {conds : Nat → Nat → Bool} {findFirstLocal : Nat → Nat → Nat → Nat} {sz : Nat}

/-- A row where every node holds is a row where the first one does. -/
theorem allHold_zero (nonempty : 0 < sz) {r : Nat} (all : allHold conds sz r = true) :
    conds 0 r = true := by
  simp only [allHold, decide_eq_true_eq] at all
  exact all 0 nonempty

theorem allHold_of_not_first (nonempty : 0 < sz) {r : Nat} (first : conds 0 r = false) :
    allHold conds sz r = false :=
  Bool.eq_false_iff.2 fun all => by simp [allHold_zero nonempty all] at first

theorem allHold_iff (nonempty : 0 < sz) (r : Nat) :
    allHold conds sz r = true ↔
      conds 0 r = true ∧ ∀ c ∈ List.range' 1 (sz - 1), conds c r = true := by
  simp only [allHold, decide_eq_true_eq, List.mem_range'_1]
  constructor
  · exact fun all => ⟨all 0 nonempty, fun c lt => all c (by omega)⟩
  · rintro ⟨first, rest⟩ c lt
    rcases Nat.eq_zero_or_pos c with rfl | pos
    · exact first
    · exact rest c ⟨pos, by omega⟩

/-- Asked about the one row `r`, a node answers `r` when it holds there and `not_found`
otherwise, so the inner loop ends on `r` exactly when every node it asks holds. -/
theorem checkChildren_eq_self {r : Nat} (found : r ≠ notFound) :
    ∀ cs : List Nat, (∀ c ∈ cs, IsFirstMatch (conds c) r (r + 1) (findFirstLocal c r (r + 1))) →
      (checkChildren findFirstLocal r cs r = r ↔ ∀ c ∈ cs, conds c r = true)
  | [], _ => by simp [checkChildren]
  | c :: cs, contract => by
      have rest := checkChildren_eq_self found cs fun c' mem =>
        contract c' (List.mem_cons_of_mem _ mem)
      simp only [checkChildren, List.mem_cons, forall_eq_or_imp]
      rcases contract c (List.mem_cons_self _ _) with ⟨lo, hi, holds, -⟩ | ⟨missed, fails⟩
      · have at_r : findFirstLocal c r (r + 1) = r := by omega
        rw [at_r] at holds ⊢
        simpa [holds] using rest
      · rw [missed, fails r (Nat.le_refl _) (Nat.lt_succ_self _)]
        simp [Ne.symm found]

variable (nonempty : 0 < sz)
  (localContract : ∀ i < sz, ∀ s e, s ≤ e → e ≤ notFound →
    IsFirstMatch (conds i) s e (findFirstLocal i s e))
  (action : List Nat → Nat → Bool) (localLimit : Nat) {start stop : Nat}
  (stopLe : stop ≤ notFound)
include nonempty localContract stopLe

/-- At the first-node match `r`, the inner loop ends on `r` exactly when every node holds
there. -/
theorem checkChildren_iff_allHold {r : Nat} (first : conds 0 r = true) (hi : r < stop) :
    checkChildren findFirstLocal r (List.range' 1 (sz - 1)) r = r ↔
      allHold conds sz r = true := by
  rw [allHold_iff nonempty, checkChildren_eq_self (by omega) _ fun c mem =>
    localContract c (by rw [List.mem_range'_1] at mem; omega) r (r + 1) (by omega) (by omega)]
  exact ⟨fun rest => ⟨first, rest⟩, And.right⟩

/-- The loop from a pass whose next row `pos = r + 1` has `rows` the matching rows of
`[start, pos)` and `localMatches` the first node's matches there. -/
theorem aggregateLoop_spec :
    ∀ fuel localMatches r, start ≤ sizeAdd r 1 → sizeAdd r 1 ≤ stop →
      goesOn action [] (matchingRows (allHold conds sz) start (sizeAdd r 1)) = true →
      localMatches = (matchingRows (conds 0) start (sizeAdd r 1)).length →
      localMatches ≤ localLimit → stop - sizeAdd r 1 < fuel →
      ∃ res, aggregateLoop findFirstLocal sz action stop localLimit fuel localMatches r
          (matchingRows (allHold conds sz) start (sizeAdd r 1)) = some res ∧
        Aggregated conds sz action start stop localLimit res
  | 0, _, _, _, _, _, _, _, enough => absurd enough (Nat.not_lt_zero _)
  | fuel + 1, localMatches, r, lo, hi, goes, count, le, enough => by
    set pos := sizeAdd r 1
    unfold aggregateLoop
    by_cases atLimit : localMatches = localLimit
    · rw [if_pos atLimit]
      exact ⟨_, rfl, .returned lo hi goes fun _ => count ▸ atLimit⟩
    rw [if_neg atLimit]
    rcases localContract 0 nonempty pos stop hi stopLe with
      ⟨rlo, rhi, first, before⟩ | ⟨missed, fails⟩
    · -- The first node matches at `r'`; no row of `[pos, r')` matches it.
      set r' := findFirstLocal 0 pos stop
      have rowsAt : matchingRows (allHold conds sz) start r' =
          matchingRows (allHold conds sz) start pos :=
        matchingRows_skip lo rlo fun i ilo ihi => allHold_of_not_first nonempty (before i ilo ihi)
      have firstCount : (matchingRows (conds 0) start (r' + 1)).length = localMatches + 1 := by
        rw [matchingRows_succ (by omega), matchingRows_skip lo rlo before, first]
        simp [count]
      have next : sizeAdd r' 1 = r' + 1 := sizeAdd_one_of_lt (by omega)
      rw [if_neg (by omega)]
      by_cases all : allHold conds sz r' = true
      · rw [if_pos ((checkChildren_iff_allHold nonempty localContract stopLe first rhi).2 all)]
        by_cases goesAt : action (matchingRows (allHold conds sz) start pos) r' = true
        · rw [if_pos goesAt]
          have rows' : matchingRows (allHold conds sz) start pos ++ [r'] =
              matchingRows (allHold conds sz) start (sizeAdd r' 1) := by
            rw [next, matchingRows_succ (by omega), rowsAt, if_pos all]
          rw [rows']
          refine aggregateLoop_spec fuel (localMatches + 1) r' (by omega) (by omega) ?_
            (by rw [next, firstCount]) (by omega) (by omega)
          rw [← rows', goesOn_append, goes, List.nil_append, goesAt, Bool.true_and]
        · rw [if_neg goesAt]
          refine ⟨_, rfl, ?_⟩
          rw [← rowsAt]
          refine .stopped (by omega) rhi all ?_ (rowsAt ▸ goes) (by simpa [rowsAt] using goesAt)
          rw [matchingRows_skip lo rlo before, ← count]
          omega
      · rw [if_neg (mt (checkChildren_iff_allHold nonempty localContract stopLe first rhi).1 all)]
        have rows' : matchingRows (allHold conds sz) start pos =
            matchingRows (allHold conds sz) start (sizeAdd r' 1) := by
          rw [next, matchingRows_succ (by omega), rowsAt, if_neg all, List.append_nil]
        rw [rows']
        exact aggregateLoop_spec fuel (localMatches + 1) r' (by omega) (by omega) (rows' ▸ goes)
          (by rw [next, firstCount]) (by omega) (by omega)
    · -- The first node has no more rows: neither has the chain.
      rw [missed, if_pos rfl]
      have rows' : matchingRows (allHold conds sz) start stop =
          matchingRows (allHold conds sz) start pos :=
        matchingRows_skip lo hi fun i ilo ihi => allHold_of_not_first nonempty (fails i ilo ihi)
      refine ⟨_, rfl, ?_⟩
      rw [← rows']
      exact .returned (by omega) (Nat.le_refl _) (rows' ▸ goes) fun lt => absurd lt (lt_irrefl _)

/-- With enough passes, one call returns as `Aggregated` says. -/
theorem aggregateLocal_aggregated {fuel : Nat} (startLe : start ≤ stop)
    (enough : stop - start < fuel) :
    ∃ res, aggregateLocal findFirstLocal sz action fuel start stop localLimit = some res ∧
      Aggregated conds sz action start stop localLimit res := by
  have pos := sizeAdd_notFound_one (show start ≤ notFound by omega)
  have empty : matchingRows (allHold conds sz) start start = [] := matchingRows_of_le le_rfl
  have loop := aggregateLoop_spec nonempty localContract action localLimit stopLe fuel 0
    (sizeAdd start notFound) (by rw [pos]) (by rw [pos]; exact startLe) (by rw [pos, empty]; rfl)
    (by rw [pos, matchingRows_of_le le_rfl]; rfl) (Nat.zero_le localLimit) (by rw [pos]; exact enough)
  rwa [pos, empty] at loop

/-- The multiples of two and of three from row `0`: after the third multiple of two, `4`,
the call returns `5`, having handed the action `0`. -/
example : aggregateLocal (fun i => firstMatch fun r => r % (i + 2) == 0) 2 (fun _ _ => true)
    13 0 12 3 = some (5, [0]) := by decide

omit nonempty localContract stopLe in
/-- A call from `pos ≥ end` returns without handing the action a row. -/
theorem aggregateDriver_of_le {fuel pos : Nat} (rows : List Nat) (done : stop ≤ pos) :
    aggregateDriver findFirstLocal sz action stop localLimit (fuel + 1) pos rows = some rows := by
  rw [aggregateDriver, if_neg (by omega)]

omit nonempty localContract stopLe in
/-- The action going on at each row of `rows`, with the rows of the earlier calls first. -/
theorem goesOn_after (rows : List Nat) :
    ∀ seen more : List Nat,
      goesOn (fun seen => action (rows ++ seen)) seen more = goesOn action (rows ++ seen) more
  | _, [] => rfl
  | seen, r :: more => by
      rw [goesOn, goesOn, goesOn_after rows (seen ++ [r]) more, List.append_assoc]

/-- A driver resuming at the row each call returns hands the action, over all its calls,
the rows of `[pos, end)` where every node holds, in order, up to the first where it stops. -/
theorem aggregateDriver_spec (limitPos : 0 < localLimit) :
    ∀ fuel pos rows, pos ≤ stop → stop - pos < fuel →
      aggregateDriver findFirstLocal sz action stop localLimit fuel pos rows =
        some (handRows action rows (matchingRows (allHold conds sz) pos stop))
  | 0, _, _, _, enough => absurd enough (Nat.not_lt_zero _)
  | fuel + 1, pos, rows, posLe, enough => by
    by_cases more : pos < stop
    swap
    · rw [aggregateDriver_of_le action localLimit rows (by omega),
        matchingRows_of_le (by omega), handRows]
    obtain ⟨_, call, agg⟩ := aggregateLocal_aggregated nonempty localContract
      (fun seen => action (rows ++ seen)) localLimit stopLe posLe enough
    rw [aggregateDriver, if_pos more, call]
    cases agg with
    | @returned ret lo hi goes limit =>
      -- The call stopped after `local_limit ≥ 1` first-node matches, or at `end`: either way
      -- past `pos`, and the next call goes on from there.
      dsimp only
      have progress : pos < ret := by
        by_contra back
        have atPos := limit (by omega)
        rw [show ret = pos by omega, matchingRows_of_le le_rfl] at atPos
        exact absurd atPos (by simp; omega)
      rw [goesOn_after, List.append_nil] at goes
      rw [aggregateDriver_spec limitPos fuel _ _ hi (by omega), matchingRows_append lo hi,
        handRows_append action rows _ _ goes]
    | @stopped r lo hi holds withinLimit goes stops =>
      -- The action stopped at `r`; the next call, from `not_found`, hands it nothing more.
      obtain ⟨rest, rfl⟩ : ∃ rest, fuel = rest + 1 := ⟨fuel - 1, by omega⟩
      dsimp only
      rw [goesOn_after, List.append_nil] at goes
      have split : matchingRows (allHold conds sz) pos stop = matchingRows (allHold conds sz) pos r ++
          r :: matchingRows (allHold conds sz) (r + 1) stop := by
        rw [matchingRows_append (show pos ≤ r + 1 by omega) (show r + 1 ≤ stop by omega),
          matchingRows_succ lo, if_pos holds, List.append_assoc, List.singleton_append]
      rw [aggregateDriver_of_le action localLimit _ stopLe, split,
        handRows_append action rows _ _ goes, handRows, if_neg (by simp [stops]), List.append_assoc]

end Call

/-- With nodes that keep the `find_first_local` contract, `aggregate_local` returns and
hands the action the rows where every node holds as `Aggregated` says, and a driver resuming
at the returned row hands it each such row of `[start, end)` once, in order, up to the first
where it stops. -/
theorem aggregateLocal_spec {conds : Nat → Nat → Bool} {findFirstLocal : Nat → Nat → Nat → Nat}
    {sz : Nat} (nonempty : 0 < sz)
    (localContract : ∀ i < sz, ∀ s e, s ≤ e → e ≤ notFound →
      IsFirstMatch (conds i) s e (findFirstLocal i s e))
    (action : List Nat → Nat → Bool) {start stop localLimit fuel : Nat} (startLe : start ≤ stop)
    (stopLe : stop ≤ notFound) (limitPos : 0 < localLimit) (enough : stop - start < fuel) :
    (∃ res, aggregateLocal findFirstLocal sz action fuel start stop localLimit = some res ∧
        Aggregated conds sz action start stop localLimit res) ∧
      aggregateDriver findFirstLocal sz action stop localLimit fuel start [] =
        some (handRows action [] (matchingRows (allHold conds sz) start stop)) :=
  ⟨aggregateLocal_aggregated nonempty localContract action localLimit stopLe startLe enough,
    aggregateDriver_spec nonempty localContract action localLimit stopLe limitPos fuel start []
      startLe enough⟩

/-- Two nodes, the multiples of two and of three, scanned over `[0, 12)` three first-node
matches a call, with an action that stops at row `6`. -/
theorem aggregateLocal_spec_multiples :
    (∀ i < 2, ∀ s e, s ≤ e → e ≤ notFound →
      IsFirstMatch (fun r => r % (i + 2) == 0) s e (firstMatch (fun r => r % (i + 2) == 0) s e)) ∧
    (∃ res, aggregateLocal (fun i => firstMatch fun r => r % (i + 2) == 0) 2 (fun _ r => r != 6)
        13 0 12 3 = some res ∧
      Aggregated (fun i r => r % (i + 2) == 0) 2 (fun _ r => r != 6) 0 12 3 res) ∧
    aggregateDriver (fun i => firstMatch fun r => r % (i + 2) == 0) 2 (fun _ r => r != 6) 12 3
        13 0 [] =
      some (handRows (fun _ r => r != 6) []
        (matchingRows (allHold (fun i r => r % (i + 2) == 0) 2) 0 12)) :=
  ⟨fun i _ s e _ _ => isFirstMatch_firstMatch _ s e,
    aggregateLocal_spec (by decide) (fun i _ s e _ _ => isFirstMatch_firstMatch _ s e) _
      (by decide) (by decide) (by decide) (by decide)⟩

end ParentNode
end Query
end RealmCore
