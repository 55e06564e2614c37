import RealmCore.Keys
import RealmCore.Query.Row

/-!
# The search-index cursor of indexed string equality

With a search index, `StringNode<Equal>` and `StringNode<EqualIns>` do not read the
string leaf: `_search_index_init` asks the index once for the keys of every matching
object, `[m_results_start, m_results_end)` of a key column, and `find_first_local` walks
that list with a cursor (`m_results_ndx`, `m_actual_key`) while the query walks the
clusters. `m_last_start_key` detects a start that went backwards, and the cursor then
restarts from the front of the list.

`findFirstIndexed_history` shows the cursor agrees with a plain scan of each cluster for
keys of the list, over every sequence of calls, in any cluster order: the list ascends,
it holds keys of live objects, keys ascend within a cluster and the key intervals of two
clusters are disjoint.
-/

namespace RealmCore
namespace Query

/-- A cluster as the indexed node sees it: the key offset (`get_offset`) and the stored
key of each row. -/
structure Cluster where
  offset : Int
  keys : List Int
  deriving DecidableEq, Repr

namespace Cluster

/-- The number of rows of the cluster. -/
def size (c : Cluster) : Nat := c.keys.length

/-- `Cluster::get_real_key(row)`: the stored key plus the offset. -/
def getRealKey (c : Cluster) (row : Nat) : Int := c.offset + c.keys.getD row 0

/-- Modelled from the spec: `Cluster::lower_bound_key(key)`, the first row whose stored
key is not below `key` (the cluster size when there is none). -/
def lowerBoundKey (c : Cluster) (key : Int) : Nat := c.keys.findIdx fun k => decide (key ≤ k)

end Cluster

/-- The match list `_search_index_init` leaves: `get_key(i)` for `i` in
`[m_results_start, m_results_end)`. -/
structure IndexMatches where
  getKey : Nat → Int
  resultsStart : Nat
  resultsEnd : Nat

/-- The cursor fields of `StringNodeEqualBase`. -/
structure IndexCursor where
  resultsNdx : Nat
  actualKey : Int
  lastStartKey : Int
  deriving DecidableEq, Repr

namespace IndexMatches

/-- The key is one of the list. -/
def contains (m : IndexMatches) (key : Int) : Bool :=
  (List.range' m.resultsStart (m.resultsEnd - m.resultsStart)).any fun j => m.getKey j == key

theorem contains_iff (m : IndexMatches) (key : Int) :
    m.contains key = true ↔
      ∃ j, m.resultsStart ≤ j ∧ j < m.resultsEnd ∧ m.getKey j = key := by
  simp only [contains, List.any_eq_true, List.mem_range'_1, beq_iff_eq]
  constructor
  · rintro ⟨j, ⟨lo, hi⟩, eq⟩
    exact ⟨j, lo, by omega, eq⟩
  · rintro ⟨j, lo, hi, eq⟩
    exact ⟨j, ⟨lo, by omega⟩, eq⟩

/-- The `while (first_key > m_actual_key)` loop: step the cursor to the first key of the
list not below `firstKey`. Running off the end of the list is the early
`return not_found`, reported as `.error` with the cursor it leaves; `count` is the
number of entries left. -/
def skipSmaller (m : IndexMatches) (firstKey : Int) :
    (count : Nat) → IndexCursor → Except IndexCursor IndexCursor
  | 0, cur => .ok cur
  | count + 1, cur =>
      if firstKey > cur.actualKey then
        let cur := { cur with resultsNdx := cur.resultsNdx + 1 }
        if cur.resultsNdx = m.resultsEnd then .error cur
        else skipSmaller m firstKey count { cur with actualKey := m.getKey cur.resultsNdx }
      else .ok cur

/-- The cursor at the start of a call whose range begins with key `firstKey`: restarted
from the front of the list when the range starts below the previous start (the query is
not advancing through the clusters), then `m_last_start_key` set to `firstKey`. -/
def startCursor (m : IndexMatches) (firstKey : Int) (cur : IndexCursor) : IndexCursor :=
  let cur := if firstKey < cur.lastStartKey then
      { cur with resultsNdx := m.resultsStart,
                 actualKey := if m.resultsStart ≠ m.resultsEnd then m.getKey m.resultsStart
                   else nullKey }
    else cur
  { cur with lastStartKey := firstKey }

/-- The indexed branch of `StringNodeEqualBase::find_first_local(start, end)` on
cluster `c`. -/
def findFirstIndexed (m : IndexMatches) (c : Cluster) (start stop : Nat) (cur : IndexCursor) :
    Nat × IndexCursor :=
  if start < stop then
    let firstKey := c.getRealKey start
    let cur := startCursor m firstKey cur
    if cur.resultsNdx < m.resultsEnd then
      match skipSmaller m firstKey (m.resultsEnd - cur.resultsNdx) cur with
      | .error cur => (notFound, cur)
      | .ok cur =>
          -- An actual key above the last key of the range is not in this leaf.
          if cur.actualKey > c.getRealKey (stop - 1) then (notFound, cur)
          else (c.lowerBoundKey (cur.actualKey - c.offset), cur)
    else (notFound, cur)
  else (notFound, cur)

/-- A sequence of calls `(cluster, start, end)`: the answers, and the final cursor. -/
def runIndexed (m : IndexMatches) (cur : IndexCursor) :
    List (Cluster × Nat × Nat) → List Nat × IndexCursor
  | [] => ([], cur)
  | (c, start, stop) :: calls =>
      let (result, cur) := findFirstIndexed m c start stop cur
      let (results, cur) := runIndexed m cur calls
      (result :: results, cur)

end IndexMatches

/-! ## Building the list -/

/-- The answer of `StringIndex::find_all_no_copy`. -/
inductive FindRes where
  | notFound
  | single (key : Int)
  | column (getKey : Nat → Int) (startNdx endNdx : Nat)

/-- `StringNode<Equal>::_search_index_init`. `primaryKey` is `some k` when the column is
the table's primary key and `Table::find_first` answered `k` (null when no object has the
value); otherwise `found` is the index's answer. A one-key list has that key as every
`get_key`. -/
def searchIndexInitEqual (cur : IndexCursor) (primaryKey : Option Int) (found : FindRes) :
    IndexMatches × IndexCursor :=
  match primaryKey, found with
  | some key, _ => (⟨fun _ => key, 0, if key ≠ nullKey then 1 else 0⟩, ⟨0, key, nullKey⟩)
  | none, .single key => (⟨fun _ => key, 0, 1⟩, ⟨0, key, nullKey⟩)
  | none, .column getKey startNdx endNdx =>
      (⟨getKey, startNdx, endNdx⟩, ⟨startNdx, getKey startNdx, nullKey⟩)
  | none, .notFound => (⟨fun _ => nullKey, 0, 0⟩, ⟨0, cur.actualKey, nullKey⟩)

/-- `StringNode<EqualIns>::_search_index_init`: `found` is what the index's case-insensitive
`find_all` collected. `m_last_start_key` is left as it was. -/
def searchIndexInitEqualIns (cur : IndexCursor) (found : List Int) : IndexMatches × IndexCursor :=
  (⟨fun i => found.getD i nullKey, 0, found.length⟩,
    ⟨0, if found.length ≠ 0 then found.getD 0 nullKey else cur.actualKey, cur.lastStartKey⟩)

/-- The cursor invariant: the cursor is inside the list, `m_actual_key` is the key it
points at, and every key it has passed is below `m_last_start_key`. -/
structure IndexCursor.Valid (m : IndexMatches) (cur : IndexCursor) : Prop where
  startLe : m.resultsStart ≤ cur.resultsNdx
  actual : cur.resultsNdx < m.resultsEnd → cur.actualKey = m.getKey cur.resultsNdx
  passed : ∀ j, m.resultsStart ≤ j → j < cur.resultsNdx → m.getKey j < cur.lastStartKey

theorem searchIndexInitEqual_valid (cur : IndexCursor) (primaryKey : Option Int)
    (found : FindRes) :
    (searchIndexInitEqual cur primaryKey found).2.Valid
      (searchIndexInitEqual cur primaryKey found).1 := by
  unfold searchIndexInitEqual
  split <;>
    refine ⟨Nat.le_refl _, fun inList => ?_, fun j lo hi => by dsimp only at lo hi; omega⟩
  all_goals first | rfl | (dsimp only at inList; omega)

theorem searchIndexInitEqualIns_valid (cur : IndexCursor) (found : List Int) :
    (searchIndexInitEqualIns cur found).2.Valid (searchIndexInitEqualIns cur found).1 :=
  ⟨Nat.le_refl _, fun nonempty => if_pos (Nat.pos_iff_ne_zero.mp nonempty), fun j lo hi => by
    simp only [searchIndexInitEqualIns] at lo hi; omega⟩

/-! ## The cursor against a scan -/

/-- The first row of `[start, stop)` of `c` whose key is in the list. -/
def scanIndexed (m : IndexMatches) (c : Cluster) (start stop : Nat) : Nat :=
  firstMatch (fun r => m.contains (c.getRealKey r)) start stop

/-- What the indexed path relies on: the list ascends and holds keys of live objects,
keys ascend within each cluster, and two clusters' key intervals are disjoint. -/
structure IndexLayout (m : IndexMatches) (clusters : List Cluster) : Prop where
  ascending : ∀ j < m.resultsEnd, ∀ i < j, m.resultsStart ≤ i → m.getKey i < m.getKey j
  live : ∀ j < m.resultsEnd, m.resultsStart ≤ j →
    ∃ c ∈ clusters, ∃ r < c.size, c.getRealKey r = m.getKey j
  clusterAscending : ∀ c ∈ clusters, ∀ r' < c.size, ∀ r < r', c.getRealKey r < c.getRealKey r'
  disjoint : ∀ c ∈ clusters, ∀ c' ∈ clusters, c ≠ c' → ∀ a < c.size, ∀ b < c.size,
    ∀ x < c'.size, ¬(c.getRealKey a ≤ c'.getRealKey x ∧ c'.getRealKey x ≤ c.getRealKey b)

namespace IndexMatches

variable {m : IndexMatches} {clusters : List Cluster} {c : Cluster} {start stop : Nat}

theorem startCursor_valid {cur : IndexCursor} (firstKey : Int) (valid : cur.Valid m) :
    (startCursor m firstKey cur).Valid m := by
  by_cases backwards : firstKey < cur.lastStartKey
  · simp only [startCursor, if_pos backwards]
    refine ⟨Nat.le_refl _, fun inList => ?_, fun j lo hi => ?_⟩
    · dsimp only at inList ⊢
      exact if_pos (by omega)
    · dsimp only at hi
      omega
  · simp only [startCursor, if_neg backwards]
    exact ⟨valid.startLe, valid.actual, fun j lo hi =>
      Int.lt_of_lt_of_le (valid.passed j lo hi) (Int.not_lt.mp backwards)⟩

@[simp] theorem startCursor_lastStartKey (firstKey : Int) (cur : IndexCursor) :
    (startCursor m firstKey cur).lastStartKey = firstKey := by
  unfold startCursor
  split_ifs <;> rfl

/-- The skip loop either runs off the list, having passed only keys below `firstKey`, or
stops at the first key of the list not below `firstKey`. -/
theorem skipSmaller_spec (firstKey : Int) :
    ∀ count cur, cur.Valid m → cur.lastStartKey = firstKey →
      m.resultsEnd ≤ cur.resultsNdx + count → cur.resultsNdx < m.resultsEnd →
      (∃ cur', m.skipSmaller firstKey count cur = .error cur' ∧ cur'.Valid m ∧
          cur'.lastStartKey = firstKey ∧ cur'.resultsNdx = m.resultsEnd) ∨
        (∃ cur', m.skipSmaller firstKey count cur = .ok cur' ∧ cur'.Valid m ∧
          cur'.lastStartKey = firstKey ∧ cur'.resultsNdx < m.resultsEnd ∧
          firstKey ≤ cur'.actualKey)
  | 0, cur, _, _, enough, inList => by omega
  | count + 1, cur, valid, last, enough, inList => by
      have below : ∀ j, m.resultsStart ≤ j → j < cur.resultsNdx + 1 →
          firstKey > cur.actualKey → m.getKey j < firstKey := fun j lo hi gt => by
        rcases Nat.lt_succ_iff_lt_or_eq.mp hi with lt | rfl
        · exact last ▸ valid.passed j lo lt
        · exact valid.actual inList ▸ gt
      by_cases gt : firstKey > cur.actualKey
      · by_cases atEnd : cur.resultsNdx + 1 = m.resultsEnd
        · refine .inl ⟨{ cur with resultsNdx := cur.resultsNdx + 1 },
            by simp only [skipSmaller, if_pos gt, if_pos atEnd], ?_, last, atEnd⟩
          exact ⟨by have := valid.startLe; dsimp only; omega, fun h => by dsimp only at h; omega,
            fun j lo hi => last ▸ below j lo hi gt⟩
        · simp only [skipSmaller, if_pos gt, if_neg atEnd]
          rcases skipSmaller_spec firstKey count
              { cur with resultsNdx := cur.resultsNdx + 1, actualKey := m.getKey (cur.resultsNdx + 1) }
              ⟨by have := valid.startLe; dsimp only; omega, fun _ => rfl,
                fun j lo hi => last ▸ below j lo hi gt⟩
              last (by dsimp only; omega) (by dsimp only; omega) with
            ⟨cur', eq, rest⟩ | ⟨cur', eq, rest⟩
          · exact .inl ⟨cur', eq, rest⟩
          · exact .inr ⟨cur', eq, rest⟩
      · exact .inr ⟨cur, by simp only [skipSmaller, if_neg gt], valid, last, inList,
          Int.not_lt.mp gt⟩

/-- Keys of a cluster ascend, so a row of `[start, stop)` has a key between the first and
the last key of the range. -/
theorem rowKey_bounds (layout : IndexLayout m clusters) (mem : c ∈ clusters) {r : Nat}
    (lo : start ≤ r) (hi : r < stop) (stopLe : stop ≤ c.size) :
    c.getRealKey start ≤ c.getRealKey r ∧ c.getRealKey r ≤ c.getRealKey (stop - 1) := by
  constructor
  · rcases Nat.eq_or_lt_of_le lo with rfl | lt
    · exact Int.le_refl _
    · exact Int.le_of_lt (layout.clusterAscending c mem r (by omega) start lt)
  · rcases Nat.eq_or_lt_of_le (Nat.le_sub_one_of_lt hi) with eq | lt
    · exact eq ▸ Int.le_refl _
    · exact Int.le_of_lt (layout.clusterAscending c mem (stop - 1) (by omega) r lt)

/-- A range where every key of the list not below the range's first key lies above its
last key has no row of the list. -/
theorem scanIndexed_eq_notFound (layout : IndexLayout m clusters) (mem : c ∈ clusters)
    (stopLe : stop ≤ c.size)
    (beyond : ∀ j, m.resultsStart ≤ j → j < m.resultsEnd →
      c.getRealKey start ≤ m.getKey j → c.getRealKey (stop - 1) < m.getKey j) :
    scanIndexed m c start stop = notFound := by
  refine (IsFirstMatch.eq_firstMatch (.inr ⟨rfl, fun r lo hi => ?_⟩)).symm
  cases inList : m.contains (c.getRealKey r)
  · rfl
  · obtain ⟨j, jlo, jhi, eq⟩ := (m.contains_iff _).mp inList
    obtain ⟨low, high⟩ := rowKey_bounds layout mem lo hi stopLe
    have := beyond j jlo jhi (eq ▸ low)
    omega

/-- A key of the list between the first and the last key of a range is the key of a row
of that range: the key is live, and the clusters' key intervals are disjoint. -/
theorem key_in_range (layout : IndexLayout m clusters) (mem : c ∈ clusters)
    (inRange : start < stop) (stopLe : stop ≤ c.size) {j : Nat} (jlo : m.resultsStart ≤ j)
    (jhi : j < m.resultsEnd)
    (low : c.getRealKey start ≤ m.getKey j) (high : m.getKey j ≤ c.getRealKey (stop - 1)) :
    ∃ r, start ≤ r ∧ r < stop ∧ c.getRealKey r = m.getKey j := by
  obtain ⟨c', mem', x, xlt, eq⟩ := layout.live j jhi jlo
  by_cases same : c = c'
  · subst same
    refine ⟨x, ?_, ?_, eq⟩
    · by_contra before
      have := layout.clusterAscending c mem start (by omega) x (by omega)
      omega
    · by_contra after
      have := layout.clusterAscending c mem x xlt (stop - 1) (by omega)
      omega
  · exact (layout.disjoint c mem c' mem' same start (by omega) (stop - 1) (by omega) x xlt
      ⟨eq ▸ low, eq ▸ high⟩).elim

theorem lowerBoundKey_getRealKey (layout : IndexLayout m clusters) (mem : c ∈ clusters)
    {r : Nat} (rlt : r < c.size) : c.lowerBoundKey (c.getRealKey r - c.offset) = r := by
  have stored : ∀ i (h : i < c.keys.length), c.getRealKey i - c.offset = c.keys[i] :=
      fun i h => by
    simp only [Cluster.getRealKey, List.getD_eq_getElem?_getD, List.getElem?_eq_getElem h,
      Option.getD_some]
    omega
  refine (List.findIdx_eq rlt).mpr ⟨by simp [stored r rlt], fun i lt => ?_⟩
  have := layout.clusterAscending c mem r rlt i lt
  have := stored i (by unfold Cluster.size at rlt; omega)
  simp only [decide_eq_false_iff_not, Int.not_le]
  omega

/-- A valid cursor inside the list points at the least key of the list not below
`m_last_start_key`. -/
theorem actualKey_le (layout : IndexLayout m clusters) {cur : IndexCursor} (valid : cur.Valid m)
    (inList : cur.resultsNdx < m.resultsEnd) {j : Nat} (lo : m.resultsStart ≤ j)
    (hi : j < m.resultsEnd) (low : cur.lastStartKey ≤ m.getKey j) :
    cur.actualKey ≤ m.getKey j := by
  rcases Nat.lt_trichotomy j cur.resultsNdx with lt | rfl | gt
  · have := valid.passed j lo lt
    omega
  · exact (valid.actual inList).le
  · exact valid.actual inList ▸ Int.le_of_lt (layout.ascending j hi _ gt valid.startLe)

/-- One indexed `find_first_local` call on a range of a cluster answers what a scan of the
range for keys of the list answers, and keeps the cursor valid. -/
theorem findFirstIndexed_spec (layout : IndexLayout m clusters) (mem : c ∈ clusters)
    (inRange : start < stop) (stopLe : stop ≤ c.size) {cur : IndexCursor} (valid : cur.Valid m) :
    (findFirstIndexed m c start stop cur).1 = scanIndexed m c start stop ∧
      (findFirstIndexed m c start stop cur).2.Valid m := by
  have started := startCursor_valid (c.getRealKey start) valid
  have last := startCursor_lastStartKey (m := m) (c.getRealKey start) cur
  simp only [findFirstIndexed, if_pos inRange]
  generalize startCursor m (c.getRealKey start) cur = cur₁ at started last ⊢
  by_cases inList : cur₁.resultsNdx < m.resultsEnd
  · rw [if_pos inList]
    rcases skipSmaller_spec (c.getRealKey start) (m.resultsEnd - cur₁.resultsNdx) cur₁ started
        last (by omega) inList with
      ⟨cur₂, skipped, valid₂, last₂, atEnd⟩ |
        ⟨cur₂, skipped, valid₂, last₂, inList₂, atLeast⟩
    · -- Every key of the list is below the range.
      rw [skipped]
      refine ⟨(scanIndexed_eq_notFound layout mem stopLe fun j lo hi low => ?_).symm, valid₂⟩
      have := valid₂.passed j lo (atEnd ▸ hi)
      omega
    · -- The cursor stopped at the least key of the list not below the range.
      rw [skipped]
      have actual := valid₂.actual inList₂
      have least : ∀ j, m.resultsStart ≤ j → j < m.resultsEnd →
          c.getRealKey start ≤ m.getKey j → cur₂.actualKey ≤ m.getKey j :=
        fun j lo hi low => actualKey_le layout valid₂ inList₂ lo hi (last₂ ▸ low)
      dsimp only
      split_ifs with above
      · refine ⟨(scanIndexed_eq_notFound layout mem stopLe
          fun j lo hi low => ?_).symm, valid₂⟩
        have := least j lo hi low
        omega
      · obtain ⟨r, rlo, rhi, key⟩ := key_in_range layout mem inRange stopLe valid₂.startLe
          inList₂ (actual ▸ atLeast) (actual ▸ Int.not_lt.mp above)
        refine ⟨?_, valid₂⟩
        rw [actual, ← key, lowerBoundKey_getRealKey layout mem (by omega)]
        refine IsFirstMatch.eq_firstMatch (.inl ⟨rlo, rhi, (m.contains_iff _).mpr
          ⟨_, valid₂.startLe, inList₂, key.symm⟩, fun i ilo ihi => ?_⟩)
        cases inList' : m.contains (c.getRealKey i)
        · exact inList'
        · obtain ⟨j, jlo, jhi, eq⟩ := (m.contains_iff _).mp inList'
          have := least j jlo jhi (eq ▸ (rowKey_bounds layout mem ilo (by omega) stopLe).1)
          have := layout.clusterAscending c mem r (by omega) i ihi
          omega
  · rw [if_neg inList]
    refine ⟨(scanIndexed_eq_notFound layout mem stopLe fun j lo hi low => ?_).symm, started⟩
    have := started.passed j lo (by omega)
    omega

/-- Over every sequence of indexed `find_first_local(start, end)` calls with
`start < end ≤` cluster size, on clusters of the table in any order (backward starts and
revisits included), from a valid cursor (the one either `_search_index_init` leaves, say),
every answer is the first row of its range whose key is in the list. -/
theorem findFirstIndexed_history (layout : IndexLayout m clusters) :
    ∀ (calls : List (Cluster × Nat × Nat)) (cur : IndexCursor), cur.Valid m →
      (∀ call ∈ calls, call.1 ∈ clusters ∧ call.2.1 < call.2.2 ∧ call.2.2 ≤ call.1.size) →
      (runIndexed m cur calls).1 = calls.map fun call => scanIndexed m call.1 call.2.1 call.2.2
  | [], _, _, _ => rfl
  | (c, start, stop) :: calls, cur, valid, ranges => by
      obtain ⟨mem, inRange, stopLe⟩ := ranges _ (List.mem_cons_self _ _)
      obtain ⟨answer, kept⟩ := findFirstIndexed_spec layout mem inRange stopLe valid
      simp only [runIndexed, List.map_cons, answer,
        findFirstIndexed_history layout calls _ kept
          fun call h => ranges call (List.mem_cons_of_mem _ h)]

/-- Keys 10 to 12 in one cluster, 0 to 3 in another, list `[1, 3, 11]`: the second call
starts below the first and restarts the cursor. -/
theorem findFirstIndexed_history_two_clusters :
    (runIndexed ⟨fun i => [1, 3, 11].getD i 0, 0, 3⟩ ⟨0, 1, nullKey⟩
        [(⟨10, [0, 1, 2]⟩, 0, 3), (⟨0, [0, 1, 2, 3]⟩, 0, 4), (⟨0, [0, 1, 2, 3]⟩, 2, 4)]).1 =
      [(⟨10, [0, 1, 2]⟩, 0, 3), (⟨0, [0, 1, 2, 3]⟩, 0, 4), (⟨0, [0, 1, 2, 3]⟩, 2, 4)].map
        fun (call : Cluster × Nat × Nat) =>
          scanIndexed ⟨fun i => [1, 3, 11].getD i 0, 0, 3⟩ call.1 call.2.1 call.2.2 :=
  findFirstIndexed_history
    (show IndexLayout ⟨fun i => [1, 3, 11].getD i 0, 0, 3⟩ [⟨0, [0, 1, 2, 3]⟩, ⟨10, [0, 1, 2]⟩] from
      ⟨by decide, by decide, by decide, by decide⟩) _ _
    ⟨Nat.le_refl _, fun _ => rfl, fun j _ hi => absurd hi (Nat.not_lt_zero j)⟩ (by decide)

end IndexMatches

end Query
end RealmCore
