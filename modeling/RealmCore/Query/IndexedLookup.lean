import RealmCore.Store.SearchIndex
import RealmCore.Query.StringIndex

/-!
# The indexed equality path against the stored values

`Query.StringIndex` shows that the search-index cursor answers, for each range of a cluster,
the first row whose key is in the list `_search_index_init` took from the index, and
`Store.SearchIndex` shows that every run of setters that calls `add_int` only on `Int`
columns keeps each search index exact. This module joins the two. The list is the index's
`find_all_no_copy` answer for the node's value, and the clusters hold the table's objects
(`ClusterLayout`). Then, after any such run, every answer of the indexed path is the first
row of its range whose object holds the value: what a scan of the stored values answers
(`runIndexed_findAllNoCopy_of_run`).

`StringIndex::find_all_no_copy` is not in the source; it is modelled from the spec, as the
keys of the index's entries for the value, in ascending order.
-/

namespace RealmCore

namespace Store
namespace Table

/-- Modelled from the spec: the keys of the objects the search index of `col` holds `value`
for, ascending. -/
def indexKeys (t : Table) (col : Nat) (value : Mixed) : List Int :=
  (((t.index col).filter fun e => e.value == value).map IndexEntry.key).mergeSort

/-- Modelled from the spec: `StringIndex::find_all_no_copy(value)`. No key is `NotFound`,
one key is `Single`, more keys are a key column read over `[0, n)`. -/
def findAllNoCopy (t : Table) (col : Nat) (value : Mixed) : Query.FindRes :=
  match t.indexKeys col value with
  | [] => .notFound
  | [key] => .single key
  | keys => .column (fun i => keys.getD i nullKey) 0 keys.length

section

variable {t : Table} {col : Nat} (exact : t.IndexExact) (colMem : col ∈ t.columnKeys)
  (indexed : (t.column col).indexed = true)
include exact colMem indexed

/-- An exact index holds `value` for a key exactly when the key's object holds it. -/
theorem mem_indexKeys {value : Mixed} {key : Int} :
    key ∈ t.indexKeys col value ↔ key ∈ t.objects ∧ t.value col key = value := by
  have perm := exact.exact col colMem indexed
  simp only [indexKeys, List.mem_mergeSort, List.mem_map, List.mem_filter, beq_iff_eq]
  constructor
  · rintro ⟨e, ⟨mem, held⟩, rfl⟩
    obtain ⟨o, live, rfl⟩ := List.mem_map.mp (perm.subset mem)
    exact ⟨live, held⟩
  · rintro ⟨live, held⟩
    exact ⟨⟨t.value col key, key⟩, ⟨perm.symm.subset (List.mem_map_of_mem _ live), held⟩,
      rfl⟩

/-- An exact index holds one entry per object, so the keys for a value strictly ascend. -/
theorem indexKeys_sorted (value : Mixed) : (t.indexKeys col value).Sorted (· < ·) := by
  have keys : ((t.index col).map IndexEntry.key).Nodup := by
    have perm := (exact.exact col colMem indexed).map IndexEntry.key
    rw [List.map_map] at perm
    exact perm.nodup_iff.mpr (by simpa [Function.comp_def] using exact.nodup)
  have nodup : (t.indexKeys col value).Nodup :=
    (List.mergeSort_perm _ _).nodup_iff.mpr (keys.sublist ((List.filter_sublist _).map _))
  have ascending := @List.sorted_mergeSort Int (fun a b => decide (a ≤ b))
    (fun _ _ _ ab bc => by simpa using Int.le_trans (by simpa using ab) (by simpa using bc))
    (fun a b => by simpa using Int.le_total a b)
    (((t.index col).filter fun e => e.value == value).map IndexEntry.key)
  exact List.Sorted.lt_of_le (ascending.imp fun le => by simpa using le) nodup

end

end Table
end Store

namespace Query

open Store

/-- How the table's objects lie in the clusters (the leaves of its B+-tree): every row of a
cluster is an object of the table, every object is a row, keys ascend within a cluster, and
two clusters' key intervals are disjoint. -/
structure ClusterLayout (t : Table) (clusters : List Cluster) : Prop where
  rowLive : ∀ c ∈ clusters, ∀ r < c.size, c.getRealKey r ∈ t.objects
  covers : ∀ key ∈ t.objects, ∃ c ∈ clusters, ∃ r < c.size, c.getRealKey r = key
  clusterAscending :
    ∀ c ∈ clusters, ∀ r' < c.size, ∀ r < r', c.getRealKey r < c.getRealKey r'
  disjoint : ∀ c ∈ clusters, ∀ c' ∈ clusters, c ≠ c' → ∀ a < c.size, ∀ b < c.size,
    ∀ x < c'.size, ¬(c.getRealKey a ≤ c'.getRealKey x ∧ c'.getRealKey x ≤ c.getRealKey b)

/-- The first row of `[start, stop)` of `c` whose object holds `value` in column `col`. -/
def storedScan (t : Table) (col : Nat) (value : Mixed) (c : Cluster) (start stop : Nat) : Nat :=
  firstMatch (fun r => t.value col (c.getRealKey r) == value) start stop

/-- The list `_search_index_init` takes from `find_all_no_copy`: the index's keys for the
value, read from position `0`. -/
theorem searchIndexInitEqual_findAllNoCopy (t : Table) (col : Nat) (value : Mixed)
    (cur : IndexCursor) :
    (searchIndexInitEqual cur none (t.findAllNoCopy col value)).1.resultsStart = 0 ∧
      (searchIndexInitEqual cur none (t.findAllNoCopy col value)).1.resultsEnd =
        (t.indexKeys col value).length ∧
      ∀ j < (t.indexKeys col value).length,
        (searchIndexInitEqual cur none (t.findAllNoCopy col value)).1.getKey j =
          (t.indexKeys col value).getD j nullKey := by
  unfold Table.findAllNoCopy
  split <;> rename_i keys
  · exact ⟨rfl, by rw [keys]; rfl, fun j lt => by simp [keys] at lt⟩
  · refine ⟨rfl, by rw [keys]; rfl, fun j lt => ?_⟩
    rw [keys, List.length_singleton, Nat.lt_one_iff] at lt
    rw [keys, lt]
    rfl
  · exact ⟨rfl, rfl, fun _ _ => rfl⟩

section

variable {t : Table} {col : Nat} {value : Mixed} {cur : IndexCursor}
  {clusters : List Cluster} (exact : t.IndexExact) (colMem : col ∈ t.columnKeys)
  (indexed : (t.column col).indexed = true)
include exact colMem indexed

/-- A key is in the list exactly when its object holds the value. -/
theorem contains_findAllNoCopy (key : Int) :
    (searchIndexInitEqual cur none (t.findAllNoCopy col value)).1.contains key = true ↔
      key ∈ t.objects ∧ t.value col key = value := by
  obtain ⟨start, stop, getKey⟩ := searchIndexInitEqual_findAllNoCopy t col value cur
  rw [IndexMatches.contains_iff, start, stop, ← Table.mem_indexKeys exact colMem indexed,
    List.mem_iff_getElem]
  constructor
  · rintro ⟨j, -, lt, rfl⟩
    exact ⟨j, lt, by rw [getKey j lt, List.getD_eq_getElem _ _ lt]⟩
  · rintro ⟨j, lt, rfl⟩
    exact ⟨j, Nat.zero_le j, lt, by rw [getKey j lt, List.getD_eq_getElem _ _ lt]⟩

/-- The list of `find_all_no_copy` over an exact index meets what the indexed path relies
on, for clusters that hold the table's objects. -/
theorem indexLayout_findAllNoCopy (layout : ClusterLayout t clusters) :
    IndexLayout (searchIndexInitEqual cur none (t.findAllNoCopy col value)).1 clusters := by
  obtain ⟨start, stop, getKey⟩ := searchIndexInitEqual_findAllNoCopy t col value cur
  have sorted := List.pairwise_iff_getElem.mp (Table.indexKeys_sorted exact colMem indexed value)
  refine ⟨fun j hj i ij _ => ?_, fun j hj _ => ?_, layout.clusterAscending, layout.disjoint⟩
  · rw [stop] at hj
    rw [getKey i (by omega), getKey j hj, List.getD_eq_getElem _ _ hj,
      List.getD_eq_getElem _ _ (by omega)]
    exact sorted i j (by omega) hj ij
  · rw [stop] at hj
    have mem := (Table.mem_indexKeys exact colMem indexed).mp (List.getElem_mem hj)
    rw [getKey j hj, List.getD_eq_getElem _ _ hj]
    exact layout.covers _ mem.1

/-- On a range of a cluster of the table, a scan for keys of the list is a scan of the
stored values. -/
theorem scanIndexed_findAllNoCopy (layout : ClusterLayout t clusters) {c : Cluster}
    (mem : c ∈ clusters) {start stop : Nat} (stopLe : stop ≤ c.size) :
    scanIndexed (searchIndexInitEqual cur none (t.findAllNoCopy col value)).1 c start stop =
      storedScan t col value c start stop :=
  firstMatch_congr fun r _ hi => by
    have live := layout.rowLive c mem r (by omega)
    rw [Bool.eq_iff_iff, contains_findAllNoCopy exact colMem indexed, beq_iff_eq]
    exact and_iff_right live

/-- Over every sequence of calls on ranges of the table's clusters, from a valid cursor, the
indexed path answers the stored-value scan of each range. -/
theorem runIndexed_findAllNoCopy (layout : ClusterLayout t clusters) :
    ∀ (calls : List (Cluster × Nat × Nat)) (cur' : IndexCursor),
      cur'.Valid (searchIndexInitEqual cur none (t.findAllNoCopy col value)).1 →
      (∀ call ∈ calls,
        call.1 ∈ clusters ∧ call.2.1 < call.2.2 ∧ call.2.2 ≤ call.1.size) →
      (IndexMatches.runIndexed (searchIndexInitEqual cur none (t.findAllNoCopy col value)).1
          cur' calls).1 =
        calls.map fun call => storedScan t col value call.1 call.2.1 call.2.2
  | [], _, _, _ => rfl
  | (c, start, stop) :: calls, cur', valid, ranges => by
      obtain ⟨mem, inRange, stopLe⟩ := ranges _ (List.mem_cons_self _ _)
      obtain ⟨answer, kept⟩ := IndexMatches.findFirstIndexed_spec
        (indexLayout_findAllNoCopy exact colMem indexed layout) mem inRange stopLe valid
      simp only [IndexMatches.runIndexed, List.map_cons, answer,
        scanIndexed_findAllNoCopy exact colMem indexed layout mem stopLe,
        runIndexed_findAllNoCopy layout calls _ kept fun call h =>
          ranges call (List.mem_cons_of_mem _ h)]

end

/-- After any run of setter calls that calls `add_int` only on `Int` columns, from a table
whose search indexes are exact, a `StringNode<Equal>` on an indexed column whose
`_search_index_init` took the index's `find_all_no_copy` answer for `value` answers every
`find_first_local(start, end)` call (`start < end ≤` cluster size, on the table's clusters,
in any order) with the first row of the range whose object holds `value`. -/
theorem runIndexed_findAllNoCopy_of_run {t : Table} (exact : t.IndexExact) (ops : List Op)
    (allowed : ∀ op ∈ ops, op.Allowed t.column = true) {clusters : List Cluster}
    (layout : ClusterLayout t clusters) {col : Nat} (colMem : col ∈ t.columnKeys)
    (indexed : (t.column col).indexed = true) (value : Mixed) (cur : IndexCursor)
    (calls : List (Cluster × Nat × Nat))
    (ranges :
      ∀ call ∈ calls, call.1 ∈ clusters ∧ call.2.1 < call.2.2 ∧ call.2.2 ≤ call.1.size) :
    (IndexMatches.runIndexed
        (searchIndexInitEqual cur none ((t.run ops).findAllNoCopy col value)).1
        (searchIndexInitEqual cur none ((t.run ops).findAllNoCopy col value)).2 calls).1 =
      calls.map fun call => storedScan (t.run ops) col value call.1 call.2.1 call.2.2 := by
  have reach := t.run_reaches ops allowed
  obtain ⟨objects, columnKeys, column⟩ := reach.frame
  have layout' : ClusterLayout (t.run ops) clusters :=
    { layout with
      rowLive := fun c mem r lt => objects ▸ layout.rowLive c mem r lt
      covers := fun key live => layout.covers key (objects ▸ live) }
  exact runIndexed_findAllNoCopy (reach.keeps (fun exact outcome => outcome.indexExact exact) exact)
    (columnKeys ▸ colMem) (column ▸ indexed) layout' calls _ (searchIndexInitEqual_valid cur none _)
    ranges

/-- After `setterCalls`, both objects hold `"x"` in the indexed string column, and the
indexed path finds them in one cluster. -/
theorem runIndexed_findAllNoCopy_setterCalls :
    (IndexMatches.runIndexed (searchIndexInitEqual ⟨0, 0, nullKey⟩ none
          ((twoIndexedColumns.run setterCalls).findAllNoCopy 1 (.string "x"))).1
        (searchIndexInitEqual ⟨0, 0, nullKey⟩ none
          ((twoIndexedColumns.run setterCalls).findAllNoCopy 1 (.string "x"))).2
        [(⟨0, [1, 2]⟩, 0, 2), (⟨0, [1, 2]⟩, 1, 2)]).1 =
      [(⟨0, [1, 2]⟩, 0, 2), (⟨0, [1, 2]⟩, 1, 2)].map fun (call : Cluster × Nat × Nat) =>
        storedScan (twoIndexedColumns.run setterCalls) 1 (.string "x") call.1 call.2.1 call.2.2 :=
  runIndexed_findAllNoCopy_of_run (by decide) setterCalls (by decide)
    (show ClusterLayout _ [⟨0, [1, 2]⟩] from ⟨by decide, by decide, by decide, by decide⟩)
    (by decide) (by decide) _ _ _ (by decide)

end Query

end RealmCore
