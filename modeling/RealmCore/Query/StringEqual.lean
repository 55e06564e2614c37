import RealmCore.Query.StringIndex

/-!
# Multi-needle fusion of string equality

A disjunction `x == a || x == b || ...` of `StringNode<Equal>` conditions on one column
is folded into its first node by `do_consume_condition`: the node collects the values of
the others in `m_needles` and stops using the search index. `find_first_local` then scans
the leaf for any needle, after taking `not_found` for the end of the leaf; it asserts
`start <= end` only then, so a start past the end of the leaf fails the assertion.

A string value is `Option String`: `none` is the null string. Needles are compared as
`StringData`, so null and the empty string are different needles.
-/

namespace RealmCore
namespace Query

/-- The fields of a `StringNode<Equal>` that fusion and `find_first_local` read. -/
structure StringNodeEqual where
  conditionColumnKey : Nat
  value : Option String
  hasSearchIndex : Bool
  needles : List (Option String)
  deriving DecidableEq, Repr

/-- Modelled from the spec: the string leaf's `find_first(value, start, end)`, the first
row of `[start, end)` holding `value`. -/
def leafFindFirst (leaf : List (Option String)) (value : Option String) (start stop : Nat) : Nat :=
  firstMatch (fun r => leaf[r]? == some value) start stop

/-- Modelled from the spec: `find_first_haystack<20>(leaf, needles, start, end)`, the first
row of `[start, end)` holding one of the needles. -/
def findFirstHaystack (leaf : List (Option String)) (needles : List (Option String))
    (start stop : Nat) : Nat :=
  firstMatch (fun r => match leaf[r]? with
    | some v => needles.contains v
    | none => false) start stop

namespace StringNodeEqual

/-- `StringNode<Equal>::do_consume_condition(other)`: fold `other`'s value into the needles
and give up the search index. `none` is a failed `REALM_ASSERT`: the nodes are on
different columns, or `other` has needles of its own. -/
def doConsumeCondition (self other : StringNodeEqual) : Option StringNodeEqual :=
  if self.conditionColumnKey = other.conditionColumnKey ∧ other.needles = [] then
    let needles := if self.needles = [] then [self.value] else self.needles
    some { self with hasSearchIndex := false, needles := needles.insert other.value }
  else none

/-- `StringNode<Equal>::_find_first_local(start, end)` on the cluster's leaf: one value
through the leaf's `find_first`, several through the haystack scan. `none` is the failed
`REALM_ASSERT_3(start, <=, end)`. -/
def _findFirstLocal (self : StringNodeEqual) (leaf : List (Option String)) (start stop : Nat) :
    Option Nat :=
  if self.needles = [] then
    some (leafFindFirst leaf self.value start stop)
  else
    let stop := if stop = notFound then leaf.length else stop
    if start ≤ stop then some (findFirstHaystack leaf self.needles start stop) else none

/-- `StringNodeEqualBase::find_first_local(start, end)` on cluster `c` with leaf `leaf`:
the indexed path of `StringIndex` while the node has a search index, else
`_find_first_local`. -/
def findFirstLocal (self : StringNodeEqual) (m : IndexMatches) (c : Cluster)
    (leaf : List (Option String)) (start stop : Nat) (cur : IndexCursor) :
    Option (Nat × IndexCursor) :=
  if self.hasSearchIndex then some (m.findFirstIndexed c start stop cur)
  else (self._findFirstLocal leaf start stop).map fun r => (r, cur)

/-- The values a node matches: its needles once it has some, else its own value. -/
def matchedValues (self : StringNodeEqual) : List (Option String) :=
  if self.needles = [] then [self.value] else self.needles

/-! ## Fusion preserves the disjunction -/

theorem matchedValues_ne_nil (self : StringNodeEqual) : self.matchedValues ≠ [] := by
  unfold matchedValues
  split_ifs with empty
  · exact List.cons_ne_nil _ _
  · exact empty

/-- A node no longer on the index, with needles of its own. -/
def Fused (self : StringNodeEqual) : Prop := self.hasSearchIndex = false ∧ self.needles ≠ []

theorem doConsumeCondition_spec {self other : StringNodeEqual}
    (sameColumn : other.conditionColumnKey = self.conditionColumnKey) (plain : other.needles = []) :
    ∃ consumed, self.doConsumeCondition other = some consumed ∧
      consumed.conditionColumnKey = self.conditionColumnKey ∧ consumed.Fused ∧
      ∀ v, v ∈ consumed.matchedValues ↔ v ∈ self.matchedValues ∨ v = other.value := by
  have nonempty : self.matchedValues.insert other.value ≠ [] :=
    List.ne_nil_of_mem (List.mem_insert_self _ _)
  refine ⟨_, if_pos ⟨sameColumn.symm, plain⟩, rfl, ⟨rfl, nonempty⟩, fun v => ?_⟩
  show v ∈ (if self.matchedValues.insert other.value = [] then [self.value]
    else self.matchedValues.insert other.value) ↔ _
  rw [if_neg nonempty, List.mem_insert_iff]
  exact or_comm

/-- Folding plain nodes of the same column into `n0` always succeeds; the result matches
the values `n0` matched and the value of every folded node. -/
theorem foldlM_doConsumeCondition :
    ∀ (ns : List StringNodeEqual) (n0 : StringNodeEqual),
      (∀ n ∈ ns, n.conditionColumnKey = n0.conditionColumnKey) →
      (∀ n ∈ ns, n.needles = []) →
      ∃ fused, ns.foldlM doConsumeCondition n0 = some fused ∧
        fused.conditionColumnKey = n0.conditionColumnKey ∧
        (n0.Fused ∨ ns ≠ [] → fused.Fused) ∧
        ∀ v, v ∈ fused.matchedValues ↔ v ∈ n0.matchedValues ++ ns.map value
  | [], n0, _, _ => ⟨n0, rfl, rfl, fun fused => fused.resolve_right (by simp), by simp⟩
  | n :: ns, n0, sameColumn, plain => by
      obtain ⟨n1, consumed, column, fused, values⟩ := doConsumeCondition_spec
        (sameColumn n (List.mem_cons_self _ _)) (plain n (List.mem_cons_self _ _))
      obtain ⟨result, folded, column', fused', values'⟩ := foldlM_doConsumeCondition ns n1
        (fun n' mem => (sameColumn n' (List.mem_cons_of_mem _ mem)).trans column.symm)
        (fun n' mem => plain n' (List.mem_cons_of_mem _ mem))
      refine ⟨result, by simp only [List.foldlM_cons, consumed, Option.bind_eq_bind,
        Option.some_bind, folded], column'.trans column, fun _ => fused' (.inl fused),
        fun v => ?_⟩
      rw [values', List.mem_append, values, List.map_cons, List.mem_append, List.mem_cons]
      tauto

/-! ## The fused node scans for the disjunction -/

/-- Row `r` of `leaf` holds one of `values`: null only for a null needle. -/
def holdsOneOf (values : List (Option String)) (leaf : List (Option String)) (r : Nat) : Bool :=
  values.any fun v => leaf[r]? == some v

theorem holdsOneOf_congr {values other : List (Option String)}
    (same : ∀ v, v ∈ values ↔ v ∈ other) (leaf : List (Option String)) :
    holdsOneOf values leaf = holdsOneOf other leaf := by
  funext r
  rw [Bool.eq_iff_iff]
  simp [holdsOneOf, same]

example : holdsOneOf [none] [some ""] 0 = false ∧ holdsOneOf [some ""] [none] 0 = false := by
  decide

/-- The haystack scan of `needles` is the scan for any value with the same members. -/
theorem findFirstHaystack_eq {leaf needles values : List (Option String)}
    (same : ∀ v, v ∈ needles ↔ v ∈ values) (start stop : Nat) :
    findFirstHaystack leaf needles start stop = firstMatch (holdsOneOf values leaf) start stop := by
  refine firstMatch_congr fun r _ _ => ?_
  unfold holdsOneOf
  cases leaf[r]? with
  | none => simp
  | some w => rw [Bool.eq_iff_iff]; simp [same]

/-- Rows past the end of the leaf hold no value, null included. -/
theorem firstMatch_holdsOneOf_length {values leaf : List (Option String)} {start stop : Nat}
    (lengthLe : leaf.length ≤ stop) :
    firstMatch (holdsOneOf values leaf) start stop =
      firstMatch (holdsOneOf values leaf) start leaf.length :=
  firstMatch_truncate lengthLe fun r past _ => by simp [holdsOneOf, List.getElem?_eq_none past]

/-- A fused node, off the index, scans `[start, end)` of its leaf (to the leaf's end when
`end` is `not_found`) for any value it matches. -/
theorem Fused.findFirstLocal_eq {self : StringNodeEqual} (fused : self.Fused) (m : IndexMatches)
    (c : Cluster) (leaf : List (Option String)) (start stop : Nat) (cur : IndexCursor)
    (leafBound : leaf.length ≤ notFound)
    (startLe : start ≤ if stop = notFound then leaf.length else stop) :
    self.findFirstLocal m c leaf start stop cur =
      some (firstMatch (holdsOneOf self.matchedValues leaf) start stop, cur) := by
  have same : ∀ v, v ∈ self.needles ↔ v ∈ self.matchedValues := by
    simp [matchedValues, fused.2]
  simp only [findFirstLocal, fused.1, _findFirstLocal, fused.2, if_false, if_pos startLe,
    Option.map_some', findFirstHaystack_eq same, Bool.false_eq_true]
  split_ifs with unbounded
  · rw [unbounded, firstMatch_holdsOneOf_length leafBound]
  · rfl

/-- Folding a non-empty sequence `ns` of plain nodes on `n0`'s column into `n0` succeeds and
takes the fused node off the search index; then on every leaf and every range its
`find_first_local` is the first row holding a value of `n0` or of one of `ns`. -/
theorem foldlM_doConsumeCondition_findFirstLocal (n0 : StringNodeEqual)
    (ns : List StringNodeEqual) (nonempty : ns ≠ [])
    (sameColumn : ∀ n ∈ ns, n.conditionColumnKey = n0.conditionColumnKey)
    (plain : ∀ n ∈ ns, n.needles = []) :
    ∃ fused, ns.foldlM doConsumeCondition n0 = some fused ∧ fused.hasSearchIndex = false ∧
      ∀ (m : IndexMatches) (c : Cluster) (leaf : List (Option String)) (start stop : Nat)
        (cur : IndexCursor), leaf.length ≤ notFound →
        (start ≤ if stop = notFound then leaf.length else stop) →
        fused.findFirstLocal m c leaf start stop cur =
          some (firstMatch (holdsOneOf (n0.matchedValues ++ ns.map value) leaf) start stop,
            cur) := by
  obtain ⟨fused, folded, -, isFused, values⟩ := foldlM_doConsumeCondition ns n0 sameColumn plain
  have fusedNode := isFused (.inr nonempty)
  refine ⟨fused, folded, fusedNode.1, fun m c leaf start stop cur leafBound startLe => ?_⟩
  rw [fusedNode.findFirstLocal_eq m c leaf start stop cur leafBound startLe,
    holdsOneOf_congr values]

/-- A fused node asked from a start past the end of its leaf, with `end = not_found`: the
end becomes the leaf's size, and `REALM_ASSERT_3(start, <=, end)` fails. -/
theorem foldlM_doConsumeCondition_start_past_leaf :
    ∃ fused, [⟨3, some "", true, []⟩].foldlM doConsumeCondition ⟨3, none, true, []⟩ = some fused ∧
      fused.hasSearchIndex = false ∧ 5 ≤ notFound ∧
      fused.findFirstLocal ⟨fun _ => 0, 0, 0⟩ ⟨0, []⟩ [some ""] 5 notFound ⟨0, 0, 0⟩ = none :=
  ⟨_, rfl, rfl, by decide, rfl⟩

/-- A null node fused with an empty-string node and a `"b"` node. -/
theorem foldlM_doConsumeCondition_null_empty_b :
    ∃ fused, [⟨3, some "", true, []⟩, ⟨3, some "b", true, []⟩].foldlM doConsumeCondition
        ⟨3, none, true, []⟩ = some fused ∧ fused.hasSearchIndex = false ∧
      ∀ (m : IndexMatches) (c : Cluster) (leaf : List (Option String)) (start stop : Nat)
        (cur : IndexCursor), leaf.length ≤ notFound →
        (start ≤ if stop = notFound then leaf.length else stop) →
        fused.findFirstLocal m c leaf start stop cur =
          some (firstMatch (holdsOneOf [none, some "", some "b"] leaf) start stop, cur) :=
  foldlM_doConsumeCondition_findFirstLocal ⟨3, none, true, []⟩
    [⟨3, some "", true, []⟩, ⟨3, some "b", true, []⟩] (by decide) (by decide) (by decide)

end StringNodeEqual

end Query
end RealmCore
