import RealmCore.Query.NotNode

/-!
# `NOT(NOT(q))`: two caches in one query

The query `!(!q)` is a `ParentNode` chain holding one `NotNode`, whose condition is a
chain holding a second `NotNode`, whose condition is `q`. The outer node's
`evaluate_at(i)` runs the inner chain's `find_first(i, i + 1)`, so every row the outer
node tests can move the inner node's cache. Here `q` is any condition whose own
`find_first(start, end)` is the first row of `[start, end)` where `q` matches.

The state of the whole query is the pair of caches, both `cluster_changed` at the start
of a cluster. `runHistory_answers_outside_range` shows the outer cache answering a later
call from the range of an earlier one: after `[0, 2)` has found row 1, a call on `[0, 1)`
answers row 1 too, outside its range, where `q` itself has no match.
-/

namespace RealmCore
namespace Query
namespace DoubleNot

/-- The inner chain `!q`: `ParentNode::find_first` over one `NotNode` of `q`. -/
def innerFindFirst (q : Nat → Bool) (fuel start stop : Nat) : StateT KnownRange Id (Option Nat) :=
  ParentNode.findFirst (NotNode.node (M := Id) fun i => firstMatch q i (i + 1) == notFound)
    1 fuel start stop

/-- `NotNode::evaluate_at` of the outer node: the inner chain's `find_first(i, i + 1)` is
`not_found`. A run of the inner chain that does not return within `fuel` passes makes
the whole query not return. -/
def outerEvaluateAt (q : Nat → Bool) (fuel i : Nat) : StateT KnownRange Option Bool :=
  fun inner =>
    match (innerFindFirst q fuel i (i + 1)).run inner with
    | (some r, inner) => some (r == notFound, inner)
    | (none, _) => none

/-- The outer chain `!(!q)`: `ParentNode::find_first` over the outer `NotNode`; the outer
cache is the state on top, the inner cache below it. -/
def findFirst (q : Nat → Bool) (fuel start stop : Nat) :
    StateT KnownRange (StateT KnownRange Option) (Option Nat) :=
  ParentNode.findFirst (NotNode.node (outerEvaluateAt q fuel)) 1 fuel start stop

/-- A history of `find_first` calls on one cluster, both caches starting from
`cluster_changed`. -/
def runHistory (q : Nat → Bool) (fuel : Nat) (calls : List (Nat × Nat)) :
    Option (List (Option Nat)) :=
  ((calls.mapM fun call => findFirst q fuel call.1 call.2).run' NotNode.clusterChanged).run'
    NotNode.clusterChanged

/-- `q` matches only row 1. The first call, on `[0, 2)`, answers row 1 and leaves the
outer cache at `[0, 2)` with first match 1; the call on `[0, 1)` then answers row 1 again,
outside `[0, 1)`, where `q`'s own `find_first(0, 1)` is `not_found`. -/
theorem runHistory_answers_outside_range :
    runHistory (fun i => i == 1) 1 [(0, 2), (0, 1)] = some [some 1, some 1] ∧
      firstMatch (fun i => i == 1) 0 1 = notFound := by
  decide

end DoubleNot
end Query
end RealmCore
