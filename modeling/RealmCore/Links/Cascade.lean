import RealmCore.Links.BacklinkCount

/-!
# Clearing a list of strong links

A column with `col_attr_StrongLinks` owns its targets: a target that loses its last strong
backlink is deleted by the cascade. `Lst<ObjKey>::clear()` on such a list removes, entry by
entry, the list's backlink from the target, and queues the target for deletion
(`CascadeState::m_to_be_deleted`) when `get_backlink_count(origin_table, col_key)` is then
`0`. That count reads only the backlink column opposite this list's column.

`listClearStrong_queues_linked` shows that a target the origin also links to through a
second strong column is queued, though `has_backlinks(true)` still holds for it.
-/

namespace RealmCore
namespace Links

/-- The loop of `Lst<ObjKey>::clear` over a list of strong links of column `column` of
object `origin` of `table`, over the entries `keys`: each target loses one backlink, and is
queued when the backlinks of the column opposite `column` are then gone. The result is the
queue, as (table, key) pairs in the order they were queued. -/
def listClearStrongFrom (s : Schema) (table column : Nat) (origin : Int) :
    List Int → EStateM LogicError Db (List (Nat × Int))
  | [] => pure []
  | targetKey :: rest => do
      let targetTable := s.oppositeTable table column
      getObject targetTable targetKey
      removeOneBacklink targetTable (s.oppositeColumn table column) targetKey origin
      let numRemaining := getBacklinkCountFrom s (← get) targetTable targetKey table column
      let queued ← listClearStrongFrom s table column origin rest
      pure (if numRemaining = 0 then (targetTable, targetKey) :: queued else queued)

/-- `Lst<ObjKey>::clear()` on a non-empty list of strong links, up to
`remove_recursive(state)`: the objects it queues for deletion. -/
def listClearStrong (s : Schema) (table column : Nat) (origin : Int) :
    EStateM LogicError Db (List (Nat × Int)) := do
  let keys := (← get).list table column origin
  if keys = [] then pure []
  else
    let toBeDeleted ← listClearStrongFrom s table column origin keys
    modify fun db => db.setList table column origin []
    pure toBeDeleted

/-- Table 0 has two strong link lists, columns 0 and 1, both to table 1, whose columns 0
and 1 hold their backlinks. -/
def twoStrongLists : Schema :=
  ⟨[0, 1], fun _ => [0, 1], fun t _ => if t = 0 then .linkList else .backLink, fun t _ => 1 - t,
    fun _ c => c⟩

/-- One object in each table; both lists of object 0 of table 0 hold object 0 of table 1. -/
def bothListsLink : Db :=
  ⟨fun _ => [0], fun _ _ _ => nullKey, fun t _ _ => if t = 0 then [0] else [],
    fun t _ _ => if t = 1 then [0] else []⟩

/-- From a consistent state, clearing list 0 queues object 0 of table 1 for deletion,
though list 1 still links to it and `has_backlinks(true)` holds for it. -/
theorem listClearStrong_queues_linked :
    twoStrongLists.Paired ∧ bothListsLink.Consistent twoStrongLists ∧
      ∃ after, (listClearStrong twoStrongLists 0 0 0).run bothListsLink = .ok [(1, 0)] after ∧
        after.list 0 1 0 = [0] ∧ hasBacklinks twoStrongLists after (fun t _ => t = 0) true 1 0 ∧
        after.Consistent twoStrongLists :=
  ⟨by decide, by decide, _, rfl, rfl, by decide, by decide⟩

end Links
end RealmCore
