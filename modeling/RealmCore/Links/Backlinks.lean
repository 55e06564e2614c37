import RealmCore.Links.Db

/-!
# Keeping backlinks in step with links

Every change of a forward link goes through `Obj::replace_backlink`: the origin leaves
the backlinks of the old target (`remove_backlink`) and joins those of the new one
(`set_backlink`). `Obj::set<ObjKey>` and the `Lst<ObjKey>` mutators are built on these.

The mutators are modelled in `EStateM LogicError Db`: a throw keeps the changes made
before it. The columns here hold weak links, so no object is queued for cascade deletion.

`Lst<ObjKey>::do_set` removes the old target's backlink before `set_backlink` looks the
new target up, and a target that is no object then throws between the two
(`listDoSet_throws_inconsistent`).
-/

namespace RealmCore
namespace Links

namespace Db

/-- Replace the backlinks of object `key` of `table` in column `column`. -/
def setBacklinks (db : Db) (table column : Nat) (key : Int) (keys : List Int) : Db :=
  { db with backlinks := fun t c k =>
      if t = table ∧ c = column ∧ k = key then keys else db.backlinks t c k }

/-- Replace the single link of object `key` of `table` in column `column`. -/
def setLink (db : Db) (table column : Nat) (key target : Int) : Db :=
  { db with link := fun t c k => if t = table ∧ c = column ∧ k = key then target else db.link t c k }

/-- Replace the link list of object `key` of `table` in column `column`. -/
def setList (db : Db) (table column : Nat) (key : Int) (keys : List Int) : Db :=
  { db with list := fun t c k => if t = table ∧ c = column ∧ k = key then keys else db.list t c k }

end Db

/-- `Table::get_object(key)`: throws `KeyNotFound` for a key of no object of `table`. -/
def getObject (table : Nat) (key : Int) : EStateM LogicError Db Unit := do
  if key ∈ (← get).objects table then pure () else throw .keyNotFound

/-- `Obj::add_backlink(backlink_col_key, origin_key)` on object `key` of `table`; modelled
from the spec, `ArrayBacklink::add` appends. -/
def addBacklink (table column : Nat) (key origin : Int) : EStateM LogicError Db Unit :=
  modify fun db => db.setBacklinks table column key (db.backlinks table column key ++ [origin])

/-- `Obj::remove_one_backlink(backlink_col_key, origin_key)` on object `key` of `table`;
modelled from the spec, `ArrayBacklink::remove` removes one occurrence. -/
def removeOneBacklink (table column : Nat) (key origin : Int) : EStateM LogicError Db Unit :=
  modify fun db => db.setBacklinks table column key ((db.backlinks table column key).erase origin)

/-- `Obj::set_backlink(col_key, new_key)` of object `origin` of `table`. -/
def setBacklink (s : Schema) (table column : Nat) (origin newKey : Int) :
    EStateM LogicError Db Unit :=
  if newKey ≠ nullKey then do
    getObject (s.oppositeTable table column) newKey
    addBacklink (s.oppositeTable table column) (s.oppositeColumn table column) newKey origin
  else pure ()

/-- `Obj::remove_backlink(col_key, old_key, state)` of object `origin` of `table`. -/
def removeBacklink (s : Schema) (table column : Nat) (origin oldKey : Int) :
    EStateM LogicError Db Unit :=
  if oldKey ≠ nullKey then do
    getObject (s.oppositeTable table column) oldKey
    removeOneBacklink (s.oppositeTable table column) (s.oppositeColumn table column) oldKey origin
  else pure ()

/-- `Obj::replace_backlink(col_key, old_key, new_key, state)`. -/
def replaceBacklink (s : Schema) (table column : Nat) (origin oldKey newKey : Int) :
    EStateM LogicError Db Unit := do
  removeBacklink s table column origin oldKey
  setBacklink s table column origin newKey

/-- `Obj::set<ObjKey>(col_key, target_key)` of object `origin` of `table`. -/
def setObjKey (s : Schema) (table column : Nat) (origin targetKey : Int) :
    EStateM LogicError Db Unit := do
  if s.columnType table column ≠ .link then throw .illegalType
  if targetKey ≠ nullKey ∧ targetKey ∉ (← get).objects (s.oppositeTable table column) then
    throw .targetRowIndexOutOfRange
  let oldKey := (← get).link table column origin
  if targetKey ≠ oldKey then
    replaceBacklink s table column origin oldKey targetKey
    modify fun db => db.setLink table column origin targetKey

/-- `Lst<ObjKey>::get(ndx)`; modelled from the spec, an index past the end throws. -/
def listGet (table column : Nat) (origin : Int) (ndx : Nat) : EStateM LogicError Db Int := do
  match ((← get).list table column origin)[ndx]? with
  | some key => pure key
  | none => throw .indexOutOfRange

/-- `Lst<ObjKey>::do_set(ndx, target_key)` on the list `column` of object `origin`. -/
def listDoSet (s : Schema) (table column : Nat) (origin : Int) (ndx : Nat) (targetKey : Int) :
    EStateM LogicError Db Unit := do
  let oldKey ← listGet table column origin ndx
  replaceBacklink s table column origin oldKey targetKey
  modify fun db => db.setList table column origin ((db.list table column origin).set ndx targetKey)

/-- `Lst<ObjKey>::do_insert(ndx, target_key)` on the list `column` of object `origin`. -/
def listDoInsert (s : Schema) (table column : Nat) (origin : Int) (ndx : Nat)
    (targetKey : Int) : EStateM LogicError Db Unit := do
  setBacklink s table column origin targetKey
  modify fun db =>
    db.setList table column origin ((db.list table column origin).insertIdx ndx targetKey)

/-- `Lst<ObjKey>::do_remove(ndx)` on the list `column` of object `origin`. -/
def listDoRemove (s : Schema) (table column : Nat) (origin : Int) (ndx : Nat) :
    EStateM LogicError Db Unit := do
  let oldKey ← listGet table column origin ndx
  removeBacklink s table column origin oldKey
  modify fun db => db.setList table column origin ((db.list table column origin).eraseIdx ndx)

/-- The loop of `Lst<ObjKey>::clear` over a list of weak links: from the last entry down,
`do_set(ndx, null_key)` and then erase the entry. -/
def listClearFrom (s : Schema) (table column : Nat) (origin : Int) :
    Nat → EStateM LogicError Db Unit
  | 0 => pure ()
  | ndx + 1 => do
      listDoSet s table column origin ndx nullKey
      modify fun db => db.setList table column origin ((db.list table column origin).eraseIdx ndx)
      listClearFrom s table column origin ndx

/-- `Lst<ObjKey>::clear()` on a list of weak links. -/
def listClear (s : Schema) (table column : Nat) (origin : Int) : EStateM LogicError Db Unit := do
  listClearFrom s table column origin ((← get).list table column origin).length

/-! ## A throw between the two halves of `replace_backlink` -/

/-- Table 0 has a link list to table 1; column 0 of table 1 holds its backlinks. -/
def listToTarget : Schema :=
  ⟨[0, 1], fun _ => [0], fun t _ => if t = 0 then .linkList else .backLink, fun t _ => 1 - t,
    fun _ _ => 0⟩

/-- One object in each table; the list of object 0 of table 0 holds object 0 of table 1. -/
def oneListLink : Db :=
  ⟨fun _ => [0], fun _ _ _ => nullKey, fun t _ _ => if t = 0 then [0] else [],
    fun t _ _ => if t = 1 then [0] else []⟩

/-- From a consistent state, `do_set(0, 7)` on the list, where 7 is no object of table 1,
throws `KeyNotFound` after the backlink of object 0 of table 1 is gone, while the list
still holds that object. -/
theorem listDoSet_throws_inconsistent :
    listToTarget.Paired ∧ oneListLink.Consistent listToTarget ∧
      ∃ after, (listDoSet listToTarget 0 0 0 0 7).run oneListLink = .error .keyNotFound after ∧
        after.list 0 0 0 = [0] ∧ after.backlinks 1 0 0 = [] ∧ ¬after.Consistent listToTarget :=
  ⟨by decide, by decide, _, rfl, rfl, rfl, by decide⟩

end Links
end RealmCore
