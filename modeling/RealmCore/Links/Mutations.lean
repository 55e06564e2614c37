import RealmCore.Links.Assign

/-!
# Runs of mutator calls and `Obj::assign`

`assign_links` follows `x.assign(y)` for two distinct objects. Here every call is taken, on
any two objects of the table, `x.assign(x)` included, whether it returns or throws part way
through: each of its steps is a mutator call within that mutator's preconditions, so
`assign_linkSteps` shows that whatever it leaves is reached by link changes. With it,
`mutationReaches_consistent` extends the run invariant of the weak-link mutators to runs that
also call `assign`.

`assign_self_throws` shows what `x.assign(x)` does to an object with a non-empty link list:
the list is cleared, and reading entry `0` of it back to copy it throws, so the call throws
having emptied the list.

`nullify_link` is the one link write that leaves backlinks alone: the removal of a target
calls it for each origin the target's backlinks list. `nullifyLink_consistent` shows its
assertions hold there, and that with the target's `remove_one_backlink` it is a link change.
-/

namespace RealmCore
namespace Links

section

variable {s : Schema} {db : Db}

/-- A program whose first part is a run of link changes, and whose rest is one from wherever
the first part returns, is one. -/
theorem linkSteps_bind {x : EStateM LogicError Db Unit} {f : Unit → EStateM LogicError Db Unit}
    (first : LinkSteps s db (stateAfter x db))
    (rest : ∀ db₁, x.run db = .ok () db₁ → LinkSteps s db db₁ →
      LinkSteps s db₁ (stateAfter (f ()) db₁)) :
    LinkSteps s db (stateAfter (x >>= f) db) := by
  cases ran : x.run db with
  | ok u db₁ =>
    rw [stateAfter_bind_of_ok ran]
    rw [stateAfter_of_ok ran] at first
    exact first.trans (rest db₁ ran first)
  | error e db₁ =>
    rwa [stateAfter_of_error (run_bind_of_error ran), ← stateAfter_of_error ran]

theorem stateAfter_get_bind (f : Db → EStateM LogicError Db Unit) :
    stateAfter (get >>= f) db = stateAfter (f db) db := rfl

theorem stateAfter_bind_of_ok' {α : Type} {x : EStateM LogicError Db α}
    {f : α → EStateM LogicError Db Unit} {a : α} {after : Db} (first : x.run db = .ok a after) :
    stateAfter (x >>= f) db = stateAfter (f a) after := by
  simp [stateAfter, run_bind_of_ok first]

/-- A run of link changes from a consistent database keeps its keys valid and its objects,
and leaves it consistent. -/
theorem LinkSteps.sound (paired : s.Paired) (keys : db.KeysValid s) (consistent : db.Consistent s)
    {db' : Db} (steps : LinkSteps s db db') :
    db'.KeysValid s ∧ db'.Consistent s ∧ db'.objects = db.objects := by
  have after := steps.consistent paired keys consistent
  exact ⟨keys.of_objects after.2, after.1, after.2⟩

end

/-! ## Every step of `assign` is a link change -/

section

variable {s : Schema} (paired : s.Paired) {x y : Int}
include paired

/-- `copy_links`' body for an origin `bl` of the forward column `c` of `t` that leads to
`table`: `get_object` throws for a dead origin, and otherwise a single link is set, or an
entry of a list. -/
theorem relink_linkSteps {t c : Nat} (ht' : t ∈ s.tables) (hc : c ∈ s.columns t)
    (forward : s.columnType t c ≠ .backLink) {db : Db} (keys : db.KeysValid s)
    (consistent : db.Consistent s) (xLive : x ∈ db.objects (s.oppositeTable t c)) (bl : Int) :
    LinkSteps s db (stateAfter (relink s t c x y bl) db) := by
  unfold relink
  by_cases live : bl ∈ db.objects t
  · rw [stateAfter_bind_of_ok (getObject_run_of_mem live)]
    split_ifs with type
    · exact setObjKey_linkSteps consistent ht' hc live x
    · have listType : s.columnType t c = .linkList := by
        cases h : s.columnType t c <;> simp_all
      rw [stateAfter_get_bind]
      exact listDoSet_linkSteps paired keys consistent ht' hc listType live _ xLive
  · rw [stateAfter_of_error (run_bind_of_error (getObject_run_of_not_mem live))]
    exact .refl

theorem relinkAll_linkSteps {t c : Nat} (ht' : t ∈ s.tables) (hc : c ∈ s.columns t)
    (forward : s.columnType t c ≠ .backLink) :
    ∀ (bls : List Int) {db : Db}, db.KeysValid s → db.Consistent s →
      x ∈ db.objects (s.oppositeTable t c) →
      LinkSteps s db (stateAfter (relinkAll s t c x y bls) db)
  | [], _, _, _, _ => .refl
  | bl :: bls, db, keys, consistent, xLive => by
    refine linkSteps_bind (relink_linkSteps paired ht' hc forward keys consistent xLive bl)
      fun db₁ _ steps => ?_
    obtain ⟨keys₁, consistent₁, objects₁⟩ := steps.sound paired keys consistent
    exact relinkAll_linkSteps ht' hc forward bls keys₁ consistent₁ (objects₁ ▸ xLive)

variable {table : Nat} (ht : table ∈ s.tables)
include ht

/-- The refill loop from a list of `x` of `i` entries: entry `i` of `y`'s list is read, and
inserted at `i`; when `y`'s list has no entry `i`, which is the case at once for
`x.assign(x)`, the read throws. -/
theorem listCopyFrom_linkSteps {column : Nat} (hc : column ∈ s.columns table)
    (listType : s.columnType table column = .linkList) :
    ∀ (n i : Nat) {db : Db}, db.KeysValid s → db.Consistent s → x ∈ db.objects table →
      y ∈ db.objects table → (db.list table column x).length = i →
      LinkSteps s db (stateAfter (listCopyFrom s table column x y i n) db)
  | 0, _, _, _, _, _, _, _ => .refl
  | n + 1, i, db, keys, consistent, xLive, yLive, length => by
    rw [listCopyFrom]
    cases entry : (db.list table column y)[i]? with
    | none =>
      rw [stateAfter_of_error (run_bind_of_error (listGet_run_of_none entry))]
      exact .refl
    | some key =>
      obtain ⟨keyLive, keyNotNull⟩ :=
        listEntry_live paired keys consistent ht hc listType yLive entry
      rw [stateAfter_bind_of_ok' (listGet_run entry)]
      refine linkSteps_bind (listDoInsert_linkSteps ht hc listType xLive keyNotNull length.ge)
        fun db₁ ran steps => ?_
      obtain ⟨keys₁, consistent₁, objects₁⟩ := steps.sound paired keys consistent
      rw [listDoInsert_run keyLive keyNotNull, EStateM.Result.ok.injEq] at ran
      refine listCopyFrom_linkSteps hc listType n (i + 1) keys₁ consistent₁
        (objects₁ ▸ xLive) (objects₁ ▸ yLive) ?_
      rw [← ran.2]
      simp [Db.setList, List.length_insertIdx _ _ length.ge, length]

/-- One column of `x.assign(y)`. -/
theorem assignColumn_linkSteps {column : Nat} (hc : column ∈ s.columns table) {db : Db}
    (keys : db.KeysValid s) (consistent : db.Consistent s) (xLive : x ∈ db.objects table)
    (yLive : y ∈ db.objects table) :
    LinkSteps s db (stateAfter (assignColumn s table column x y) db) := by
  unfold assignColumn
  cases type : s.columnType table column with
  | link => exact setObjKey_linkSteps consistent ht hc xLive _
  | linkList =>
    obtain ⟨db₁, run₁, steps₁, cleared⟩ :=
      listClearFrom_run paired ht hc type _ keys consistent xLive rfl
    obtain ⟨keys₁, consistent₁, objects₁⟩ := steps₁.linkSteps.sound paired keys consistent
    rw [stateAfter_get_bind, stateAfter_bind_of_ok (by rwa [listClear, run_get_bind])]
    exact steps₁.linkSteps.trans (listCopyFrom_linkSteps paired ht hc type _ 0 keys₁
      consistent₁ (objects₁ ▸ xLive) (objects₁ ▸ yLive) (by rw [cleared, List.length_nil]))
  | backLink => exact .refl

theorem assignColumns_linkSteps : ∀ (columns : List Nat) {db : Db},
    (∀ c ∈ columns, c ∈ s.columns table) → db.KeysValid s → db.Consistent s →
    x ∈ db.objects table → y ∈ db.objects table →
    LinkSteps s db (stateAfter (assignColumns s table x y columns) db)
  | [], _, _, _, _, _, _ => .refl
  | column :: columns, db, within, keys, consistent, xLive, yLive => by
    refine linkSteps_bind (assignColumn_linkSteps paired ht (within column (List.mem_cons_self _ _))
      keys consistent xLive yLive) fun db₁ _ steps => ?_
    obtain ⟨keys₁, consistent₁, objects₁⟩ := steps.sound paired keys consistent
    exact assignColumns_linkSteps columns (fun c mem => within c (List.mem_cons_of_mem _ mem))
      keys₁ consistent₁ (objects₁ ▸ xLive) (objects₁ ▸ yLive)

theorem copyAllLinks_linkSteps : ∀ (columns : List Nat) {db : Db},
    (∀ b ∈ columns, b ∈ backlinkColumns s table) → db.KeysValid s → db.Consistent s →
    x ∈ db.objects table → LinkSteps s db (stateAfter (copyAllLinks s table x y columns) db)
  | [], _, _, _, _, _ => .refl
  | b :: columns, db, visited, keys, consistent, xLive => by
    obtain ⟨column, backLink⟩ := mem_backlinkColumns.1 (visited b (List.mem_cons_self _ _))
    have opp := paired.opposite_mem table ht b column
    have back := paired.opposite_opposite table ht b column
    have forward := (paired.backLink_iff table ht b column).not.2 (by simp [backLink])
    refine linkSteps_bind ?_ fun db₁ _ steps => ?_
    · rw [copyLinks, stateAfter_get_bind]
      exact relinkAll_linkSteps paired opp.1 opp.2 forward _ keys consistent (by rwa [back.1])
    · obtain ⟨keys₁, consistent₁, objects₁⟩ := steps.sound paired keys consistent
      exact copyAllLinks_linkSteps columns (fun b mem => visited b (List.mem_cons_of_mem _ mem))
        keys₁ consistent₁ (objects₁ ▸ xLive)

/-- `x.assign(y)` for any two objects of a table, `x = y` included, whether it returns or
throws, changes a consistent database by link changes only. -/
theorem assign_linkSteps {db : Db} (keys : db.KeysValid s) (consistent : db.Consistent s)
    (xLive : x ∈ db.objects table) (yLive : y ∈ db.objects table) :
    LinkSteps s db (stateAfter (assign s table x y) db) := by
  refine linkSteps_bind (assignColumns_linkSteps paired ht _ (fun _ => id) keys consistent xLive
    yLive) fun db₁ _ steps => ?_
  obtain ⟨keys₁, consistent₁, objects₁⟩ := steps.sound paired keys consistent
  exact copyAllLinks_linkSteps paired ht _ (fun _ => id) keys₁ consistent₁
    (objects₁ ▸ xLive)

end

/-! ## `x.assign(x)` -/

section

variable {s : Schema} {table : Nat} (ht : table ∈ s.tables) {x : Int} {db : Db}
  (consistent : db.Consistent s) (xLive : x ∈ db.objects table)
include ht consistent xLive

/-- A column of `x.assign(x)` that is a single link, an empty link list or a backlink
column is written with what it holds, which changes nothing. -/
theorem assignColumn_self_run {column : Nat} (hc : column ∈ s.columns table)
    (empty : s.columnType table column = .linkList → db.list table column x = []) :
    (assignColumn s table column x x).run db = .ok () db := by
  unfold assignColumn
  cases type : s.columnType table column with
  | link =>
    have live : db.link table column x ≠ nullKey →
        db.link table column x ∈ db.objects (s.oppositeTable table column) := fun notNull =>
      consistent.live table ht column hc x xLive _ (by simp [read_of_link type, keyOption, notNull])
    rw [run_get_bind, setObjKey_run, if_neg (not_not.2 type),
      if_neg fun ⟨notNull, dead⟩ => dead (live notNull), if_neg (not_not.2 rfl)]
  | linkList =>
    have cleared : (listClear s table column x).run db = .ok () db := by
      simp [listClear, empty type, listClearFrom]
    simp only [run_get_bind, empty type, List.length_nil]
    rw [run_bind_of_ok cleared]
    rfl
  | backLink => rfl

theorem assignColumns_self_run {pre : List Nat} (within : ∀ c ∈ pre, c ∈ s.columns table)
    (empty : ∀ c ∈ pre, s.columnType table c = .linkList → db.list table c x = [])
    (rest : List Nat) :
    (assignColumns s table x x (pre ++ rest)).run db = (assignColumns s table x x rest).run db := by
  induction pre with
  | nil => rfl
  | cons c pre ih =>
    rw [List.cons_append, assignColumns, run_bind_of_ok (assignColumn_self_run ht consistent xLive
      (within c (List.mem_cons_self _ _)) (empty c (List.mem_cons_self _ _)))]
    exact ih (fun c mem => within c (List.mem_cons_of_mem _ mem))
      fun c mem => empty c (List.mem_cons_of_mem _ mem)

/-- `x.assign(x)` on an object with a non-empty link list: the columns before the first
such list are left as they are, that list is cleared, and reading its entry `0` back to copy
it throws. The call throws having emptied the list and changed nothing else. -/
theorem assign_self_throws (paired : s.Paired) (keys : db.KeysValid s)
    {pre post : List Nat} {column : Nat} (columns : s.columns table = pre ++ column :: post)
    (listType : s.columnType table column = .linkList)
    (emptyBefore : ∀ c ∈ pre, s.columnType table c = .linkList → db.list table c x = [])
    (nonEmpty : db.list table column x ≠ []) :
    ∃ db', (assign s table x x).run db = .error .indexOutOfRange db' ∧ db'.Consistent s ∧
      db'.list table column x = [] ∧
      ∀ t c a, s.columnType t c ≠ .backLink → ¬(t = table ∧ c = column ∧ a = x) →
        db'.read (s.hop t c) a = db.read (s.hop t c) a := by
  have hc : column ∈ s.columns table := by simp [columns]
  obtain ⟨db₁, run₁, steps₁, cleared⟩ :=
    listClearFrom_run paired ht hc listType _ keys consistent xLive rfl
  obtain ⟨n, length⟩ : ∃ n, (db.list table column x).length = n + 1 :=
    Nat.exists_eq_succ_of_ne_zero (by simpa using nonEmpty)
  have threw : (assignColumn s table column x x).run db = .error .indexOutOfRange db₁ := by
    rw [assignColumn, listType]
    simp only [run_get_bind, length]
    rw [run_bind_of_ok (by rwa [listClear, run_get_bind]), listCopyFrom,
      run_bind_of_error (listGet_run_of_none (by simp [cleared]))]
  refine ⟨db₁, ?_, (steps₁.linkSteps.consistent paired keys consistent).1, cleared,
    fun t c a forward other => steps₁.read_eq forward other⟩
  rw [assign, run_bind_of_error (by
    rw [columns, assignColumns_self_run ht consistent xLive (fun c mem => by simp [columns, mem])
      emptyBefore, assignColumns, run_bind_of_error threw])]

end

/-- Object 1 of `listsOfOne` lists itself and object 2; `1.assign(1)` empties the list and
throws. -/
theorem assign_self_throws_listsOfOne :
    ∃ db', (assign selfLinks 0 1 1).run listsOfOne = .error .indexOutOfRange db' ∧
      db'.Consistent selfLinks ∧ db'.list 0 0 1 = [] ∧
      ∀ t c a, selfLinks.columnType t c ≠ .backLink → ¬(t = 0 ∧ c = 0 ∧ a = 1) →
        db'.read (selfLinks.hop t c) a = listsOfOne.read (selfLinks.hop t c) a :=
  assign_self_throws (by decide) (by decide) (by decide) (by decide) (by decide)
    (show selfLinks.columns 0 = [] ++ 0 :: [1] from rfl) (by decide) (by decide) (by decide)

/-! ## Runs with `assign` -/

/-- A call of a weak-link mutator, or of `Obj::assign`. -/
inductive Mutation
  | call (c : Call)
  | assign (table : Nat) (x y : Int)
  deriving DecidableEq, Repr

/-- What a mutation runs. -/
def Mutation.apply (s : Schema) : Mutation → EStateM LogicError Db Unit
  | .call c => c.apply s
  | .assign table x y => Links.assign s table x y

/-- What the callers guarantee: a call's preconditions, and for `x.assign(y)` two objects of
one table (`REALM_ASSERT(get_table() == other.get_table())` on two valid objects). -/
def Mutation.Allowed (s : Schema) (db : Db) : Mutation → Prop
  | .call c => c.Allowed s db
  | .assign table x y => table ∈ s.tables ∧ x ∈ db.objects table ∧ y ∈ db.objects table

instance (s : Schema) (db : Db) : (m : Mutation) → Decidable (m.Allowed s db)
  | .call c => inferInstanceAs (Decidable (c.Allowed s db))
  | .assign .. => inferInstanceAs (Decidable (_ ∧ _ ∧ _))

/-- The databases a run of mutations that keep their preconditions can leave, each
returning or throwing. -/
def MutationReaches (s : Schema) : Db → Db → Prop :=
  Relation.ReflTransGen fun db db' =>
    ∃ m : Mutation, m.Allowed s db ∧ db' = stateAfter (m.apply s) db

theorem Mutation.linkSteps {s : Schema} {db : Db} (paired : s.Paired) (keys : db.KeysValid s)
    (consistent : db.Consistent s) : ∀ {m : Mutation}, m.Allowed s db →
      LinkSteps s db (stateAfter (m.apply s) db)
  | .call _, allowed => Call.linkSteps paired keys consistent allowed
  | .assign _ _ _, ⟨ht, xLive, yLive⟩ => assign_linkSteps paired ht keys consistent xLive yLive

/-- From a consistent database, every run of weak-link mutator calls and `Obj::assign` calls
that keep their preconditions, any of them throwing, leaves a consistent database with the
same objects. -/
theorem mutationReaches_consistent {s : Schema} {db db' : Db} (paired : s.Paired)
    (keys : db.KeysValid s) (consistent : db.Consistent s) (reach : MutationReaches s db db') :
    db'.Consistent s ∧ db'.objects = db.objects := by
  suffices db'.KeysValid s ∧ db'.Consistent s ∧ db'.objects = db.objects from this.2
  induction reach with
  | refl => exact ⟨keys, consistent, rfl⟩
  | tail _ step ih =>
    obtain ⟨m, allowed, rfl⟩ := step
    obtain ⟨keys', consistent', objects'⟩ :=
      (m.linkSteps paired ih.1 ih.2.1 allowed).sound paired ih.1 ih.2.1
    exact ⟨keys', consistent', objects'.trans ih.2.2⟩

/-- A run of one call, `1.assign(1)` on `listsOfOne`, which throws part way, leaves a
consistent database. -/
theorem mutationReaches_consistent_selfAssign :
    (stateAfter (assign selfLinks 0 1 1) listsOfOne).Consistent selfLinks ∧
      (stateAfter (assign selfLinks 0 1 1) listsOfOne).objects = listsOfOne.objects :=
  mutationReaches_consistent (by decide) (by decide) (by decide)
    (.single ⟨.assign 0 1 1, by decide, rfl⟩)

/-! ## Nullifying an incoming link -/

/-- `Obj::nullify_link(origin_col_key, target_key)` on object `origin` of `table`, which the
removal of `target` calls for each of `target`'s backlinks: the link is cleared and no
backlink is touched. A link list loses the entry `find_first(target_key)` finds (`npos`, the
list's length for `indexOf`, fails the `REALM_ASSERT`); a single link must hold `target`
(`REALM_ASSERT(key == target_key)`) and is set to null. `none` is a failed assertion. -/
def nullifyLink (s : Schema) (db : Db) (table column : Nat) (origin target : Int) : Option Db :=
  if s.columnType table column = .linkList then
    let ndx := (db.list table column origin).indexOf target
    if ndx < (db.list table column origin).length then
      some (db.setList table column origin ((db.list table column origin).eraseIdx ndx))
    else none
  else if db.link table column origin = target then some (db.setLink table column origin nullKey)
  else none

section

variable {s : Schema} {db : Db} {table column : Nat} {origin target : Int}

/-- Clearing a link and then dropping the origin from the target's backlinks is the link
change that only removes `target`. -/
theorem dropBacklink_setList (keys : List Int) :
    (db.setList table column origin keys).dropBacklink (s.oppositeTable table column)
        (s.oppositeColumn table column) origin (some target) =
      (db.moveBacklinks (s.oppositeTable table column) (s.oppositeColumn table column) origin
        (some target) none).setList table column origin keys :=
  rfl

theorem dropBacklink_setLink (key : Int) :
    (db.setLink table column origin key).dropBacklink (s.oppositeTable table column)
        (s.oppositeColumn table column) origin (some target) =
      (db.moveBacklinks (s.oppositeTable table column) (s.oppositeColumn table column) origin
        (some target) none).setLink table column origin key :=
  rfl

/-- In a consistent database, `nullify_link` called for an origin that a live target lists
among its backlinks passes its assertion, touches no backlink, and with the target's
`remove_one_backlink` of the origin makes the link change that only removes `target`. -/
theorem nullifyLink_linkChange (consistent : db.Consistent s) (ht : table ∈ s.tables)
    (hc : column ∈ s.columns table) (forward : s.columnType table column ≠ .backLink)
    (targetLive : target ∈ db.objects (s.oppositeTable table column))
    (listed : origin ∈
      db.backlinks (s.oppositeTable table column) (s.oppositeColumn table column) target) :
    ∃ db', nullifyLink s db table column origin target = some db' ∧
      LinkChange s db (db'.dropBacklink (s.oppositeTable table column)
        (s.oppositeColumn table column) origin (some target)) table column origin
        (some target) none ∧
      db'.backlinks = db.backlinks := by
  have counted := (consistent.inverse table ht column hc forward target targetLive).subset listed
  rw [← List.count_pos_iff, Db.count_origins] at counted
  have originLive := List.count_pos_iff.mp (Nat.pos_of_mul_pos_left (Nat.mul_comm _ _ ▸ counted))
  have leads := List.count_pos_iff.mp (Nat.pos_of_mul_pos_left counted)
  cases type : s.columnType table column
  case backLink => exact absurd type forward
  case linkList =>
    have mem : target ∈ db.list table column origin := by
      simpa [Db.read, type] using leads
    refine ⟨db.setList table column origin ((db.list table column origin).erase target),
      by simp [nullifyLink, type, List.indexOf_lt_length.mpr mem], ?_, rfl⟩
    rw [dropBacklink_setList]
    refine linkChange_setList ht hc type originLive
      (fun _ same => Option.mem_some_iff.mp same ▸ mem) (fun _ none => by cases none) ?_
    show (_ ++ [target]).Perm (_ ++ [])
    rw [List.append_nil]
    exact (List.perm_append_singleton _ _).trans (List.perm_cons_erase mem).symm
  case link =>
    have held : db.link table column origin = target ∧ target ≠ nullKey := by
      rw [read_of_link type, keyOption] at leads
      split_ifs at leads with null
      · simp at leads
      · have eq : target = db.link table column origin := by simpa using leads
        exact ⟨eq.symm, eq ▸ null⟩
    refine ⟨db.setLink table column origin nullKey, by simp [nullifyLink, type, held.1], ?_,
      rfl⟩
    have removed : keyOption (db.link table column origin) = some target := by
      rw [keyOption, if_neg (held.1 ▸ held.2), held.1]
    have change := linkChange_setLink ht hc type originLive
      (fun notNull => absurd rfl notNull : nullKey ≠ nullKey → nullKey ∈ db.objects _)
    rw [removed, keyOption, if_pos rfl] at change
    rw [dropBacklink_setLink]
    exact change

/-- In a consistent database, `nullify_link` called for an origin that a live target lists
among its backlinks passes its assertion. What it leaves, once the target drops that one
backlink (`remove_one_backlink`), is the link change that takes one `target` out of what the
origin's column leads to and changes nothing else, so it is consistent again; `nullify_link`
itself leaves every backlink as it was. -/
theorem nullifyLink_consistent (paired : s.Paired) (keys : db.KeysValid s)
    (consistent : db.Consistent s) (ht : table ∈ s.tables) (hc : column ∈ s.columns table)
    (forward : s.columnType table column ≠ .backLink)
    (targetLive : target ∈ db.objects (s.oppositeTable table column))
    (listed : origin ∈
      db.backlinks (s.oppositeTable table column) (s.oppositeColumn table column) target) :
    ∃ db', nullifyLink s db table column origin target = some db' ∧
      LinkChange s db (db'.dropBacklink (s.oppositeTable table column)
        (s.oppositeColumn table column) origin (some target)) table column origin
        (some target) none ∧
      (db'.dropBacklink (s.oppositeTable table column) (s.oppositeColumn table column) origin
        (some target)).Consistent s ∧
      db'.backlinks = db.backlinks := by
  obtain ⟨db', nullified, change, backlinks⟩ :=
    nullifyLink_linkChange consistent ht hc forward targetLive listed
  exact ⟨db', nullified, change, change.consistent paired (keys.nodup table ht) consistent,
    backlinks⟩

end

/-- Object 0 of table 0 lists object 0 of table 1: nullifying that entry passes the
assertion, and dropping the backlink leaves a consistent database. -/
theorem nullifyLink_consistent_oneListLink :
    ∃ db', nullifyLink listToTarget oneListLink 0 0 0 0 = some db' ∧
      LinkChange listToTarget oneListLink (db'.dropBacklink 1 0 0 (some 0)) 0 0 0 (some 0) none ∧
      (db'.dropBacklink 1 0 0 (some 0)).Consistent listToTarget ∧
      db'.backlinks = oneListLink.backlinks :=
  nullifyLink_consistent (by decide) (by decide) (by decide) (by decide) (by decide) (by decide)
    (by decide) (by decide)

end Links
end RealmCore
