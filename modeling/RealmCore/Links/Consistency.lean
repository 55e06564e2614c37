import RealmCore.Links.Backlinks

/-!
# The weak-link mutators keep backlinks the inverse of links

`Obj::set<ObjKey>` and the `Lst<ObjKey>` mutators change the links of one origin object
and, through `replace_backlink`, the backlinks of the targets involved. On a consistent
database each successful call is a `LinkChange`: the origin's column loses at most one key
and gains at most one key, and the origin leaves the backlinks of the first and joins
those of the second. `LinkChange.consistent` shows such a change keeps the database
consistent.

A call whose preconditions hold either throws before its first write or is a run of link
changes (`Call.linkSteps`), so every database reached by such calls is consistent
(`reaches_consistent`). The precondition of `do_set` that its target is an object is the
one `listDoSet_throws_inconsistent` breaks.
-/

namespace RealmCore
namespace Links

/-- `ObjKey::operator bool`: `null_key` stands for no object. -/
def keyOption (key : Int) : Option Int := if key = nullKey then none else some key

/-- A key occurs in an optional key once if it is that key. -/
@[simp] theorem count_toList (o : Option Int) (b : Int) :
    o.toList.count b = if o = some b then 1 else 0 := by
  cases o <;> simp [List.count_singleton]

namespace Db

@[simp] theorem setBacklinks_objects (db : Db) (table column : Nat) (key : Int) (keys : List Int) :
    (db.setBacklinks table column key keys).objects = db.objects := rfl

@[simp] theorem setBacklinks_link (db : Db) (table column : Nat) (key : Int) (keys : List Int) :
    (db.setBacklinks table column key keys).link = db.link := rfl

@[simp] theorem setBacklinks_list (db : Db) (table column : Nat) (key : Int) (keys : List Int) :
    (db.setBacklinks table column key keys).list = db.list := rfl

@[simp] theorem setLink_objects (db : Db) (table column : Nat) (key target : Int) :
    (db.setLink table column key target).objects = db.objects := rfl

@[simp] theorem setLink_list (db : Db) (table column : Nat) (key target : Int) :
    (db.setLink table column key target).list = db.list := rfl

@[simp] theorem setLink_backlinks (db : Db) (table column : Nat) (key target : Int) :
    (db.setLink table column key target).backlinks = db.backlinks := rfl

@[simp] theorem setList_objects (db : Db) (table column : Nat) (key : Int) (keys : List Int) :
    (db.setList table column key keys).objects = db.objects := rfl

@[simp] theorem setList_link (db : Db) (table column : Nat) (key : Int) (keys : List Int) :
    (db.setList table column key keys).link = db.link := rfl

@[simp] theorem setList_backlinks (db : Db) (table column : Nat) (key : Int) (keys : List Int) :
    (db.setList table column key keys).backlinks = db.backlinks := rfl

/-- The list just set reads back. -/
@[simp] theorem setList_list_self (db : Db) (table column : Nat) (key : Int) (keys : List Int) :
    (db.setList table column key keys).list table column key = keys := by
  simp [setList]

/-- Setting a list twice is setting it the second time. -/
@[simp] theorem setList_setList (db : Db) (table column : Nat) (key : Int) (keys keys' : List Int) :
    (db.setList table column key keys).setList table column key keys' =
      db.setList table column key keys' := by
  simp only [setList]
  congr 1
  funext t c k
  split_ifs <;> rfl

/-! ## Moving one backlink -/

/-- `remove_one_backlink` of `origin` from the backlinks of `removed`, if it is a key. -/
def dropBacklink (db : Db) (table column : Nat) (origin : Int) : Option Int → Db
  | some old => db.setBacklinks table column old ((db.backlinks table column old).erase origin)
  | none => db

/-- `add_backlink` of `origin` to the backlinks of `added`, if it is a key. -/
def pushBacklink (db : Db) (table column : Nat) (origin : Int) : Option Int → Db
  | some new => db.setBacklinks table column new (db.backlinks table column new ++ [origin])
  | none => db

/-- What `replace_backlink` leaves when both of its lookups succeed. -/
def moveBacklinks (db : Db) (table column : Nat) (origin : Int) (removed added : Option Int) : Db :=
  (db.dropBacklink table column origin removed).pushBacklink table column origin added

@[simp] theorem dropBacklink_objects (db : Db) (table column : Nat) (origin : Int)
    (removed : Option Int) :
    (db.dropBacklink table column origin removed).objects = db.objects := by
  cases removed <;> rfl

@[simp] theorem dropBacklink_link (db : Db) (table column : Nat) (origin : Int)
    (removed : Option Int) : (db.dropBacklink table column origin removed).link = db.link := by
  cases removed <;> rfl

@[simp] theorem dropBacklink_list (db : Db) (table column : Nat) (origin : Int)
    (removed : Option Int) : (db.dropBacklink table column origin removed).list = db.list := by
  cases removed <;> rfl

@[simp] theorem pushBacklink_objects (db : Db) (table column : Nat) (origin : Int)
    (added : Option Int) : (db.pushBacklink table column origin added).objects = db.objects := by
  cases added <;> rfl

@[simp] theorem pushBacklink_link (db : Db) (table column : Nat) (origin : Int)
    (added : Option Int) : (db.pushBacklink table column origin added).link = db.link := by
  cases added <;> rfl

@[simp] theorem pushBacklink_list (db : Db) (table column : Nat) (origin : Int)
    (added : Option Int) : (db.pushBacklink table column origin added).list = db.list := by
  cases added <;> rfl

section

variable (db : Db) {table column : Nat} (origin : Int) (removed added : Option Int)

/-- `replace_backlink` on one column leaves the backlinks of every other column as they
were. -/
theorem moveBacklinks_of_ne {t c : Nat} (other : t ≠ table ∨ c ≠ column) :
    (db.moveBacklinks table column origin removed added).backlinks t c = db.backlinks t c := by
  have miss : ∀ k k' : Int, ¬(t = table ∧ c = column ∧ k = k') := fun _ _ here =>
    other.elim (· here.1) (· here.2.1)
  funext k
  cases removed <;> cases added <;>
    simp [moveBacklinks, dropBacklink, pushBacklink, setBacklinks, miss]

/-- Removing a backlink adds no key to any list of backlinks. -/
theorem mem_dropBacklink {t c : Nat} {k x : Int}
    (mem : x ∈ (db.dropBacklink table column origin removed).backlinks t c k) :
    x ∈ db.backlinks t c k := by
  cases removed with
  | none => exact mem
  | some old =>
    simp only [dropBacklink, setBacklinks] at mem
    split_ifs at mem with here
    · obtain ⟨rfl, rfl, rfl⟩ := here
      exact List.mem_of_mem_erase mem
    · exact mem

/-- Adding a backlink adds only `origin`, and only at the column it works on. -/
theorem mem_pushBacklink {t c : Nat} {k x : Int}
    (mem : x ∈ (db.pushBacklink table column origin added).backlinks t c k) :
    x ∈ db.backlinks t c k ∨ (x = origin ∧ t = table ∧ c = column) := by
  cases added with
  | none => exact .inl mem
  | some new =>
    simp only [pushBacklink, setBacklinks] at mem
    split_ifs at mem with here
    · obtain ⟨rfl, rfl, rfl⟩ := here
      rcases List.mem_append.mp mem with old | new
      · exact .inl old
      · exact .inr ⟨List.mem_singleton.mp new, rfl, rfl⟩
    · exact .inl mem

/-- `replace_backlink` adds only `origin`, and only at the column it works on. -/
theorem mem_moveBacklinks {t c : Nat} {k x : Int}
    (mem : x ∈ (db.moveBacklinks table column origin removed added).backlinks t c k) :
    x ∈ db.backlinks t c k ∨ (x = origin ∧ t = table ∧ c = column) :=
  (mem_pushBacklink _ origin added mem).imp_left (mem_dropBacklink db origin removed)

/-- `remove_one_backlink` takes one `origin` from the backlinks of `removed`, where the
origin is. -/
theorem count_dropBacklink
    (present : ∀ old ∈ removed, origin ∈ db.backlinks table column old) (k x : Int) :
    ((db.dropBacklink table column origin removed).backlinks table column k).count x +
        (if x = origin ∧ removed = some k then 1 else 0) =
      (db.backlinks table column k).count x := by
  cases removed with
  | none => simp [dropBacklink]
  | some old =>
    have pos := List.count_pos_iff.mpr (present old rfl)
    simp only [dropBacklink, setBacklinks, true_and, Option.some.injEq]
    by_cases here : k = old
    · subst here
      by_cases self : x = origin
      · subst self
        simp only [if_true, and_self, List.count_erase_self]
        omega
      · simp [self, List.count_erase, Ne.symm self]
    · simp [here, Ne.symm here]

/-- `add_backlink` gives one `origin` to the backlinks of `added`. -/
theorem count_pushBacklink (k x : Int) :
    ((db.pushBacklink table column origin added).backlinks table column k).count x =
      (db.backlinks table column k).count x + (if x = origin ∧ added = some k then 1 else 0) := by
  cases added with
  | none => simp [pushBacklink]
  | some new =>
    simp only [pushBacklink, setBacklinks, true_and, Option.some.injEq]
    by_cases here : k = new
    · subst here
      by_cases self : x = origin
      · subst self
        simp [List.count_singleton]
      · simp [List.count_singleton, self, Ne.symm self]
    · simp [here, Ne.symm here]

/-- At the column it works on, `replace_backlink` takes one `origin` from the backlinks of
`removed` and gives one to those of `added`. -/
theorem count_moveBacklinks
    (present : ∀ old ∈ removed, origin ∈ db.backlinks table column old) (k x : Int) :
    ((db.moveBacklinks table column origin removed added).backlinks table column k).count x +
        (if x = origin ∧ removed = some k then 1 else 0) =
      (db.backlinks table column k).count x + (if x = origin ∧ added = some k then 1 else 0) := by
  rw [moveBacklinks, count_pushBacklink, ← count_dropBacklink db origin removed present k x]
  omega

end

/-! ## Origins counted -/

/-- An origin is counted once for each time its column leads to `b`. -/
theorem count_origins (s : Schema) (db : Db) (t c : Nat) (b x : Int) :
    (db.origins s t c b).count x = (db.objects t).count x * (db.read (s.hop t c) x).count b := by
  unfold origins
  induction db.objects t with
  | nil => simp
  | cons a rest ih =>
    rw [List.flatMap_cons, List.count_append, ih, List.count_replicate, List.count_cons]
    by_cases same : a = x
    · subst same
      simp [Nat.add_mul, Nat.add_comm]
    · simp [same]

/-- A live object whose column leads to `b` is an origin of `b`. -/
theorem mem_origins {s : Schema} {db : Db} {t c : Nat} {a b : Int} (live : a ∈ db.objects t)
    (leads : b ∈ db.read (s.hop t c) a) : a ∈ db.origins s t c b := by
  rw [← List.count_pos_iff, count_origins]
  exact Nat.mul_pos (List.count_pos_iff.mpr live) (List.count_pos_iff.mpr leads)

/-- The origins of `b` depend only on the objects and on what the column reads. -/
theorem origins_congr {s : Schema} {db db' : Db} {t c : Nat} (objects : db'.objects = db.objects)
    (reads : ∀ a, db'.read (s.hop t c) a = db.read (s.hop t c) a) (b : Int) :
    db'.origins s t c b = db.origins s t c b := by
  simp only [origins, objects, reads]

end Db

/-! ## One link change -/

/-- `db'` is `db` after one link change: the forward column `column` of object `origin` of
`table` lost the key `removed` and gained the key `added`, the origin left the backlinks
of `removed` and joined those of `added`, and nothing else changed. -/
structure LinkChange (s : Schema) (db db' : Db) (table column : Nat) (origin : Int)
    (removed added : Option Int) : Prop where
  table_mem : table ∈ s.tables
  column_mem : column ∈ s.columns table
  forward : s.columnType table column ≠ .backLink
  origin_live : origin ∈ db.objects table
  removed_mem : ∀ old ∈ removed, old ∈ db.read (s.hop table column) origin
  added_live : ∀ new ∈ added, new ∈ db.objects (s.oppositeTable table column)
  objects : db'.objects = db.objects
  others : ∀ t c a, s.columnType t c ≠ .backLink → (t ≠ table ∨ c ≠ column ∨ a ≠ origin) →
    db'.read (s.hop t c) a = db.read (s.hop t c) a
  moved : (db'.read (s.hop table column) origin ++ removed.toList).Perm
    (db.read (s.hop table column) origin ++ added.toList)
  backlinks : db'.backlinks = (db.moveBacklinks (s.oppositeTable table column)
    (s.oppositeColumn table column) origin removed added).backlinks

/-- The keys of a database: unique in each table, and never `null_key`. -/
structure Db.KeysValid (s : Schema) (db : Db) : Prop where
  nodup : ∀ t ∈ s.tables, (db.objects t).Nodup
  not_null : ∀ t ∈ s.tables, nullKey ∉ db.objects t

instance (s : Schema) (db : Db) : Decidable (db.KeysValid s) :=
  decidable_of_iff (_ ∧ _) ⟨fun ⟨a, b⟩ => ⟨a, b⟩, fun ⟨a, b⟩ => ⟨a, b⟩⟩

section

variable {s : Schema} {db db' : Db} {table column : Nat} {origin : Int}
  {removed added : Option Int}

/-- Two forward... columns with one opposite column are one column. -/
theorem Schema.Paired.eq_of_opposite (paired : s.Paired) {t c t' c' : Nat} (ht : t ∈ s.tables)
    (hc : c ∈ s.columns t) (ht' : t' ∈ s.tables) (hc' : c' ∈ s.columns t')
    (same : s.oppositeTable t c = s.oppositeTable t' c' ∧
      s.oppositeColumn t c = s.oppositeColumn t' c') : t = t' ∧ c = c' := by
  have back := paired.opposite_opposite t ht c hc
  have back' := paired.opposite_opposite t' ht' c' hc'
  rw [same.1, same.2] at back
  exact ⟨back.1.symm.trans back'.1, back.2.symm.trans back'.2⟩

/-- Links still lead to live objects: the origin's new key is an object, and the origin is
the one key a backlink column gains. -/
theorem LinkChange.linksLive (paired : s.Paired) (consistent : db.Consistent s)
    (change : LinkChange s db db' table column origin removed added) : db'.LinksLive s := by
  intro t ht c hc a ha k hk
  rw [change.objects] at ha ⊢
  by_cases backLink : s.columnType t c = .backLink
  · simp only [Db.read, Schema.hop_type, backLink, Schema.hop_table, Schema.hop_column,
      change.backlinks] at hk
    rcases Db.mem_moveBacklinks db origin removed added hk with old | ⟨rfl, rfl, rfl⟩
    · exact consistent.live t ht c hc a ha k (by simpa [Db.read, backLink] using old)
    · rw [(paired.opposite_opposite table change.table_mem column change.column_mem).1]
      exact change.origin_live
  · by_cases here : t = table ∧ c = column ∧ a = origin
    · obtain ⟨rfl, rfl, rfl⟩ := here
      rcases List.mem_append.mp (change.moved.subset (List.mem_append_left _ hk)) with old | new
      · exact consistent.live t ht c hc a ha k old
      · exact change.added_live k (by simpa using new)
    · rw [change.others t c a backLink ((not_and_or.mp here).imp_right not_and_or.mp)] at hk
      exact consistent.live t ht c hc a ha k hk

/-- The origin is among the backlinks of the key its column loses. -/
theorem LinkChange.present (consistent : db.Consistent s)
    (change : LinkChange s db db' table column origin removed added) :
    ∀ old ∈ removed, origin ∈ db.backlinks (s.oppositeTable table column)
      (s.oppositeColumn table column) old := fun old mem =>
  (consistent.inverse table change.table_mem column change.column_mem change.forward old
    (consistent.live table change.table_mem column change.column_mem origin
      change.origin_live old (change.removed_mem old mem))).symm.subset
    (Db.mem_origins change.origin_live (change.removed_mem old mem))

/-- The changed column's backlinks stay its inverse: only the origin's count moves, by one
for the key lost and one for the key gained, on both sides. -/
theorem LinkChange.inverse_self (nodup : (db.objects table).Nodup) (consistent : db.Consistent s)
    (change : LinkChange s db db' table column origin removed added) {b : Int}
    (live : b ∈ db.objects (s.oppositeTable table column)) :
    (db'.backlinks (s.oppositeTable table column) (s.oppositeColumn table column) b).Perm
      (db'.origins s table column b) := by
  rw [List.perm_iff_count]
  intro x
  have before := List.perm_iff_count.mp (consistent.inverse table change.table_mem column
    change.column_mem change.forward b live) x
  have moves := Db.count_moveBacklinks db origin removed added (change.present consistent) b x
  rw [Db.count_origins] at before ⊢
  rw [change.backlinks, change.objects]
  by_cases atOrigin : x = origin
  · subst atOrigin
    have once : (db.objects table).count x = 1 := List.count_eq_one_of_mem nodup change.origin_live
    have counts := List.perm_iff_count.mp change.moved b
    simp only [List.count_append, count_toList] at counts
    simp only [true_and] at moves
    rw [once] at before ⊢
    split_ifs at moves counts <;> omega
  · simp only [atOrigin, false_and, if_false, add_zero] at moves
    rw [moves, before, change.others table column x change.forward (.inr (.inr atOrigin))]

/-- One link change keeps a consistent database consistent. -/
theorem LinkChange.consistent (paired : s.Paired) (nodup : (db.objects table).Nodup)
    (consistent : db.Consistent s)
    (change : LinkChange s db db' table column origin removed added) : db'.Consistent s := by
  refine ⟨change.linksLive paired consistent, fun t ht c hc forward b hb => ?_⟩
  rw [change.objects] at hb
  by_cases same : t = table ∧ c = column
  · obtain ⟨rfl, rfl⟩ := same
    exact change.inverse_self nodup consistent hb
  · -- Another forward column: its backlink column is another column, and nothing changed.
    have apart : s.oppositeTable t c ≠ s.oppositeTable table column ∨
        s.oppositeColumn t c ≠ s.oppositeColumn table column := by
      by_contra both
      push_neg at both
      exact same (paired.eq_of_opposite ht hc change.table_mem change.column_mem both)
    rw [change.backlinks, Db.moveBacklinks_of_ne db origin removed added apart,
      Db.origins_congr change.objects fun a =>
        change.others t c a forward ((not_and_or.mp same).imp_right .inl)]
    exact consistent.inverse t ht c hc forward b hb

end

/-! ## Runs of link changes -/

/-- `db'` is reached from `db` by link changes. -/
def LinkSteps (s : Schema) : Db → Db → Prop :=
  Relation.ReflTransGen fun db db' =>
    ∃ table column origin removed added, LinkChange s db db' table column origin removed added

/-- A run of link changes keeps a consistent database consistent, and its objects. -/
theorem LinkSteps.consistent {s : Schema} {db db' : Db} (paired : s.Paired)
    (keys : db.KeysValid s) (consistent : db.Consistent s) (steps : LinkSteps s db db') :
    db'.Consistent s ∧ db'.objects = db.objects := by
  induction steps with
  | refl => exact ⟨consistent, rfl⟩
  | tail _ step ih =>
    obtain ⟨table, column, origin, removed, added, change⟩ := step
    refine ⟨change.consistent paired ?_ ih.1, change.objects.trans ih.2⟩
    rw [ih.2]
    exact keys.nodup table change.table_mem

/-- `db'` is reached from `db` by link changes, each of a column `c` of an object `a` of a
table `t` with `P t c a`. -/
def StepsWithin (s : Schema) (P : Nat → Nat → Int → Prop) : Db → Db → Prop :=
  Relation.ReflTransGen fun db db' =>
    ∃ t c a removed added, P t c a ∧ LinkChange s db db' t c a removed added

namespace StepsWithin

variable {s : Schema} {P Q : Nat → Nat → Int → Prop} {db db' : Db}

/-- One link change inside `P` is a run inside `P`. -/
theorem single {t c : Nat} {a : Int} {removed added : Option Int} (inside : P t c a)
    (change : LinkChange s db db' t c a removed added) : StepsWithin s P db db' :=
  .single ⟨t, c, a, removed, added, inside, change⟩

/-- A run inside `P` is a run inside every predicate that `P` implies. -/
theorem mono (steps : StepsWithin s P db db') (imp : ∀ t c a, P t c a → Q t c a) :
    StepsWithin s Q db db' :=
  Relation.ReflTransGen.mono (fun _ _ ⟨t, c, a, removed, added, inside, change⟩ =>
    ⟨t, c, a, removed, added, imp t c a inside, change⟩) steps

/-- A run inside `P` is a run of link changes. -/
theorem linkSteps (steps : StepsWithin s P db db') : LinkSteps s db db' :=
  Relation.ReflTransGen.mono (fun _ _ ⟨t, c, a, removed, added, _, change⟩ =>
    ⟨t, c, a, removed, added, change⟩) steps

/-- A run of link changes keeps the objects. -/
theorem objects (steps : StepsWithin s P db db') : db'.objects = db.objects := by
  induction steps with
  | refl => rfl
  | tail _ step ih =>
    obtain ⟨_, _, _, _, _, _, change⟩ := step
    exact change.objects.trans ih

/-- A forward column of an object outside `P` reads as before. -/
theorem read_eq (steps : StepsWithin s P db db') {t c : Nat} {a : Int}
    (forward : s.columnType t c ≠ .backLink) (outside : ¬P t c a) :
    db'.read (s.hop t c) a = db.read (s.hop t c) a := by
  induction steps with
  | refl => rfl
  | tail _ step ih =>
    obtain ⟨t', c', a', _, _, inside, change⟩ := step
    have apart : t ≠ t' ∨ c ≠ c' ∨ a ≠ a' := by
      by_contra same
      simp only [not_or, not_not] at same
      obtain ⟨rfl, rfl, rfl⟩ := same
      exact outside inside
    rw [change.others t c a forward apart, ih]

end StepsWithin

/-! ## Running the mutators -/

section

variable {ε σ α β : Type}

@[simp] theorem run_pure (a : α) (s : σ) : (pure a : EStateM ε σ α).run s = .ok a s := rfl

@[simp] theorem run_throw (e : ε) (s : σ) : (throw e : EStateM ε σ α).run s = .error e s := rfl

@[simp] theorem run_modify (f : σ → σ) (s : σ) :
    (modify f : EStateM ε σ PUnit).run s = .ok () (f s) := rfl

@[simp] theorem run_pure_bind (a : α) (f : α → EStateM ε σ β) (s : σ) :
    ((pure a : EStateM ε σ α) >>= f).run s = (f a).run s := rfl

@[simp] theorem run_throw_bind (e : ε) (f : α → EStateM ε σ β) (s : σ) :
    ((throw e : EStateM ε σ α) >>= f).run s = .error e s := rfl

@[simp] theorem run_get_bind (f : σ → EStateM ε σ β) (s : σ) :
    ((get : EStateM ε σ σ) >>= f).run s = (f s).run s := rfl

/-- A bind whose first part returns runs its second part from there. -/
theorem run_bind_of_ok {x : EStateM ε σ α} {f : α → EStateM ε σ β} {s s' : σ} {a : α}
    (first : x.run s = .ok a s') : (x >>= f).run s = (f a).run s' := by
  show (match x s with | .ok a s => f a s | .error e s => .error e s) = _
  rw [show x s = .ok a s' from first]
  rfl

/-- A bind whose first part throws throws the same, from the same state. -/
theorem run_bind_of_error {x : EStateM ε σ α} {f : α → EStateM ε σ β} {s s' : σ} {e : ε}
    (first : x.run s = .error e s') : (x >>= f).run s = .error e s' := by
  show (match x s with | .ok a s => f a s | .error e s => .error e s) = _
  rw [show x s = .error e s' from first]

/-- A bind that returns ran its first part to a return. -/
theorem ok_of_run_bind {x : EStateM ε σ α} {f : α → EStateM ε σ β} {s s' : σ} {b : β}
    (ran : (x >>= f).run s = .ok b s') : ∃ a s₁, x.run s = .ok a s₁ ∧ (f a).run s₁ = .ok b s' := by
  revert ran
  show (match x s with | .ok a s => f a s | .error e s => .error e s) = _ → _
  cases first : x s with
  | ok a s₁ => exact fun ran => ⟨a, s₁, first, ran⟩
  | error e s₁ => exact fun ran => nomatch ran

/-- Two binds with the same first part run alike when their second parts do. -/
theorem run_bind_congr (x : EStateM ε σ α) {f g : α → EStateM ε σ β}
    (same : ∀ a s, (f a).run s = (g a).run s) (s : σ) : (x >>= f).run s = (x >>= g).run s := by
  show (match x s with | .ok a s => f a s | .error e s => .error e s) =
    (match x s with | .ok a s => g a s | .error e s => .error e s)
  cases x s with
  | ok a s₁ => exact same a s₁
  | error e s₁ => rfl

end

/-- The database a call leaves, whether it returned or threw. -/
def stateAfter (x : EStateM LogicError Db Unit) (db : Db) : Db :=
  match x.run db with
  | .ok _ after => after
  | .error _ after => after

/-- The database after a call that returned is the one it returned with. -/
theorem stateAfter_of_ok {x : EStateM LogicError Db Unit} {db after : Db}
    (ran : x.run db = .ok () after) : stateAfter x db = after := by
  simp [stateAfter, ran]

/-- The database after a call that threw is the one it threw with. -/
theorem stateAfter_of_error {x : EStateM LogicError Db Unit} {db after : Db} {e : LogicError}
    (threw : x.run db = .error e after) : stateAfter x db = after := by
  simp [stateAfter, threw]

section

variable {s : Schema} {db : Db} {table column : Nat} {origin : Int}

/-- `get_object` of a live key returns and changes nothing. -/
theorem getObject_run_of_mem {key : Int} (live : key ∈ db.objects table) :
    (getObject table key).run db = .ok () db := by
  show (if key ∈ db.objects table then pure () else throw .keyNotFound :
    EStateM LogicError Db Unit).run db = _
  rw [if_pos live]
  rfl

/-- `get_object` of a key that is no object throws `KeyNotFound`. -/
theorem getObject_run_of_not_mem {key : Int} (dead : key ∉ db.objects table) :
    (getObject table key).run db = .error .keyNotFound db := by
  show (if key ∈ db.objects table then pure () else throw .keyNotFound :
    EStateM LogicError Db Unit).run db = _
  rw [if_neg dead]
  rfl

/-- `remove_backlink` to a null or live key drops the origin from that key's
backlinks. -/
theorem removeBacklink_run {old : Int}
    (live : old ≠ nullKey → old ∈ db.objects (s.oppositeTable table column)) :
    (removeBacklink s table column origin old).run db = .ok ()
      (db.dropBacklink (s.oppositeTable table column) (s.oppositeColumn table column) origin
        (keyOption old)) := by
  unfold removeBacklink keyOption
  by_cases null : old = nullKey
  · simp [null, Db.dropBacklink]
  · rw [if_pos null, run_bind_of_ok (getObject_run_of_mem (live null)), if_neg null]
    rfl

/-- `set_backlink` to a null or live key adds the origin to that key's backlinks. -/
theorem setBacklink_run {new : Int}
    (live : new ≠ nullKey → new ∈ db.objects (s.oppositeTable table column)) :
    (setBacklink s table column origin new).run db = .ok ()
      (db.pushBacklink (s.oppositeTable table column) (s.oppositeColumn table column) origin
        (keyOption new)) := by
  unfold setBacklink keyOption
  by_cases null : new = nullKey
  · simp [null, Db.pushBacklink]
  · rw [if_pos null, run_bind_of_ok (getObject_run_of_mem (live null)), if_neg null]
    rfl

/-- `set_backlink` to a key that is no object throws `KeyNotFound` before any write. -/
theorem setBacklink_run_of_dead {new : Int} (notNull : new ≠ nullKey)
    (dead : new ∉ db.objects (s.oppositeTable table column)) :
    (setBacklink s table column origin new).run db = .error .keyNotFound db := by
  unfold setBacklink
  rw [if_pos notNull, run_bind_of_error (getObject_run_of_not_mem dead)]

/-- `replace_backlink` between null or live keys moves the origin's backlink from the old
key to the new. -/
theorem replaceBacklink_run {old new : Int}
    (oldLive : old ≠ nullKey → old ∈ db.objects (s.oppositeTable table column))
    (newLive : new ≠ nullKey → new ∈ db.objects (s.oppositeTable table column)) :
    (replaceBacklink s table column origin old new).run db = .ok ()
      (db.moveBacklinks (s.oppositeTable table column) (s.oppositeColumn table column) origin
        (keyOption old) (keyOption new)) := by
  unfold replaceBacklink
  rw [run_bind_of_ok (removeBacklink_run oldLive), setBacklink_run (by simpa using newLive)]
  rfl

/-- `get(ndx)` of an entry of the list returns it. -/
theorem listGet_run {ndx : Nat} {key : Int}
    (entry : (db.list table column origin)[ndx]? = some key) :
    (listGet table column origin ndx).run db = .ok key db := by
  simp [listGet, entry]

/-- `get(ndx)` past the end of the list throws. -/
theorem listGet_run_of_none {ndx : Nat} (past : (db.list table column origin)[ndx]? = none) :
    (listGet table column origin ndx).run db = .error .indexOutOfRange db := by
  simp [listGet, past]

end

/-! ## Each mutator is a link change -/

section

variable {s : Schema} {db : Db} {table column : Nat} {origin : Int}

@[simp] theorem moveBacklinks_objects (T C : Nat) (removed added : Option Int) :
    (db.moveBacklinks T C origin removed added).objects = db.objects := by
  simp [Db.moveBacklinks]

@[simp] theorem moveBacklinks_link (T C : Nat) (removed added : Option Int) :
    (db.moveBacklinks T C origin removed added).link = db.link := by
  simp [Db.moveBacklinks]

@[simp] theorem moveBacklinks_list (T C : Nat) (removed added : Option Int) :
    (db.moveBacklinks T C origin removed added).list = db.list := by
  simp [Db.moveBacklinks]

/-- Valid keys stay valid while the objects stay the same. -/
theorem Db.KeysValid.of_objects {db' : Db} (keys : db.KeysValid s)
    (same : db'.objects = db.objects) : db'.KeysValid s :=
  ⟨same ▸ keys.nodup, same ▸ keys.not_null⟩

/-- A single link reads as the key it holds, if that is not `null_key`. -/
theorem read_of_link (linkType : s.columnType table column = .link) (key : Int) :
    db.read (s.hop table column) key = (keyOption (db.link table column key)).toList := by
  unfold Db.read keyOption
  simp only [Schema.hop_type, linkType, Schema.hop_table, Schema.hop_column]
  split_ifs <;> rfl

/-- `Obj::set<ObjKey>` past its checks: `replace_backlink`, then the leaf write. -/
theorem linkChange_setLink (ht : table ∈ s.tables) (hc : column ∈ s.columns table)
    (linkType : s.columnType table column = .link) (originLive : origin ∈ db.objects table)
    {target : Int}
    (targetLive : target ≠ nullKey → target ∈ db.objects (s.oppositeTable table column)) :
    LinkChange s db ((db.moveBacklinks (s.oppositeTable table column)
        (s.oppositeColumn table column) origin (keyOption (db.link table column origin))
        (keyOption target)).setLink table column origin target)
      table column origin (keyOption (db.link table column origin)) (keyOption target) where
  table_mem := ht
  column_mem := hc
  forward := by simp [linkType]
  origin_live := originLive
  removed_mem old mem := by simpa [read_of_link linkType] using mem
  added_live new mem := by
    unfold keyOption at mem
    split_ifs at mem with null
    · simp at mem
    · exact Option.mem_some_iff.mp mem ▸ targetLive null
  objects := by simp
  others t c a forward other := by
    have miss : ¬(t = table ∧ c = column ∧ a = origin) := fun ⟨t', c', a'⟩ =>
      other.elim (· t') (·.elim (· c') (· a'))
    unfold Db.read
    split
    · simp [Db.setLink, miss]
    · simp [Db.setLink, miss]
    · next backLink => exact absurd backLink forward
  moved := by
    rw [read_of_link linkType, read_of_link linkType]
    simpa [Db.setLink] using List.perm_append_comm
  backlinks := rfl

/-- A `Lst<ObjKey>` mutator past its lookups: `replace_backlink` (or half of it), then the
tree write. -/
theorem linkChange_setList (ht : table ∈ s.tables) (hc : column ∈ s.columns table)
    (listType : s.columnType table column = .linkList) (originLive : origin ∈ db.objects table)
    {removed added : Option Int}
    (removedMem : ∀ old ∈ removed, old ∈ db.list table column origin)
    (addedLive : ∀ new ∈ added, new ∈ db.objects (s.oppositeTable table column))
    {keys : List Int}
    (moved : (keys ++ removed.toList).Perm (db.list table column origin ++ added.toList)) :
    LinkChange s db ((db.moveBacklinks (s.oppositeTable table column)
        (s.oppositeColumn table column) origin removed added).setList table column origin keys)
      table column origin removed added where
  table_mem := ht
  column_mem := hc
  forward := by simp [listType]
  origin_live := originLive
  removed_mem := by simpa [Db.read, listType] using removedMem
  added_live := addedLive
  objects := by simp
  others t c a forward other := by
    have miss : ¬(t = table ∧ c = column ∧ a = origin) := fun ⟨t', c', a'⟩ =>
      other.elim (· t') (·.elim (· c') (· a'))
    unfold Db.read
    split
    · simp [Db.setList, miss]
    · simp [Db.setList, miss]
    · next backLink => exact absurd backLink forward
  moved := by simpa [Db.read, listType, Db.setList] using moved
  backlinks := rfl

end

/-! ## The mutators from a consistent database -/

section

variable {s : Schema} {db : Db} {table column : Nat} {origin : Int}

/-- After a bind whose first part returned, the database is the one its second part
leaves. -/
theorem stateAfter_bind_of_ok {x : EStateM LogicError Db Unit}
    {f : Unit → EStateM LogicError Db Unit} {after : Db} (first : x.run db = .ok () after) :
    stateAfter (x >>= f) db = stateAfter (f ()) after := by
  simp [stateAfter, run_bind_of_ok first]

/-- The targets a consistent database links to are objects, and so not `null_key`. -/
theorem read_live (paired : s.Paired) (keys : db.KeysValid s) (consistent : db.Consistent s)
    (ht : table ∈ s.tables) (hc : column ∈ s.columns table)
    (originLive : origin ∈ db.objects table) {old : Int}
    (mem : old ∈ db.read (s.hop table column) origin) :
    old ∈ db.objects (s.oppositeTable table column) ∧ old ≠ nullKey := by
  have live := consistent.live table ht column hc origin originLive old mem
  exact ⟨live, fun null =>
    keys.not_null _ (paired.opposite_mem table ht column hc).1 (null ▸ live)⟩

/-- `Obj::set<ObjKey>`: the two checks, then `replace_backlink` and the leaf write unless
the target is the key already there. -/
theorem setObjKey_run (target : Int) :
    (setObjKey s table column origin target).run db =
      if s.columnType table column ≠ .link then .error .illegalType db
      else if target ≠ nullKey ∧ target ∉ db.objects (s.oppositeTable table column) then
        .error .targetRowIndexOutOfRange db
      else if target ≠ db.link table column origin then
        (replaceBacklink s table column origin (db.link table column origin) target >>= fun _ =>
          modify fun db => db.setLink table column origin target).run db
      else .ok () db := by
  unfold setObjKey
  split_ifs with wrong dead moved
  · rfl
  · simp [dead]
  · simp [dead, moved]
  · simp only [not_not] at moved
    subst moved
    simp [dead]

/-- `set<ObjKey>` on a live origin of a consistent database, returned or thrown, is a run of
link changes. -/
theorem setObjKey_linkSteps (consistent : db.Consistent s) (ht : table ∈ s.tables)
    (hc : column ∈ s.columns table) (originLive : origin ∈ db.objects table) (target : Int) :
    LinkSteps s db (stateAfter (setObjKey s table column origin target) db) := by
  unfold stateAfter
  rw [setObjKey_run]
  split_ifs with wrong dead moved
  · exact .refl
  · exact .refl
  · have linkType := not_not.mp wrong
    have oldLive : db.link table column origin ≠ nullKey →
        db.link table column origin ∈ db.objects (s.oppositeTable table column) := fun notNull =>
      consistent.live table ht column hc origin originLive _ (by simp [Db.read, linkType, notNull])
    have newLive : target ≠ nullKey → target ∈ db.objects (s.oppositeTable table column) :=
      fun notNull => not_not.mp fun dead' => dead ⟨notNull, dead'⟩
    rw [run_bind_of_ok (replaceBacklink_run oldLive newLive)]
    exact .single ⟨_, _, _, _, _, linkChange_setLink ht hc linkType originLive newLive⟩
  · exact .refl

/-! ### `Lst<ObjKey>` -/

section

variable {ndx : Nat} {old target : Int}

/-- `do_insert` of a live key records the backlink and inserts the entry. -/
theorem listDoInsert_run (live : target ∈ db.objects (s.oppositeTable table column))
    (notNull : target ≠ nullKey) :
    (listDoInsert s table column origin ndx target).run db = .ok ()
      ((db.moveBacklinks (s.oppositeTable table column) (s.oppositeColumn table column) origin
        none (some target)).setList table column origin
          ((db.list table column origin).insertIdx ndx target)) := by
  unfold listDoInsert
  rw [run_bind_of_ok (setBacklink_run fun _ => live)]
  simp [keyOption, notNull]
  rfl

/-- `do_insert` of a key that is no object throws `KeyNotFound` before any write. -/
theorem listDoInsert_run_of_dead (notNull : target ≠ nullKey)
    (dead : target ∉ db.objects (s.oppositeTable table column)) :
    (listDoInsert s table column origin ndx target).run db = .error .keyNotFound db :=
  run_bind_of_error (setBacklink_run_of_dead notNull dead)

/-- `do_remove` of an entry drops its backlink and erases the entry. -/
theorem listDoRemove_run (entry : (db.list table column origin)[ndx]? = some old)
    (live : old ∈ db.objects (s.oppositeTable table column)) (notNull : old ≠ nullKey) :
    (listDoRemove s table column origin ndx).run db = .ok ()
      ((db.moveBacklinks (s.oppositeTable table column) (s.oppositeColumn table column) origin
        (some old) none).setList table column origin
          ((db.list table column origin).eraseIdx ndx)) := by
  unfold listDoRemove
  rw [run_bind_of_ok (listGet_run entry), run_bind_of_ok (removeBacklink_run fun _ => live)]
  simp [keyOption, notNull]
  rfl

/-- `do_remove` past the end of the list throws before any write. -/
theorem listDoRemove_run_of_none (past : (db.list table column origin)[ndx]? = none) :
    (listDoRemove s table column origin ndx).run db = .error .indexOutOfRange db :=
  run_bind_of_error (listGet_run_of_none past)

/-- `do_set` of an entry moves its backlink to the new key and overwrites the entry. -/
theorem listDoSet_run (entry : (db.list table column origin)[ndx]? = some old)
    (oldLive : old ≠ nullKey → old ∈ db.objects (s.oppositeTable table column))
    (newLive : target ≠ nullKey → target ∈ db.objects (s.oppositeTable table column)) :
    (listDoSet s table column origin ndx target).run db = .ok ()
      ((db.moveBacklinks (s.oppositeTable table column) (s.oppositeColumn table column) origin
        (keyOption old) (keyOption target)).setList table column origin
          ((db.list table column origin).set ndx target)) := by
  unfold listDoSet
  rw [run_bind_of_ok (listGet_run entry), run_bind_of_ok (replaceBacklink_run oldLive newLive)]
  simp

/-- `do_set` past the end of the list throws before any write. -/
theorem listDoSet_run_of_none (past : (db.list table column origin)[ndx]? = none) :
    (listDoSet s table column origin ndx target).run db = .error .indexOutOfRange db :=
  run_bind_of_error (listGet_run_of_none past)

end

/-- Erasing the entry `ndx` of a list takes one `old` out of it. -/
theorem eraseIdx_perm {keys : List Int} {ndx : Nat} {old : Int} (entry : keys[ndx]? = some old) :
    (keys.eraseIdx ndx ++ [old]).Perm keys := by
  obtain ⟨lt, rfl⟩ := List.getElem?_eq_some_iff.mp entry
  exact (List.perm_append_singleton _ _).trans
    (((List.erase_getElem lt).symm.cons _).trans (List.perm_cons_erase (List.getElem_mem lt)).symm)

/-- Overwriting the entry `ndx` of a list trades one `old` for one `target`. -/
theorem set_perm {keys : List Int} {ndx : Nat} {old : Int} (entry : keys[ndx]? = some old)
    (target : Int) : (keys.set ndx target ++ [old]).Perm (keys ++ [target]) := by
  obtain ⟨lt, rfl⟩ := List.getElem?_eq_some_iff.mp entry
  have pos := List.count_pos_iff.mpr (List.getElem_mem lt)
  rw [List.perm_iff_count]
  intro b
  simp only [List.count_append, List.count_set _ _ _ _ lt, List.count_singleton, beq_iff_eq]
  by_cases same : keys[ndx] = b
  · subst same
    simp only [if_true]
    omega
  · simp [same]

/-- Erasing an entry just overwritten erases the entry that was there. -/
theorem eraseIdx_set_self (keys : List Int) (ndx : Nat) (a : Int) :
    (keys.set ndx a).eraseIdx ndx = keys.eraseIdx ndx := by
  induction keys generalizing ndx with
  | nil => rfl
  | cons k keys ih => cases ndx <;> simp [ih]

section

variable (paired : s.Paired) (keys : db.KeysValid s) (consistent : db.Consistent s)
  (ht : table ∈ s.tables) (hc : column ∈ s.columns table)
  (listType : s.columnType table column = .linkList) (originLive : origin ∈ db.objects table)
include paired keys consistent ht hc listType originLive

/-- An entry of a consistent list is an object, and not `null_key`. -/
theorem listEntry_live {ndx : Nat} {old : Int}
    (entry : (db.list table column origin)[ndx]? = some old) :
    old ∈ db.objects (s.oppositeTable table column) ∧ old ≠ nullKey :=
  read_live paired keys consistent ht hc originLive
    (by simpa [Db.read, listType] using List.getElem?_mem entry)

/-- `do_remove` on a list of a consistent database, returned or thrown, is a run of link
changes. -/
theorem listDoRemove_linkSteps (ndx : Nat) :
    LinkSteps s db (stateAfter (listDoRemove s table column origin ndx) db) := by
  cases entry : (db.list table column origin)[ndx]? with
  | none =>
    rw [stateAfter_of_error (listDoRemove_run_of_none entry)]
    exact .refl
  | some old =>
    obtain ⟨live, notNull⟩ :=
      listEntry_live paired keys consistent ht hc listType originLive entry
    rw [stateAfter_of_ok (listDoRemove_run entry live notNull)]
    exact .single ⟨_, _, _, _, _, linkChange_setList ht hc listType originLive
      (by simpa using List.getElem?_mem entry) (by simp) (by simpa using eraseIdx_perm entry)⟩

/-- `do_set` of an object on a list of a consistent database, returned or thrown, is a run
of link changes. -/
theorem listDoSet_linkSteps (ndx : Nat) {target : Int}
    (targetLive : target ∈ db.objects (s.oppositeTable table column)) :
    LinkSteps s db (stateAfter (listDoSet s table column origin ndx target) db) := by
  cases entry : (db.list table column origin)[ndx]? with
  | none =>
    rw [stateAfter_of_error (listDoSet_run_of_none entry)]
    exact .refl
  | some old =>
    obtain ⟨live, notNull⟩ :=
      listEntry_live paired keys consistent ht hc listType originLive entry
    have targetNotNull : target ≠ nullKey := fun null =>
      keys.not_null _ (paired.opposite_mem table ht column hc).1 (null ▸ targetLive)
    rw [stateAfter_of_ok (listDoSet_run entry (fun _ => live) fun _ => targetLive)]
    simp only [keyOption, if_neg notNull, if_neg targetNotNull]
    exact .single ⟨_, _, _, _, _, linkChange_setList ht hc listType originLive
      (by simpa using List.getElem?_mem entry) (by simpa using targetLive)
      (by simpa using set_perm entry target)⟩

end

/-- `do_insert` of a key within the list, returned or thrown, is a run of link changes. -/
theorem listDoInsert_linkSteps (ht : table ∈ s.tables) (hc : column ∈ s.columns table)
    (listType : s.columnType table column = .linkList) (originLive : origin ∈ db.objects table)
    {ndx : Nat} {target : Int} (notNull : target ≠ nullKey)
    (inRange : ndx ≤ (db.list table column origin).length) :
    LinkSteps s db (stateAfter (listDoInsert s table column origin ndx target) db) := by
  by_cases live : target ∈ db.objects (s.oppositeTable table column)
  · have moved := (List.perm_insertIdx target _ inRange).trans
      (List.perm_append_singleton target _).symm
    rw [stateAfter_of_ok (listDoInsert_run live notNull)]
    exact .single ⟨_, _, _, _, _, linkChange_setList ht hc listType originLive (by simp)
      (by simpa using live) (by simpa using moved)⟩
  · rw [stateAfter_of_error (listDoInsert_run_of_dead notNull live)]
    exact .refl

end

/-- The loop of `Lst<ObjKey>::clear`: `do_set(ndx, null_key)` and the erase of entry `ndx`
together remove that entry and its backlink, one link change of the list per entry, and the
list is left empty. -/
theorem listClearFrom_run {s : Schema} {table column : Nat} {origin : Int}
    (paired : s.Paired) (ht : table ∈ s.tables) (hc : column ∈ s.columns table)
    (listType : s.columnType table column = .linkList) :
    ∀ (n : Nat) {db : Db}, db.KeysValid s → db.Consistent s → origin ∈ db.objects table →
      (db.list table column origin).length = n →
      ∃ db', (listClearFrom s table column origin n).run db = .ok () db' ∧
        StepsWithin s (fun t c a => t = table ∧ c = column ∧ a = origin) db db' ∧
        db'.list table column origin = []
  | 0, db, _, _, _, length => ⟨db, rfl, .refl, List.length_eq_zero.mp length⟩
  | n + 1, db, keys, consistent, originLive, length => by
    obtain ⟨old, entry⟩ : ∃ old, (db.list table column origin)[n]? = some old :=
      ⟨_, List.getElem?_eq_getElem (by omega)⟩
    obtain ⟨live, notNull⟩ :=
      listEntry_live paired keys consistent ht hc listType originLive entry
    let cleared := (db.moveBacklinks (s.oppositeTable table column) (s.oppositeColumn table column)
      origin (some old) none).setList table column origin ((db.list table column origin).eraseIdx n)
    have change : LinkChange s db cleared table column origin (some old) none :=
      linkChange_setList ht hc listType originLive (by simpa using List.getElem?_mem entry)
        (by simp) (by simpa using eraseIdx_perm entry)
    have ran : (listClearFrom s table column origin (n + 1)).run db =
        (listClearFrom s table column origin n).run cleared := by
      rw [listClearFrom, run_bind_of_ok (listDoSet_run entry (fun _ => live) (by simp)),
        run_bind_of_ok (run_modify _ _)]
      simp [keyOption, notNull, eraseIdx_set_self, cleared]
    obtain ⟨db', run, steps, empty⟩ := listClearFrom_run paired ht hc listType n
      (keys.of_objects change.objects) (change.consistent paired (keys.nodup table ht) consistent)
      (change.objects ▸ originLive) (by simp [cleared, List.length_eraseIdx_of_lt, length])
    exact ⟨db', ran.trans run, .head ⟨_, _, _, _, _, ⟨rfl, rfl, rfl⟩, change⟩ steps, empty⟩

/-- The loop of `clear`, returned or thrown, is a run of link changes. -/
theorem listClearFrom_linkSteps {s : Schema} {table column : Nat} {origin : Int}
    (paired : s.Paired) (ht : table ∈ s.tables) (hc : column ∈ s.columns table)
    (listType : s.columnType table column = .linkList) (n : Nat) {db : Db}
    (keys : db.KeysValid s) (consistent : db.Consistent s) (originLive : origin ∈ db.objects table)
    (length : (db.list table column origin).length = n) :
    LinkSteps s db (stateAfter (listClearFrom s table column origin n) db) := by
  obtain ⟨db', run, steps, -⟩ :=
    listClearFrom_run paired ht hc listType n keys consistent originLive length
  rw [stateAfter_of_ok run]
  exact steps.linkSteps

/-! ## Runs of calls -/

/-- A call of one of the weak-link mutators. -/
inductive Call
  | setObjKey (table column : Nat) (origin target : Int)
  | listSet (table column : Nat) (origin : Int) (ndx : Nat) (target : Int)
  | listInsert (table column : Nat) (origin : Int) (ndx : Nat) (target : Int)
  | listRemove (table column : Nat) (origin : Int) (ndx : Nat)
  | listClear (table column : Nat) (origin : Int)
  deriving DecidableEq, Repr

/-- The mutator a call runs. -/
def Call.apply (s : Schema) : Call → EStateM LogicError Db Unit
  | .setObjKey table column origin target => Links.setObjKey s table column origin target
  | .listSet table column origin ndx target => listDoSet s table column origin ndx target
  | .listInsert table column origin ndx target => listDoInsert s table column origin ndx target
  | .listRemove table column origin ndx => listDoRemove s table column origin ndx
  | .listClear table column origin => Links.listClear s table column origin

/-- The object `origin` of `table` exists, and `column` is a column of `table`. -/
def Schema.HasOrigin (s : Schema) (db : Db) (table column : Nat) (origin : Int) : Prop :=
  table ∈ s.tables ∧ column ∈ s.columns table ∧ origin ∈ db.objects table

instance (s : Schema) (db : Db) (table column : Nat) (origin : Int) :
    Decidable (s.HasOrigin db table column origin) :=
  inferInstanceAs (Decidable (_ ∧ _ ∧ _))

/-- What the callers of the mutators guarantee: the origin exists, a list call is made on a
link list, `do_insert` gets a key and a position in the list, and `do_set` gets an object
of the target table. -/
def Call.Allowed (s : Schema) (db : Db) : Call → Prop
  | .setObjKey table column origin _ => s.HasOrigin db table column origin
  | .listSet table column origin _ target => s.HasOrigin db table column origin ∧
      s.columnType table column = .linkList ∧ target ∈ db.objects (s.oppositeTable table column)
  | .listInsert table column origin ndx target => s.HasOrigin db table column origin ∧
      s.columnType table column = .linkList ∧ target ≠ nullKey ∧
        ndx ≤ (db.list table column origin).length
  | .listRemove table column origin _ | .listClear table column origin =>
      s.HasOrigin db table column origin ∧ s.columnType table column = .linkList

instance (s : Schema) (db : Db) : (call : Call) → Decidable (call.Allowed s db)
  | .setObjKey .. => inferInstanceAs (Decidable (Schema.HasOrigin ..))
  | .listSet .. => inferInstanceAs (Decidable (_ ∧ _ ∧ _))
  | .listInsert .. => inferInstanceAs (Decidable (_ ∧ _ ∧ _ ∧ _))
  | .listRemove .. | .listClear .. => inferInstanceAs (Decidable (_ ∧ _))

/-- One call that keeps its preconditions, and the database it leaves, whether it returned
or threw. -/
def Step (s : Schema) (db db' : Db) : Prop :=
  ∃ call : Call, call.Allowed s db ∧ db' = stateAfter (call.apply s) db

/-- The databases a run of such calls can leave. -/
def Reaches (s : Schema) : Db → Db → Prop := Relation.ReflTransGen (Step s)

/-- Every allowed call, returned or thrown, is a run of link changes. -/
theorem Call.linkSteps {s : Schema} {db : Db} (paired : s.Paired) (keys : db.KeysValid s)
    (consistent : db.Consistent s) {call : Call} (allowed : call.Allowed s db) :
    LinkSteps s db (stateAfter (call.apply s) db) := by
  cases call with
  | setObjKey table column origin target =>
    obtain ⟨ht, hc, originLive⟩ := allowed
    exact setObjKey_linkSteps consistent ht hc originLive target
  | listSet table column origin ndx target =>
    obtain ⟨⟨ht, hc, originLive⟩, listType, targetLive⟩ := allowed
    exact listDoSet_linkSteps paired keys consistent ht hc listType originLive ndx targetLive
  | listInsert table column origin ndx target =>
    obtain ⟨⟨ht, hc, originLive⟩, listType, notNull, inRange⟩ := allowed
    exact listDoInsert_linkSteps ht hc listType originLive notNull inRange
  | listRemove table column origin ndx =>
    obtain ⟨⟨ht, hc, originLive⟩, listType⟩ := allowed
    exact listDoRemove_linkSteps paired keys consistent ht hc listType originLive ndx
  | listClear table column origin =>
    obtain ⟨⟨ht, hc, originLive⟩, listType⟩ := allowed
    exact listClearFrom_linkSteps paired ht hc listType _ keys consistent originLive rfl

/-- From a consistent database, every run of weak-link mutator calls that keep their
preconditions leaves a consistent database, calls that throw included. -/
theorem reaches_consistent {s : Schema} {db db' : Db} (paired : s.Paired) (keys : db.KeysValid s)
    (consistent : db.Consistent s) (reach : Reaches s db db') : db'.Consistent s := by
  suffices db'.Consistent s ∧ db'.KeysValid s from this.1
  induction reach with
  | refl => exact ⟨consistent, keys⟩
  | tail _ step ih =>
    obtain ⟨call, allowed, rfl⟩ := step
    have after := (call.linkSteps paired ih.2 ih.1 allowed).consistent paired ih.2 ih.1
    exact ⟨after.1, ih.2.of_objects after.2⟩

/-- Calls run one after the other, each from the database the one before left. -/
def runCalls (s : Schema) (db : Db) (calls : List Call) : Db :=
  calls.foldl (fun db call => stateAfter (call.apply s) db) db

/-- Each call keeps its preconditions in the database it runs on. -/
def AllowedRun (s : Schema) : Db → List Call → Prop
  | _, [] => True
  | db, call :: calls => call.Allowed s db ∧ AllowedRun s (stateAfter (call.apply s) db) calls

instance (s : Schema) : (db : Db) → (calls : List Call) → Decidable (AllowedRun s db calls)
  | _, [] => inferInstanceAs (Decidable True)
  | db, call :: calls =>
    have : Decidable (AllowedRun s (stateAfter (call.apply s) db) calls) :=
      instDecidableAllowedRun s _ calls
    inferInstanceAs (Decidable (_ ∧ _))

/-- Calls run one after the other, each allowed where it runs, are a run of allowed
calls. -/
theorem runCalls_reaches {s : Schema} {db : Db} {calls : List Call}
    (allowed : AllowedRun s db calls) : Reaches s db (runCalls s db calls) := by
  induction calls generalizing db with
  | nil => exact .refl
  | cons call calls ih => exact .head ⟨call, allowed.1, rfl⟩ (ih allowed.2)

/-- Table 0 holds object 0, whose link list holds object 0 of table 1; table 1 holds
objects 0 and 1. -/
def listOfOne : Db :=
  ⟨fun t => if t = 0 then [0] else [0, 1], fun _ _ _ => nullKey,
    fun t _ _ => if t = 0 then [0] else [], fun t _ k => if t = 1 ∧ k = 0 then [0] else []⟩

/-- An insert, a set, a remove, a `set<ObjKey>` on the list column (which throws) and a
clear. -/
def listCalls : List Call :=
  [.listInsert 0 0 0 1 1, .listSet 0 0 0 0 1, .listRemove 0 0 0 0, .setObjKey 0 0 0 5,
    .listClear 0 0 0]

/-- `listCalls` keeps the database of one link list consistent. -/
theorem reaches_consistent_listCalls :
    (runCalls listToTarget listOfOne listCalls).Consistent listToTarget :=
  reaches_consistent (by decide) (by decide) (by decide) (runCalls_reaches (by decide))

end Links
end RealmCore
