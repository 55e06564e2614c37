import RealmCore.Links.BacklinkCount

/-!
# `Obj::assign` on the link columns

`x.assign(y)` first copies every column of `y` into `x`: a single link through
`set<ObjKey>`, a link list by `clear()` and then `insert_any(i, src_list->get_any(i))` for
each entry of `y`'s list, whose size is read before the clear. It then runs `copy_links` on
each backlink column of the table: the backlinks `y` holds there are read once
(`get_all_backlinks`), and each origin among them gets `x` in place of `y`, with
`set<ObjKey>` on a single link and `set(find_first(y), x)` on a list.

`assign_links` shows that on a consistent database of weak links the call returns and keeps
the database consistent, that `y` is left with no backlinks, and that every forward column
of every object reads what it read before with `y` made `x` in the columns that lead to the
table, except that the columns of `x` start from what those of `y` read. The snapshot holds
an origin once for each of its links to `y`, so an origin with several links to `y`, `x`
itself included, has each of them redirected.

Only weak links are modelled: on a strong link, `clear()` and `set<ObjKey>` also queue the
targets that lose their last strong backlink for `remove_recursive`, whose code is not in
the source. `Lst<ObjKey>::insert` and `set` are modelled, as in `Links.Consistency`, by
`do_insert` and `do_set`.
-/

namespace RealmCore
namespace Links

/-! ## The model -/

/-- The refill loop of a list column in `Obj::assign`, from entry `i` on for `n` entries:
`dst_list->insert_any(i, src_list->get_any(i))`, from the list of `y` into that of `x`. -/
def listCopyFrom (s : Schema) (table column : Nat) (x y : Int) :
    Nat → Nat → EStateM LogicError Db Unit
  | _, 0 => pure ()
  | i, n + 1 => do
      let key ← listGet table column y i
      listDoInsert s table column x i key
      listCopyFrom s table column x y (i + 1) n

/-- One column of `Obj::assign(other)` of object `x` of `table` from object `y`: a single
link is copied with `set<ObjKey>` (a null link through `set_null`, which sets `null_key`);
a list is cleared and refilled; a backlink column is not among `get_column_keys()`. -/
def assignColumn (s : Schema) (table column : Nat) (x y : Int) : EStateM LogicError Db Unit :=
  match s.columnType table column with
  | .link => do setObjKey s table column x ((← get).link table column y)
  | .linkList => do
      let sz := ((← get).list table column y).length
      listClear s table column x
      listCopyFrom s table column x y 0 sz
  | .backLink => pure ()

/-- The loop of `Obj::assign` over the columns `columns` of `table`. -/
def assignColumns (s : Schema) (table : Nat) (x y : Int) :
    List Nat → EStateM LogicError Db Unit
  | [] => pure ()
  | column :: columns => do
      assignColumn s table column x y
      assignColumns s table x y columns

/-- The link columns of `table` that `get_column_keys()` lists: the forward ones, a backlink
column being no public column. -/
def forwardColumns (s : Schema) (table : Nat) : List Nat :=
  (s.columns table).filter fun column => s.columnType table column ≠ .backLink

/-- The body of `copy_links`' loop for the origin `bl`, an object of table `t` whose column
`c` links to `y`: a single link is set to `x`; in a list, the entry `find_first(y)` is set
to `x` (without `y`, `find_first` gives `npos`, past the end, and the set throws). -/
def relink (s : Schema) (t c : Nat) (x y bl : Int) : EStateM LogicError Db Unit := do
  getObject t bl
  if s.columnType t c = .link then setObjKey s t c bl x
  else do listDoSet s t c bl (((← get).list t c bl).indexOf y) x

/-- The loop of `copy_links` over the origins `bls`. -/
def relinkAll (s : Schema) (t c : Nat) (x y : Int) : List Int → EStateM LogicError Db Unit
  | [] => pure ()
  | bl :: bls => do
      relink s t c x y bl
      relinkAll s t c x y bls

/-- `copy_links(col)` for the backlink column `column` of `table`: the backlinks of `y` are
read once, before the loop. -/
def copyLinks (s : Schema) (table column : Nat) (x y : Int) : EStateM LogicError Db Unit := do
  relinkAll s (s.oppositeTable table column) (s.oppositeColumn table column) x y
    ((← get).backlinks table column y)

/-- `m_table->for_each_backlink_column(copy_links)` over the backlink columns `columns`. -/
def copyAllLinks (s : Schema) (table : Nat) (x y : Int) : List Nat → EStateM LogicError Db Unit
  | [] => pure ()
  | column :: columns => do
      copyLinks s table column x y
      copyAllLinks s table x y columns

/-- `Obj::assign(other)` of object `x` of `table` from object `y`, on the link columns. -/
def assign (s : Schema) (table : Nat) (x y : Int) : EStateM LogicError Db Unit := do
  assignColumns s table x y (s.columns table)
  copyAllLinks s table x y (backlinkColumns s table)

/-- The loop over a table's columns runs as the loop over its forward columns: a backlink
column copies nothing. -/
theorem assignColumns_run_filter (s : Schema) (table : Nat) (x y : Int) :
    ∀ (columns : List Nat) (db : Db), (assignColumns s table x y columns).run db =
      (assignColumns s table x y
        (columns.filter fun column => s.columnType table column ≠ .backLink)).run db
  | [], _ => rfl
  | column :: columns, db => by
    by_cases back : s.columnType table column = .backLink
    · rw [List.filter_cons_of_neg (by simpa using back), assignColumns,
        run_bind_of_ok (show (assignColumn s table column x y).run db = .ok () db by
          simp only [assignColumn, back]; rfl)]
      exact assignColumns_run_filter s table x y columns db
    · rw [List.filter_cons_of_pos (by simpa using back), assignColumns, assignColumns]
      exact run_bind_congr _ (fun _ => assignColumns_run_filter s table x y columns) db

/-! ## Replacing the first occurrences of a key -/

/-- `keys` with its first `n` occurrences of `y` made `x`. -/
def replaceFirst (y x : Int) : Nat → List Int → List Int
  | 0, keys => keys
  | _ + 1, [] => []
  | n + 1, k :: keys =>
      if k = y then x :: replaceFirst y x n keys else k :: replaceFirst y x (n + 1) keys

section

variable {x y : Int}

@[simp] theorem replaceFirst_zero (keys : List Int) : replaceFirst y x 0 keys = keys := by
  cases keys <;> rfl

@[simp] theorem replaceFirst_nil (n : Nat) : replaceFirst y x n [] = [] := by
  cases n <;> rfl

@[simp] theorem replaceFirst_succ_cons_self (n : Nat) (keys : List Int) :
    replaceFirst y x (n + 1) (y :: keys) = x :: replaceFirst y x n keys := by
  simp [replaceFirst]

@[simp] theorem replaceFirst_cons_of_ne {k : Int} (other : k ≠ y) (n : Nat) (keys : List Int) :
    replaceFirst y x n (k :: keys) = k :: replaceFirst y x n keys := by
  cases n <;> simp [replaceFirst, other]

/-- The first `n` occurrences, then the next `m`, are the first `n + m`. -/
theorem replaceFirst_replaceFirst (distinct : x ≠ y) : ∀ (n m : Nat) (keys : List Int),
    replaceFirst y x m (replaceFirst y x n keys) = replaceFirst y x (n + m) keys
  | 0, m, keys => by simp
  | n + 1, 0, keys => by simp
  | n + 1, m + 1, [] => by simp
  | n + 1, m + 1, k :: keys => by
    rw [← Nat.add_assoc]
    by_cases here : k = y
    · subst k
      rw [replaceFirst_succ_cons_self, replaceFirst_succ_cons_self, replaceFirst_cons_of_ne distinct,
        replaceFirst_replaceFirst distinct n (m + 1), Nat.add_right_comm n 1 m]
      rfl
    · simp only [replaceFirst_cons_of_ne here, replaceFirst_replaceFirst distinct (n + 1) (m + 1),
        Nat.add_assoc]

theorem count_replaceFirst (distinct : x ≠ y) : ∀ (n : Nat) (keys : List Int),
    (replaceFirst y x n keys).count y = keys.count y - n
  | 0, keys => by simp
  | n + 1, [] => by simp
  | n + 1, k :: keys => by
    by_cases here : k = y
    · subst k
      rw [replaceFirst_succ_cons_self, List.count_cons_of_ne distinct.symm,
        count_replaceFirst distinct n keys, List.count_cons_self]
      omega
    · rw [replaceFirst_cons_of_ne here, List.count_cons_of_ne (Ne.symm here),
        List.count_cons_of_ne (Ne.symm here), count_replaceFirst distinct (n + 1) keys]

/-- Replacing as many occurrences as there are replaces them all. -/
theorem replaceFirst_count (keys : List Int) :
    replaceFirst y x (keys.count y) keys = keys.map fun k => if k = y then x else k := by
  induction keys with
  | nil => rfl
  | cons k keys ih =>
    by_cases here : k = y
    · subst here
      rw [List.count_cons_self, replaceFirst_succ_cons_self, ih]
      simp
    · rw [List.count_cons_of_ne (Ne.symm here), replaceFirst_cons_of_ne here, ih]
      simp [here]

/-- Setting the first occurrence of `y` to `x` replaces one occurrence. -/
theorem set_indexOf {keys : List Int} (mem : y ∈ keys) :
    keys.set (keys.indexOf y) x = replaceFirst y x 1 keys := by
  induction keys with
  | nil => simp at mem
  | cons k keys ih =>
    by_cases here : k = y
    · subst here
      simp [List.indexOf_cons_self]
    · rw [List.indexOf_cons_ne _ here, List.set_cons_succ,
        ih ((List.mem_cons.mp mem).resolve_left (Ne.symm here)), replaceFirst_cons_of_ne here]

/-- With `x` in place of every `y`, no `y` is left. -/
theorem not_mem_map_redirect (distinct : x ≠ y) (keys : List Int) :
    y ∉ keys.map fun k => if k = y then x else k := by
  simp only [List.mem_map, not_exists, not_and]
  intro k _
  split_ifs <;> assumption

/-- Redirecting twice is redirecting once. -/
@[simp] theorem map_redirect_redirect (distinct : x ≠ y) (keys : List Int) :
    ((keys.map fun k => if k = y then x else k).map fun k => if k = y then x else k) =
      keys.map fun k => if k = y then x else k := by
  simp only [List.map_map]
  refine List.map_congr_left fun k _ => ?_
  by_cases here : k = y <;> simp [here, distinct]

end

/-! ## One origin redirected -/

section

variable {s : Schema} {db : Db}

/-- `set<ObjKey>` on a single link of a live origin, from a live or null link to a live
object or `null_key`: the link then reads the target, after one link change of that link or
none. -/
theorem setObjKey_run_of_live {table column : Nat} {origin : Int} (ht : table ∈ s.tables)
    (hc : column ∈ s.columns table) (linkType : s.columnType table column = .link)
    (originLive : origin ∈ db.objects table)
    (oldLive : db.link table column origin ≠ nullKey →
      db.link table column origin ∈ db.objects (s.oppositeTable table column))
    {target : Int}
    (targetLive : target ≠ nullKey → target ∈ db.objects (s.oppositeTable table column)) :
    ∃ db', (setObjKey s table column origin target).run db = .ok () db' ∧
      StepsWithin s (fun t c a => t = table ∧ c = column ∧ a = origin) db db' ∧
      db'.read (s.hop table column) origin = (keyOption target).toList := by
  rw [setObjKey_run, if_neg (not_not.mpr linkType),
    if_neg fun ⟨notNull, dead⟩ => dead (targetLive notNull)]
  split_ifs with moved
  · rw [run_bind_of_ok (replaceBacklink_run oldLive targetLive), run_modify]
    exact ⟨_, rfl, .single ⟨rfl, rfl, rfl⟩ (linkChange_setLink ht hc linkType originLive targetLive),
      by simp [read_of_link linkType, Db.setLink]⟩
  · exact ⟨db, rfl, .refl, by rw [read_of_link linkType, not_not.mp moved]⟩

variable {t c : Nat} {x y : Int} (ht : t ∈ s.tables) (hc : c ∈ s.columns t)
  (forward : s.columnType t c ≠ .backLink) (xNotNull : x ≠ nullKey) (yNotNull : y ≠ nullKey)
include ht hc forward xNotNull yNotNull

/-- `copy_links`' body on an origin whose column leads to `y`: one link change of that
column of that origin, which then reads its first `y` made `x`. -/
theorem relink_run {bl : Int} (originLive : bl ∈ db.objects t)
    (xLive : x ∈ db.objects (s.oppositeTable t c)) (yLive : y ∈ db.objects (s.oppositeTable t c))
    (leads : y ∈ db.read (s.hop t c) bl) :
    ∃ db', (relink s t c x y bl).run db = .ok () db' ∧
      StepsWithin s (fun t' c' a => t' = t ∧ c' = c ∧ a = bl) db db' ∧
      db'.read (s.hop t c) bl = replaceFirst y x 1 (db.read (s.hop t c) bl) := by
  rw [relink, run_bind_of_ok (getObject_run_of_mem originLive)]
  cases type : s.columnType t c with
  | link =>
    have linked : db.link t c bl = y := by
      rw [read_of_link type, keyOption] at leads
      split_ifs at leads <;> simp_all
    obtain ⟨db', run, steps, reads⟩ :=
      setObjKey_run_of_live ht hc type originLive (fun _ => linked ▸ yLive) fun _ => xLive
    refine ⟨db', by rwa [if_pos rfl], steps, ?_⟩
    rw [reads, read_of_link type, linked]
    simp [keyOption, xNotNull, yNotNull]
  | linkList =>
    have mem : y ∈ db.list t c bl := by simpa [Db.read, type] using leads
    have entry := List.getElem?_indexOf mem
    rw [if_neg (by decide), run_get_bind, listDoSet_run entry (fun _ => yLive) fun _ => xLive]
    simp only [keyOption, if_neg yNotNull, if_neg xNotNull]
    refine ⟨_, rfl, .single ⟨rfl, rfl, rfl⟩ (linkChange_setList ht hc type originLive
      (by simpa using mem) (by simpa using xLive) (by simpa using set_perm entry x)), ?_⟩
    simp [Db.read, type, Db.setList, set_indexOf mem]
  | backLink => exact absurd type forward

/-- `copy_links`' loop over origins that each lead to `y` at least as often as they are
listed: each column of each origin reads its first `y`s made `x`, one for each time the
origin is listed, and no other column changes. -/
theorem relinkAll_run (distinct : x ≠ y) : ∀ (bls : List Int) {db : Db},
    x ∈ db.objects (s.oppositeTable t c) → y ∈ db.objects (s.oppositeTable t c) →
    (∀ a ∈ bls, a ∈ db.objects t) → (∀ a, bls.count a ≤ (db.read (s.hop t c) a).count y) →
    ∃ db', (relinkAll s t c x y bls).run db = .ok () db' ∧
      StepsWithin s (fun t' c' _ => t' = t ∧ c' = c) db db' ∧
      ∀ a, db'.read (s.hop t c) a = replaceFirst y x (bls.count a) (db.read (s.hop t c) a)
  | [], db, _, _, _, _ => ⟨db, rfl, .refl, fun _ => by simp⟩
  | bl :: bls, db, xLive, yLive, live, counts => by
    have first : bls.count bl + 1 ≤ (db.read (s.hop t c) bl).count y := by
      simpa using counts bl
    obtain ⟨db₁, run₁, steps₁, read₁⟩ := relink_run ht hc forward xNotNull yNotNull
      (live bl (List.mem_cons_self _ _)) xLive yLive (List.count_pos_iff.mp (by omega))
    have others : ∀ a, a ≠ bl → db₁.read (s.hop t c) a = db.read (s.hop t c) a :=
      fun a other => steps₁.read_eq forward fun ⟨_, _, same⟩ => other same
    have objects := steps₁.objects
    obtain ⟨db', run, steps, reads⟩ := relinkAll_run distinct bls (objects ▸ xLive)
      (objects ▸ yLive) (fun a mem => objects ▸ live a (List.mem_cons_of_mem _ mem)) fun a => by
        by_cases here : a = bl
        · rw [here, read₁, count_replaceFirst distinct]
          omega
        · rw [others a here, ← List.count_cons_of_ne here]
          exact counts a
    refine ⟨db', by rw [relinkAll, run_bind_of_ok run₁, run],
      (steps₁.mono fun _ _ _ inside => ⟨inside.1, inside.2.1⟩).trans steps, fun a => ?_⟩
    rw [reads]
    by_cases here : a = bl
    · subst here
      rw [read₁, replaceFirst_replaceFirst distinct, List.count_cons_self, Nat.add_comm]
    · rw [others a here, List.count_cons_of_ne here]

end

/-! ## `copy_links` -/

section

variable {s : Schema} (paired : s.Paired) {table : Nat} (ht : table ∈ s.tables)
include paired ht

/-- The forward columns opposite the backlink columns of `table` are those that lead to
`table`. -/
theorem exists_backlinkColumn_iff {t c : Nat} (ht' : t ∈ s.tables) (hc : c ∈ s.columns t)
    (forward : s.columnType t c ≠ .backLink) :
    (∃ b ∈ backlinkColumns s table, s.oppositeTable table b = t ∧ s.oppositeColumn table b = c) ↔
      s.oppositeTable t c = table := by
  constructor
  · rintro ⟨b, hb, rfl, rfl⟩
    exact (paired.opposite_opposite table ht b (mem_backlinkColumns.1 hb).1).1
  · rintro rfl
    have back := paired.opposite_opposite t ht' c hc
    exact ⟨s.oppositeColumn t c, mem_backlinkColumns.2 ⟨(paired.opposite_mem t ht' c hc).2,
      (paired.backLink_iff t ht' c hc).2 forward⟩, back.1, back.2⟩

/-- In a consistent database, an object that no live origin leads to through the forward
column of a backlink column holds no backlink there. -/
theorem backlinks_eq_nil {db : Db} (consistent : db.Consistent s) {key : Int}
    (live : key ∈ db.objects table) {b : Nat} (hb : b ∈ backlinkColumns s table)
    (unlinked : ∀ a ∈ db.objects (s.oppositeTable table b),
      key ∉ db.read (s.hop (s.oppositeTable table b) (s.oppositeColumn table b)) a) :
    db.backlinks table b key = [] := by
  have snapshot := backlinks_perm_origins paired consistent ht live hb
  rw [(paired.opposite_opposite table ht b (mem_backlinkColumns.1 hb).1).2] at snapshot
  refine List.eq_nil_of_length_eq_zero (snapshot.length_eq.trans (by_contra fun none => ?_))
  obtain ⟨a, origin, leads⟩ := length_origins_ne_zero.1 none
  exact unlinked a origin leads

variable {x y : Int} (distinct : x ≠ y)
include distinct

/-- `copy_links` on a backlink column of a consistent database: the origins' column leads to
`x` wherever it led to `y`, and no other column changes. -/
theorem copyLinks_run {db : Db} (keys : db.KeysValid s) (consistent : db.Consistent s)
    {b : Nat} (hb : b ∈ backlinkColumns s table) (xLive : x ∈ db.objects table)
    (yLive : y ∈ db.objects table) :
    ∃ db', (copyLinks s table b x y).run db = .ok () db' ∧
      StepsWithin s (fun t c _ => s.oppositeTable table b = t ∧ s.oppositeColumn table b = c)
        db db' ∧
      ∀ a ∈ db.objects (s.oppositeTable table b),
        db'.read (s.hop (s.oppositeTable table b) (s.oppositeColumn table b)) a =
          (db.read (s.hop (s.oppositeTable table b) (s.oppositeColumn table b)) a).map
            fun k => if k = y then x else k := by
  obtain ⟨column, backLink⟩ := mem_backlinkColumns.1 hb
  have opp := paired.opposite_mem table ht b column
  have back := paired.opposite_opposite table ht b column
  have forward := (paired.backLink_iff table ht b column).not.2 (by simp [backLink])
  have snapshot := backlinks_perm_origins paired consistent ht yLive hb
  rw [back.2] at snapshot
  have counts : ∀ a, (db.backlinks table b y).count a =
      (db.objects (s.oppositeTable table b)).count a *
        (db.read (s.hop (s.oppositeTable table b) (s.oppositeColumn table b)) a).count y :=
    fun a => by rw [snapshot.count_eq, Db.count_origins]
  have once := List.nodup_iff_count_le_one.mp (keys.nodup _ opp.1)
  have notNull : ∀ k ∈ db.objects table, k ≠ nullKey := fun k live null =>
    keys.not_null table ht (null ▸ live)
  obtain ⟨db', run, steps, reads⟩ := relinkAll_run opp.1 opp.2 forward (notNull x xLive)
    (notNull y yLive) distinct (db.backlinks table b y) (by rwa [back.1]) (by rwa [back.1])
    (fun a mem => List.count_pos_iff.mp
      (Nat.pos_of_mul_pos_right (counts a ▸ List.count_pos_iff.mpr mem)))
    fun a => by
      rw [counts]
      exact (Nat.mul_le_mul_right _ (once a)).trans_eq (Nat.one_mul _)
  refine ⟨db', by rwa [copyLinks, run_get_bind],
    steps.mono fun _ _ _ inside => ⟨inside.1.symm, inside.2.symm⟩, fun a live => ?_⟩
  rw [reads, counts, List.count_eq_one_of_mem (keys.nodup _ opp.1) live, Nat.one_mul,
    replaceFirst_count]

/-- `for_each_backlink_column(copy_links)` over backlink columns of a consistent database:
the forward columns opposite them lead to `x` wherever they led to `y`, and no other column
changes. -/
theorem copyAllLinks_run : ∀ (columns : List Nat) {db : Db},
    (∀ b ∈ columns, b ∈ backlinkColumns s table) → db.KeysValid s → db.Consistent s →
    x ∈ db.objects table → y ∈ db.objects table →
    ∃ db', (copyAllLinks s table x y columns).run db = .ok () db' ∧ LinkSteps s db db' ∧
      db'.objects = db.objects ∧
      ∀ t c, s.columnType t c ≠ .backLink → ∀ a ∈ db.objects t,
        db'.read (s.hop t c) a =
          if ∃ b ∈ columns, s.oppositeTable table b = t ∧ s.oppositeColumn table b = c then
            (db.read (s.hop t c) a).map fun k => if k = y then x else k
          else db.read (s.hop t c) a
  | [], db, _, _, _, _, _ => ⟨db, rfl, .refl, rfl, fun _ _ _ _ _ => by simp⟩
  | b :: columns, db, visited, keys, consistent, xLive, yLive => by
    obtain ⟨db₁, run₁, steps₁, read₁⟩ := copyLinks_run paired ht distinct keys consistent
      (visited b (List.mem_cons_self _ _)) xLive yLive
    have objects := steps₁.objects
    have after := steps₁.linkSteps.consistent paired keys consistent
    obtain ⟨db', run, steps, objects', reads⟩ := copyAllLinks_run columns
      (fun b mem => visited b (List.mem_cons_of_mem _ mem)) (keys.of_objects objects) after.1
      (objects ▸ xLive) (objects ▸ yLive)
    refine ⟨db', by rw [copyAllLinks, run_bind_of_ok run₁, run], steps₁.linkSteps.trans steps,
      objects'.trans objects, fun t c forward a live => ?_⟩
    have here : db₁.read (s.hop t c) a =
        if s.oppositeTable table b = t ∧ s.oppositeColumn table b = c then
          (db.read (s.hop t c) a).map fun k => if k = y then x else k
        else db.read (s.hop t c) a := by
      split_ifs with opposite
      · obtain ⟨rfl, rfl⟩ := opposite
        exact read₁ a live
      · exact steps₁.read_eq forward opposite
    rw [reads t c forward a (objects ▸ live), here]
    by_cases first : s.oppositeTable table b = t ∧ s.oppositeColumn table b = c <;>
      by_cases later : ∃ b ∈ columns, s.oppositeTable table b = t ∧ s.oppositeColumn table b = c <;>
      simp [first, later, map_redirect_redirect distinct, -List.map_map]

end

/-! ## Copying the columns -/

/-- Inserting entry `i` of a list at the end of its first `i` entries gives its first
`i + 1`. -/
theorem insertIdx_take {keys : List Int} {i : Nat} {key : Int} (entry : keys[i]? = some key) :
    (keys.take i).insertIdx i key = keys.take (i + 1) := by
  have length : (keys.take i).length = i :=
    List.length_take_of_le (List.getElem?_eq_some_iff.mp entry).1.le
  rw [List.take_succ, entry, Option.toList_some, ← List.insertIdx_length_self, length]

section

variable {s : Schema} {table : Nat} {x y : Int} (ht : table ∈ s.tables) (distinct : x ≠ y)
include ht distinct

/-- The refill loop, from a list of `x` that holds the first `i` entries of `y`'s: `x`'s
list is then `y`'s, after one link change of it per entry. -/
theorem listCopyFrom_run {column : Nat} (hc : column ∈ s.columns table)
    (listType : s.columnType table column = .linkList) :
    ∀ (n i : Nat) {db : Db}, x ∈ db.objects table →
      (∀ k ∈ db.list table column y, k ∈ db.objects (s.oppositeTable table column) ∧ k ≠ nullKey) →
      db.list table column x = (db.list table column y).take i →
      i + n = (db.list table column y).length →
      ∃ db', (listCopyFrom s table column x y i n).run db = .ok () db' ∧
        StepsWithin s (fun t c a => t = table ∧ c = column ∧ a = x) db db' ∧
        db'.list table column x = db.list table column y
  | 0, i, db, _, _, copied, whole =>
    ⟨db, rfl, .refl, by rw [copied, List.take_of_length_le (by omega)]⟩
  | n + 1, i, db, xLive, live, copied, whole => by
    obtain ⟨key, entry⟩ : ∃ key, (db.list table column y)[i]? = some key :=
      ⟨_, List.getElem?_eq_getElem (by omega)⟩
    obtain ⟨keyLive, keyNotNull⟩ := live key (List.getElem?_mem entry)
    have inRange : i ≤ (db.list table column x).length := by
      rw [copied, List.length_take]
      omega
    set db₁ := (db.moveBacklinks (s.oppositeTable table column) (s.oppositeColumn table column)
      x none (some key)).setList table column x ((db.list table column x).insertIdx i key)
      with inserted
    have moved := (List.perm_insertIdx key _ inRange).trans (List.perm_append_singleton key _).symm
    have change : LinkChange s db db₁ table column x none (some key) :=
      linkChange_setList ht hc listType xLive (by simp) (by simpa using keyLive)
        (by simpa using moved)
    have yList : db₁.list table column y = db.list table column y := by
      simp [inserted, Db.setList, Ne.symm distinct]
    obtain ⟨db', run, steps, copiedAll⟩ := listCopyFrom_run hc listType n (i + 1)
      (show x ∈ db₁.objects table by rw [change.objects]; exact xLive)
      (by rw [yList, change.objects]; exact live)
      (by simp [inserted, Db.setList, copied, insertIdx_take entry, Ne.symm distinct])
      (by rw [yList]; omega)
    refine ⟨db', ?_, .head ⟨_, _, _, _, _, ⟨rfl, rfl, rfl⟩, change⟩ steps, copiedAll.trans yList⟩
    rw [listCopyFrom, run_bind_of_ok (listGet_run entry),
      run_bind_of_ok (listDoInsert_run keyLive keyNotNull)]
    exact run

variable (paired : s.Paired)
include paired

/-- One column of `assign` on a consistent database: the column of `x` then reads what that
of `y` read, after link changes of that column of `x` alone. -/
theorem assignColumn_run {column : Nat} (hc : column ∈ s.columns table) {db : Db}
    (keys : db.KeysValid s) (consistent : db.Consistent s) (xLive : x ∈ db.objects table)
    (yLive : y ∈ db.objects table) :
    ∃ db', (assignColumn s table column x y).run db = .ok () db' ∧
      StepsWithin s (fun t c a => t = table ∧ c = column ∧ a = x) db db' ∧
      (s.columnType table column ≠ .backLink →
        db'.read (s.hop table column) x = db.read (s.hop table column) y) := by
  unfold assignColumn
  cases type : s.columnType table column with
  | link =>
    have linkLive : ∀ a ∈ db.objects table, db.link table column a ≠ nullKey →
        db.link table column a ∈ db.objects (s.oppositeTable table column) := fun a live notNull =>
      consistent.live table ht column hc a live _ (by simp [read_of_link type, keyOption, notNull])
    obtain ⟨db', run, steps, reads⟩ :=
      setObjKey_run_of_live ht hc type xLive (linkLive x xLive) (linkLive y yLive)
    exact ⟨db', by simpa using run, steps, fun _ => by rw [reads, read_of_link type]⟩
  | linkList =>
    obtain ⟨db₁, run₁, steps₁, cleared⟩ :=
      listClearFrom_run paired ht hc type _ keys consistent xLive rfl
    have yList : db₁.list table column y = db.list table column y := by
      simpa [Db.read, type] using
        steps₁.read_eq (show s.columnType table column ≠ .backLink by simp [type])
          fun ⟨_, _, same⟩ => distinct same.symm
    obtain ⟨db', run, steps, copied⟩ := listCopyFrom_run ht distinct hc type
      (db.list table column y).length 0 (steps₁.objects ▸ xLive)
      (by
        rw [yList, steps₁.objects]
        exact fun k mem => read_live paired keys consistent ht hc yLive (by simpa [Db.read, type]))
      (by rw [cleared, List.take_zero]) (by rw [yList, Nat.zero_add])
    refine ⟨db', ?_, steps₁.trans steps, fun _ => by simp [Db.read, type, copied, yList]⟩
    simp only [run_get_bind]
    rw [run_bind_of_ok (by rwa [listClear, run_get_bind]), run]
  | backLink => exact ⟨db, rfl, .refl, fun forward => absurd rfl forward⟩

/-- The loop of `assign` over columns of the table: each of those columns of `x` then reads
what that of `y` read, and no other column changes. -/
theorem assignColumns_run : ∀ (columns : List Nat) {db : Db},
    (∀ c ∈ columns, c ∈ s.columns table) → db.KeysValid s → db.Consistent s →
    x ∈ db.objects table → y ∈ db.objects table →
    ∃ db', (assignColumns s table x y columns).run db = .ok () db' ∧
      StepsWithin s (fun t c a => t = table ∧ c ∈ columns ∧ a = x) db db' ∧
      ∀ c ∈ columns, s.columnType table c ≠ .backLink →
        db'.read (s.hop table c) x = db.read (s.hop table c) y
  | [], db, _, _, _, _, _ => ⟨db, rfl, .refl, fun _ mem => absurd mem (List.not_mem_nil _)⟩
  | column :: columns, db, within, keys, consistent, xLive, yLive => by
    obtain ⟨db₁, run₁, steps₁, read₁⟩ := assignColumn_run ht distinct paired
      (within column (List.mem_cons_self _ _)) keys consistent xLive yLive
    have objects := steps₁.objects
    have after := steps₁.linkSteps.consistent paired keys consistent
    obtain ⟨db', run, steps, reads⟩ := assignColumns_run columns
      (fun c mem => within c (List.mem_cons_of_mem _ mem)) (keys.of_objects objects) after.1
      (objects ▸ xLive) (objects ▸ yLive)
    refine ⟨db', by rw [assignColumns, run_bind_of_ok run₁, run], (steps₁.mono ?_).trans (steps.mono ?_),
      fun c mem forward => ?_⟩
    · rintro t c a ⟨rfl, rfl, rfl⟩
      exact ⟨rfl, List.mem_cons_self _ _, rfl⟩
    · rintro t c a ⟨rfl, mem, rfl⟩
      exact ⟨rfl, List.mem_cons_of_mem _ mem, rfl⟩
    by_cases later : c ∈ columns
    · rw [reads c later forward, steps₁.read_eq forward fun ⟨_, _, same⟩ => distinct same.symm]
    · obtain rfl := (List.mem_cons.mp mem).resolve_right later
      rw [steps.read_eq forward fun ⟨_, mem, _⟩ => later mem, read₁ forward]

end

/-! ## `Obj::assign` -/

/-- On a consistent database of weak links, `x.assign(y)` for two objects of one table
returns and keeps the database consistent, and `y` keeps no backlink. Every forward column
of every object then reads what it read before, with `y` made `x` if the column leads to the
table, except that the columns of `x` start from what those of `y` read. -/
theorem assign_links {s : Schema} {db : Db} {table : Nat} {x y : Int} (paired : s.Paired)
    (keys : db.KeysValid s) (consistent : db.Consistent s) (ht : table ∈ s.tables)
    (xLive : x ∈ db.objects table) (yLive : y ∈ db.objects table) (distinct : x ≠ y) :
    ∃ db', (assign s table x y).run db = .ok () db' ∧ db'.Consistent s ∧
      db'.objects = db.objects ∧ (∀ b ∈ backlinkColumns s table, db'.backlinks table b y = []) ∧
      ∀ t ∈ s.tables, ∀ c ∈ s.columns t, s.columnType t c ≠ .backLink → ∀ a ∈ db.objects t,
        db'.read (s.hop t c) a =
          (db.read (s.hop t c) (if t = table ∧ a = x then y else a)).map fun k =>
            if s.oppositeTable t c = table ∧ k = y then x else k := by
  obtain ⟨db₁, run₁, steps₁, read₁⟩ := assignColumns_run ht distinct paired (s.columns table)
    (fun _ => id) keys consistent xLive yLive
  have objects₁ := steps₁.objects
  have keys₁ := keys.of_objects objects₁
  have after₁ := (steps₁.linkSteps.consistent paired keys consistent).1
  obtain ⟨db', run, steps, objects', reads⟩ := copyAllLinks_run paired ht distinct
    (backlinkColumns s table) (fun _ => id) keys₁ after₁ (objects₁ ▸ xLive) (objects₁ ▸ yLive)
  have after := (steps.consistent paired keys₁ after₁).1
  have reads₁ : ∀ t c, s.columnType t c ≠ .backLink → c ∈ s.columns t → ∀ a,
      db₁.read (s.hop t c) a = db.read (s.hop t c) (if t = table ∧ a = x then y else a) := by
    intro t c forward hc a
    split_ifs with here
    · obtain ⟨rfl, rfl⟩ := here
      exact read₁ c hc forward
    · exact steps₁.read_eq forward fun ⟨sameTable, _, sameKey⟩ => here ⟨sameTable, sameKey⟩
  have redirected : ∀ t ∈ s.tables, ∀ c ∈ s.columns t, s.columnType t c ≠ .backLink →
      ∀ a ∈ db.objects t, db'.read (s.hop t c) a =
        (db.read (s.hop t c) (if t = table ∧ a = x then y else a)).map fun k =>
          if s.oppositeTable t c = table ∧ k = y then x else k := by
    intro t ht' c hc forward a live
    rw [reads t c forward a (objects₁ ▸ live), reads₁ t c forward hc]
    simp only [exists_backlinkColumn_iff paired ht ht' hc forward]
    split_ifs with leads <;> simp [leads]
  refine ⟨db', by rw [assign, run_bind_of_ok run₁, run], after, objects'.trans objects₁,
    fun b hb => backlinks_eq_nil paired ht after (by rw [objects', objects₁]; exact yLive) hb
      fun a live leads => ?_, redirected⟩
  -- Every column that led to `y` leads to `x` there now.
  obtain ⟨column, backLink⟩ := mem_backlinkColumns.1 hb
  have opp := paired.opposite_mem table ht b column
  rw [objects', objects₁] at live
  rw [redirected _ opp.1 _ opp.2 ((paired.backLink_iff table ht b column).not.2 (by simp [backLink]))
    a live, (paired.opposite_opposite table ht b column).1] at leads
  exact not_mem_map_redirect distinct _ (by simpa using leads)

/-- Table 0 has a link list to itself, column 0, whose backlinks are column 1. -/
def selfLinks : Schema :=
  ⟨[0], fun _ => [0, 1], fun _ c => if c = 0 then .linkList else .backLink, fun _ _ => 0,
    fun _ c => 1 - c⟩

/-- Objects 0, 1 and 2: object 1 lists itself and object 2, the others list object 1. -/
def listsOfOne : Db :=
  ⟨fun _ => [0, 1, 2], fun _ _ _ => nullKey, fun _ _ k => if k = 1 then [1, 2] else [1],
    fun _ _ k => if k = 1 then [0, 1, 2] else if k = 2 then [1] else []⟩

/-- Object 0 takes the list of object 1, which links to itself, and every `1` becomes `0`. -/
theorem assign_links_listsOfOne :
    ∃ db', (assign selfLinks 0 0 1).run listsOfOne = .ok () db' ∧ db'.Consistent selfLinks ∧
      db'.objects = listsOfOne.objects ∧
      (∀ b ∈ backlinkColumns selfLinks 0, db'.backlinks 0 b 1 = []) ∧
      ∀ t ∈ selfLinks.tables, ∀ c ∈ selfLinks.columns t, selfLinks.columnType t c ≠ .backLink →
        ∀ a ∈ listsOfOne.objects t,
          db'.read (selfLinks.hop t c) a =
            (listsOfOne.read (selfLinks.hop t c) (if t = 0 ∧ a = 0 then 1 else a)).map fun k =>
              if selfLinks.oppositeTable t c = 0 ∧ k = 1 then 0 else k :=
  assign_links (by decide) (by decide) (by decide) (by decide) (by decide) (by decide)
    (by decide)

end Links
end RealmCore
