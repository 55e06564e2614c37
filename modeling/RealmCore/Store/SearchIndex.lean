import RealmCore.Store.Setters

/-!
# The search index and the types of the cells

`IndexExact` says that the index of every indexed column holds, for each object, exactly
one entry, for the value the object holds; `Typed` says that every cell holds what its
column's leaf can hold. Together they are `Valid`.

Every setter call that keeps to the columns' types either throws before its first write, or
tells the index the value it then writes to the leaf, one the column can hold (`Outcome`).
So `run_valid` shows that every sequence of calls keeps the table valid, calls that throw
included, as long as `add_int` is called on `Int` columns only. On an indexed column of
another type, `add_int` tells the index the integer sum while the leaf, read by its own type,
holds something else: `addInt_breaks_indexExact` shows the index is then not exact, whatever
the leaf reads back.
-/

namespace RealmCore
namespace Store

/-- The search index of every indexed column holds one entry per object, for the value the
object holds, and nothing else; object keys are unique. -/
structure Table.IndexExact (t : Table) : Prop where
  nodup : t.objects.Nodup
  exact : ∀ col ∈ t.columnKeys, (t.column col).indexed = true →
    (t.index col).Perm (t.objects.map fun o => ⟨t.value col o, o⟩)

instance (t : Table) : Decidable t.IndexExact :=
  decidable_of_iff (_ ∧ _) ⟨fun ⟨a, b⟩ => ⟨a, b⟩, fun ⟨a, b⟩ => ⟨a, b⟩⟩

/-- Every object holds, in every column, what the column's leaf can hold. -/
def Table.Typed (t : Table) : Prop :=
  ∀ col ∈ t.columnKeys, ∀ o ∈ t.objects, (t.column col).holds (t.value col o) = true

instance (t : Table) : Decidable t.Typed :=
  inferInstanceAs (Decidable (∀ col ∈ t.columnKeys, ∀ o ∈ t.objects, _))

/-- The invariant of a table: exact search indexes and typed cells. -/
structure Table.Valid (t : Table) : Prop where
  indexExact : t.IndexExact
  typed : t.Typed

instance (t : Table) : Decidable t.Valid :=
  decidable_of_iff (_ ∧ _) ⟨fun ⟨a, b⟩ => ⟨a, b⟩, fun ⟨a, b⟩ => ⟨a, b⟩⟩

/-- What one setter call that keeps to the columns' types can do: throw before any write, or
make the two writes of `write` for an object of the table, of a value the column's leaf can
hold. -/
inductive Table.Outcome (t : Table) : Table × Option LogicError → Prop
  | threw (e : LogicError) : t.Outcome (t, some e)
  | wrote {col : Nat} {key : Int} (v : Mixed) (live : key ∈ t.objects)
      (holds : (t.column col).holds v = true) : t.Outcome (t.write col key v, none)

/-- `t'` is what one setter call can leave of `t`, whether it returned or threw. -/
def Table.Step (t t' : Table) : Prop := ∃ e, t.Outcome (t', e)

/-- The tables a sequence of such calls can leave. -/
def Table.Reaches : Table → Table → Prop := Relation.ReflTransGen Table.Step

/-- A null fits a column's leaf when the column is nullable. -/
@[simp] theorem Column.holds_null (c : Column) : c.holds .null = c.nullable := rfl

/-- A value of the column's type fits the column's leaf. -/
theorem Column.holds_of_getType {c : Column} {v : Mixed} (typed : v.getType = some c.type) :
    c.holds v = true := by
  cases v <;> simp_all [Column.holds, Mixed.getType]

namespace Table

/-! ## The writes keep the table valid -/

@[simp] theorem store_columnKeys (t : Table) (col : Nat) (key : Int) (v : Mixed) :
    (t.store col key v).columnKeys = t.columnKeys := rfl

@[simp] theorem store_column (t : Table) (col : Nat) (key : Int) (v : Mixed) :
    (t.store col key v).column = t.column := rfl

@[simp] theorem store_objects (t : Table) (col : Nat) (key : Int) (v : Mixed) :
    (t.store col key v).objects = t.objects := rfl

@[simp] theorem store_index (t : Table) (col : Nat) (key : Int) (v : Mixed) :
    (t.store col key v).index = t.index := rfl

section

variable (t : Table) (col : Nat) (key : Int) (told v : Mixed)

@[simp] theorem writeAs_columnKeys : (t.writeAs col key told v).columnKeys = t.columnKeys := by
  unfold writeAs
  split <;> rfl

@[simp] theorem writeAs_column : (t.writeAs col key told v).column = t.column := by
  unfold writeAs
  split <;> rfl

@[simp] theorem writeAs_objects : (t.writeAs col key told v).objects = t.objects := by
  unfold writeAs
  split <;> rfl

/-- After the writes, the leaf of `col` holds `v` for `key`, and every other cell is as it
was. -/
theorem writeAs_value :
    (t.writeAs col key told v).value = fun c k => if c = col ∧ k = key then v else t.value c k := by
  unfold writeAs
  split <;> rfl

/-- The index of another column is as it was. -/
theorem writeAs_index_of_ne {c : Nat} (ne : c ≠ col) :
    (t.writeAs col key told v).index c = t.index c := by
  unfold writeAs
  split <;> simp [store, indexSet, ne]

/-- The index of an indexed column loses the entry for the value the leaf held and gains one
for the value it was told. -/
theorem writeAs_index_self (indexed : (t.column col).indexed = true) :
    (t.writeAs col key told v).index col =
      (t.index col).erase ⟨t.value col key, key⟩ ++ [⟨told, key⟩] := by
  simp [writeAs, indexed, store, indexSet]

end

/-- Changing the entry of one key of a list of unique keys moves one entry of the mapped
list: the old one leaves, the new one joins. -/
theorem map_update_perm {β : Type} [DecidableEq β] {objects : List Int}
    (nodup : objects.Nodup) {key : Int} (live : key ∈ objects) (f g : Int → β)
    (same : ∀ o, o ≠ key → g o = f o) :
    (objects.map g).Perm ((objects.map f).erase (f key) ++ [g key]) := by
  have split := List.perm_cons_erase live
  have rest : (objects.erase key).map g = (objects.erase key).map f :=
    List.map_congr_left fun o mem => same o fun eq => nodup.not_mem_erase (eq ▸ mem)
  have moved : (objects.map g).Perm (g key :: (objects.erase key).map f) := by
    simpa [rest] using split.map g
  have left : ((objects.map f).erase (f key)).Perm ((objects.erase key).map f) := by
    simpa using (split.map f).erase (f key)
  exact moved.trans ((left.symm.cons _).trans (List.perm_append_singleton _ _).symm)

/-- The writes of a typed setter on a live object keep every index exact. -/
theorem write_indexExact {t : Table} (exact : t.IndexExact) {key : Int} (live : key ∈ t.objects)
    (col : Nat) (v : Mixed) : (t.write col key v).IndexExact := by
  refine ⟨by simpa [write] using exact.nodup, fun col' mem indexed => ?_⟩
  simp only [write, writeAs_columnKeys, writeAs_column, writeAs_objects] at mem indexed ⊢
  rw [writeAs_value]
  by_cases same : col' = col
  · subst same
    have moved := map_update_perm exact.nodup live (fun o => IndexEntry.mk (t.value col' o) o)
      (fun o => IndexEntry.mk (if o = key then v else t.value col' o) o) fun o ne => by simp [ne]
    simp only [eq_self_iff_true, if_true] at moved
    rw [writeAs_index_self _ _ _ _ _ indexed]
    simp only [eq_self_iff_true, true_and]
    exact (((exact.exact col' mem indexed).erase _).append_right _).trans moved.symm
  · rw [writeAs_index_of_ne _ _ _ _ _ same]
    simpa [same] using exact.exact col' mem indexed

/-- Writing a value the column's leaf can hold keeps every cell typed. -/
theorem write_typed {t : Table} (typed : t.Typed) {col : Nat} {v : Mixed}
    (holds : (t.column col).holds v = true) (key : Int) : (t.write col key v).Typed := by
  intro c mem o live
  simp only [write, writeAs_columnKeys, writeAs_column, writeAs_objects, writeAs_value] at mem live ⊢
  split_ifs with here
  · exact here.1 ▸ holds
  · exact typed c mem o live

/-- One setter call keeps every index exact. -/
theorem Outcome.indexExact {t : Table} {r : Table × Option LogicError} (exact : t.IndexExact) :
    t.Outcome r → r.1.IndexExact
  | .threw _ => exact
  | .wrote _ live _ => write_indexExact exact live _ _

/-- One setter call keeps every cell typed. -/
theorem Outcome.typed {t : Table} {r : Table × Option LogicError} (typed : t.Typed) :
    t.Outcome r → r.1.Typed
  | .threw _ => typed
  | .wrote _ _ holds => write_typed typed holds _

/-- One setter call keeps the table valid. -/
theorem Outcome.valid {t : Table} {r : Table × Option LogicError} (valid : t.Valid)
    (outcome : t.Outcome r) : r.1.Valid :=
  ⟨outcome.indexExact valid.indexExact, outcome.typed valid.typed⟩

/-- A call that throws leaves the table as it was. -/
theorem Outcome.eq_of_threw {t t' : Table} {e : LogicError} :
    t.Outcome (t', some e) → t' = t := by
  rintro ⟨⟩
  rfl

/-- A setter call adds and removes no object and no column. -/
theorem Outcome.frame {t : Table} {r : Table × Option LogicError} :
    t.Outcome r →
      r.1.objects = t.objects ∧ r.1.columnKeys = t.columnKeys ∧ r.1.column = t.column
  | .threw _ => ⟨rfl, rfl, rfl⟩
  | .wrote .. => ⟨writeAs_objects .., writeAs_columnKeys .., writeAs_column ..⟩

/-- What every setter call keeps holds after every sequence of them. -/
theorem Reaches.keeps {P : Table → Prop}
    (kept : ∀ {t : Table} {r : Table × Option LogicError}, P t → t.Outcome r → P r.1)
    {t t' : Table} (holds : P t) (reach : t.Reaches t') : P t' := by
  induction reach with
  | refl => exact holds
  | tail _ step ih =>
    obtain ⟨_, outcome⟩ := step
    exact kept ih outcome

/-- A sequence of setter calls adds and removes no object and no column. -/
theorem Reaches.frame {t t' : Table} (reach : t.Reaches t') :
    t'.objects = t.objects ∧ t'.columnKeys = t.columnKeys ∧ t'.column = t.column := by
  induction reach with
  | refl => exact ⟨rfl, rfl, rfl⟩
  | tail _ step ih =>
    obtain ⟨_, outcome⟩ := step
    obtain ⟨objects, columnKeys, column⟩ := outcome.frame
    exact ⟨objects.trans ih.1, columnKeys.trans ih.2.1, column.trans ih.2.2⟩

/-! ## What each setter can do -/

section

variable (t : Table) (col : Nat) (key : Int)

/-- `set<int64_t>` throws or writes the value. -/
theorem setInt_outcome (value : Int) : t.Outcome (t.setInt col key value) := by
  unfold setInt
  split_ifs with live int
  · exact .threw _
  · exact .wrote _ live (Column.holds_of_getType (congrArg some (not_not.mp int)).symm)
  · exact .threw _

/-- On an `Int` leaf the integer view writes the sum itself. -/
theorem writeInt_of_int {t : Table} {col : Nat} (int : (t.column col).type = .int) (key n : Int) :
    t.writeInt col key n = t.write col key (.int n) := by
  rw [writeInt, t.intView.readBack_int _ int, write]

/-- `add_int` on an `Int` column throws or writes the sum, which the index is told. -/
theorem addInt_outcome {value : Int} (int : (t.column col).type = .int) :
    t.Outcome (t.addInt col key value) := by
  have wrote : ∀ n, key ∈ t.objects → t.Outcome (t.writeInt col key n, none) := fun n live =>
    writeInt_of_int int key n ▸ .wrote _ live (Column.holds_of_getType (congrArg some int).symm)
  unfold addInt
  split_ifs with live
  · split
    · exact wrote _ live
    · exact .threw _
  · exact wrote _ live
  · exact .threw _

/-- A typed setter, given a null or a value of its type, throws or writes it. -/
theorem setTyped_outcome {type : DataType} {value : Mixed}
    (ofType : value = .null ∨ value.getType = some type) :
    t.Outcome (t.setTyped col key type value) := by
  unfold setTyped
  split_ifs with live other nullable
  · exact .threw _
  · exact .threw _
  · split
    · exact .threw _
    · refine .wrote _ live ?_
      rcases ofType with rfl | typed
      · simpa using nullable
      · exact Column.holds_of_getType (typed.trans (congrArg some (not_not.mp other)).symm)
  · exact .threw _

/-- `set_null` throws or writes null into a nullable column. -/
theorem setNull_outcome : t.Outcome (t.setNull col key) := by
  unfold setNull
  split_ifs with nullable live
  · exact .threw _
  · exact .wrote _ live (by simpa using nullable)
  · exact .threw _

/-- `set(col_key, Mixed)` is one of the setters above, or throws. -/
theorem setMixed_outcome (value : Mixed) : t.Outcome (t.setMixed col key value) := by
  unfold setMixed
  split
  · exact t.setNull_outcome col key
  · split_ifs
    · exact t.setInt_outcome col key _
    · exact .threw _
  · split
    · split_ifs
      · exact t.setTyped_outcome col key (.inr ‹_›)
      · exact .threw _
    · exact .threw _

end

/-- One column of `assign` is one setter call. -/
theorem assignColumn_outcome (t : Table) (key other : Int) (col : Nat) :
    t.Outcome (t.assignColumn key other col) := by
  unfold assignColumn
  split_ifs
  · split
    · exact t.setNull_outcome col key
    · exact t.setTyped_outcome col key (.inr rfl)
    · exact t.setTyped_outcome col key (.inr rfl)
    · exact t.setMixed_outcome col key _
  · exact .threw _

/-- The loop of `assign` is a run of single column copies; a throw keeps the copies made
before it. -/
theorem assignColumns_reaches (t : Table) (key other : Int) (cols : List Nat) :
    t.Reaches (t.assignColumns key other cols).1 := by
  induction cols generalizing t with
  | nil => exact .refl
  | cons col cols ih =>
    have step := t.assignColumn_outcome key other col
    unfold assignColumns
    split <;> rename_i copied
    · exact .single ⟨_, copied ▸ step⟩
    · exact .head ⟨_, copied ▸ step⟩ (ih _)

/-- A loop that returns returned from its first column, and from the rest of the loop
after it. -/
theorem assignColumns_cons_of_returned {t t' : Table} {key other : Int} {col : Nat}
    {cols : List Nat} (ran : t.assignColumns key other (col :: cols) = (t', none)) :
    ∃ t₁, t.assignColumn key other col = (t₁, none) ∧ t₁.assignColumns key other cols = (t', none) := by
  rcases first : t.assignColumn key other col with ⟨t₁, _ | e⟩
  · rw [assignColumns, first] at ran
    exact ⟨t₁, rfl, ran⟩
  · rw [assignColumns, first] at ran
    cases ran

/-! ## What the loop of `assign` copies -/

/-- One column of `assign`, of a value that fits the column: the column of `key` then holds
`other`'s value, and nothing else changes. -/
theorem assignColumn_copies (t : Table) {key other : Int} {col : Nat} (keyLive : key ∈ t.objects)
    (otherLive : other ∈ t.objects) (fits : (t.column col).fits (t.value col other) = true) :
    ∃ t', t.assignColumn key other col = (t', none) ∧ t'.column = t.column ∧
      t'.objects = t.objects ∧
      t'.value = fun c k => if c = col ∧ k = key then t.value col other else t.value c k := by
  have wrote : ∀ v, (∃ t', (t.write col key v, (none : Option LogicError)) = (t', none) ∧
      t'.column = t.column ∧ t'.objects = t.objects ∧
      t'.value = fun c k => if c = col ∧ k = key then v else t.value c k) :=
    fun v => ⟨_, rfl, by simp [write], by simp [write], writeAs_value t col key v v⟩
  unfold assignColumn
  rw [if_neg (not_not.mpr otherLive)]
  cases value : t.value col other
  case null =>
    simp only [Column.fits, value] at fits
    simpa [setNull, keyLive, fits] using wrote .null
  all_goals
    simp only [Column.fits, value, Mixed.getType, Bool.and_eq_true, beq_iff_eq,
      Option.some.injEq, Option.isNone_iff_eq_none] at fits
    simpa [setMixed, setInt, setTyped, Mixed.getType, ← fits.1, fits.2, keyLive] using wrote _

/-- The loop of `assign` over columns whose values of `other` fit them: it throws nothing,
and those columns of `key` then hold `other`'s values. -/
theorem assignColumns_copies {key other : Int} : ∀ (cols : List Nat) (t : Table),
    key ∈ t.objects → other ∈ t.objects →
    (∀ col ∈ cols, (t.column col).fits (t.value col other) = true) →
    ∃ t', t.assignColumns key other cols = (t', none) ∧ t'.column = t.column ∧
      t'.objects = t.objects ∧
      t'.value = fun c k => if c ∈ cols ∧ k = key then t.value c other else t.value c k
  | [], t, _, _, _ => ⟨t, rfl, rfl, rfl, by funext c k; simp⟩
  | col :: cols, t, keyLive, otherLive, fits => by
    obtain ⟨t₁, copied, column, objects, value⟩ :=
      t.assignColumn_copies keyLive otherLive (fits col (List.mem_cons_self _ _))
    have same : ∀ c, t₁.value c other = t.value c other := fun c => by
      simp only [value]
      split_ifs with here
      · rw [here.1]
      · rfl
    obtain ⟨t', rest, column', objects', value'⟩ := assignColumns_copies cols t₁
      (objects ▸ keyLive) (objects ▸ otherLive) fun c mem => by
        rw [column, same]
        exact fits c (List.mem_cons_of_mem _ mem)
    refine ⟨t', by rw [assignColumns, copied]; exact rest, column'.trans column,
      objects'.trans objects, ?_⟩
    rw [value']
    funext c k
    by_cases atKey : k = key <;> by_cases here : c = col <;> simp [same, value, atKey, here]

/-! ## Runs of calls -/

/-- A call that keeps to the columns' types is a run of setter calls. -/
theorem Op.apply_reaches (t : Table) : (op : Op) → op.Allowed t.column = true →
    t.Reaches (op.apply t).1
  | .setInt .., _ => .single ⟨_, t.setInt_outcome ..⟩
  | .addInt .., int => .single ⟨_, t.addInt_outcome _ _ (by simpa [Op.Allowed] using int)⟩
  | .setBool .., _ | .setFloat .., _ | .setDouble .., _ | .setTimestamp _ _ none, _
  | .setTimestamp _ _ (some _), _ | .setString _ _ none, _ | .setString _ _ (some _), _
  | .setBinary _ _ none, _ | .setBinary _ _ (some _), _ =>
    .single ⟨_, t.setTyped_outcome _ _ (by simp [Mixed.getType])⟩
  | .setNull .., _ => .single ⟨_, t.setNull_outcome ..⟩
  | .setMixed .., _ => .single ⟨_, t.setMixed_outcome ..⟩
  | .assign key other, _ => t.assignColumns_reaches key other _

/-- A sequence of calls that keep to the columns' types is a run of setter calls. -/
theorem run_reaches (t : Table) (ops : List Op) (allowed : ∀ op ∈ ops, op.Allowed t.column = true) :
    t.Reaches (t.run ops) := by
  induction ops generalizing t with
  | nil => exact .refl
  | cons op ops ih =>
    have first := Op.apply_reaches t op (allowed op (List.mem_cons_self _ _))
    refine first.trans (ih _ fun op' mem => ?_)
    rw [first.frame.2.2]
    exact allowed op' (List.mem_cons_of_mem _ mem)

end Table

/-- Every sequence of setter calls that calls `add_int` only on `Int` columns, calls that
throw included, keeps every search index exact and every cell typed. -/
theorem run_valid (t : Table) (ops : List Op) (allowed : ∀ op ∈ ops, op.Allowed t.column = true)
    (valid : t.Valid) : (t.run ops).Valid :=
  (t.run_reaches ops allowed).keeps (fun valid outcome => outcome.valid valid) valid

/-- Two objects, an indexed nullable `Int` column 0 and an indexed nullable `String`
column 1, all null. -/
def twoIndexedColumns : Table where
  columnKeys := [0, 1]
  column := fun c =>
    if c = 0 then ⟨.int, true, true, by decide⟩ else ⟨.string, true, true, by decide⟩
  objects := [1, 2]
  value := fun _ _ => .null
  index := fun _ => [⟨.null, 1⟩, ⟨.null, 2⟩]
  intView := .boolBits

/-- Sets, a wrapping `add_int`, a `set_null`, a call on a missing object, a string over
nothing and an `assign`. -/
def setterCalls : List Op :=
  [.setInt 0 1 (2 ^ 63 - 1), .addInt 0 1 1, .setString 1 2 (some "x"), .setNull 0 2,
    .setInt 0 3 4, .addInt 0 2 1, .assign 1 2]

/-- `setterCalls` keeps the two indexed columns valid. -/
theorem run_valid_setterCalls :
    (∀ op ∈ setterCalls, op.Allowed twoIndexedColumns.column = true) ∧
      twoIndexedColumns.Valid ∧ (twoIndexedColumns.run setterCalls).Valid :=
  ⟨by decide, by decide, run_valid _ _ (by decide) (by decide)⟩

/-! ## `add_int` on a column of another type -/

namespace Table

/-- An `add_int` that returns wrote the sum through the integer view, for a live object. -/
theorem addInt_of_returned {t : Table} {col : Nat} {key value : Int}
    (returned : (t.addInt col key value).2 = none) :
    key ∈ t.objects ∧ ∃ n, (t.addInt col key value).1 = t.writeInt col key n := by
  revert returned
  unfold addInt
  split_ifs with live
  · split
    · exact fun _ => ⟨live, _, rfl⟩
    · simp
  · exact fun _ => ⟨live, _, rfl⟩
  · simp

/-- `add_int` on an indexed column of another type than `Int` that returns leaves the index
not exact: the index holds an entry for the integer sum, which the leaf, read by the
column's type, does not hold. -/
theorem addInt_breaks_indexExact (t : Table) {col : Nat} {key value : Int}
    (mem : col ∈ t.columnKeys) (indexed : (t.column col).indexed = true)
    (other : (t.column col).type ≠ .int) (returned : (t.addInt col key value).2 = none) :
    ¬(t.addInt col key value).1.IndexExact := by
  obtain ⟨-, n, eq⟩ := addInt_of_returned returned
  rw [eq]
  intro exact
  have told : (⟨.int n, key⟩ : IndexEntry) ∈ (t.writeInt col key n).index col := by
    simp [writeInt, writeAs_index_self _ _ _ _ _ indexed]
  obtain ⟨o, -, same⟩ := List.mem_map.mp
    ((exact.exact col (by simpa [writeInt] using mem) (by simpa [writeInt] using indexed)).subset
      told)
  obtain ⟨held, rfl⟩ := IndexEntry.mk.inj same
  simp only [writeInt, writeAs_value, and_self, if_true] at held
  rcases t.intView.readBack_ofType (t.column col) (t.value col o) n with null | typed
  · rw [null] at held
    cases held
  · rw [held] at typed
    exact other (Option.some.inj typed).symm

end Table

/-- One live object, `0`, holding `false` in column `0`, an indexed Bool column that is not
nullable. -/
def indexedBool : Table where
  columnKeys := [0]
  column := fun _ => ⟨.bool, false, true, by decide⟩
  objects := [0]
  value := fun _ _ => .bool false
  index := fun _ => [⟨.bool false, 0⟩]
  intView := .boolBits

/-- `add_int(1)` on the indexed Bool column returns and leaves the index with an entry for `1`,
which a later `set<bool>(false)` does not erase: it looks for the `true` the leaf reads back. -/
theorem addInt_breaks_indexExact_indexedBool :
    indexedBool.IndexExact ∧ (indexedBool.addInt 0 0 1).2 = none ∧
      ¬(indexedBool.addInt 0 0 1).1.IndexExact ∧
      ((indexedBool.addInt 0 0 1).1.setTyped 0 0 .bool (.bool false)).1.index 0 =
        [⟨.int 1, 0⟩, ⟨.bool false, 0⟩] :=
  ⟨by decide, rfl, indexedBool.addInt_breaks_indexExact (by decide) rfl (by decide) rfl, by decide⟩

end Store
end RealmCore
