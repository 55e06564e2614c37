import RealmCore.Json.Escape
import RealmCore.Keys
import RealmCore.Query.Row

/-!
# `ConstObj::to_json`

`to_json(out, link_depth, renames, followed)` writes an object as a JSON object: its key, and
each column under its (renamed) name. A list is written element by element with
`out_mixed`. A link, or each entry of a list of links, is written in full by a nested
`to_json` call one level down, unless `link_depth` is `0`, or `link_depth` is `not_found`
(the `operator<<` case) and the column is already in `followed`; then only the target's key
is written. Before each nested call the column is pushed on `followed`, which is shared by
reference across the whole walk and never popped.

The walk is modelled with a budget of nesting levels (`fuel`). `toJson_terminates` shows
that it always returns: with `link_depth = not_found` within as many levels as the schema has
link columns, since a column is followed only if it was not in `followed` when the walk
reached it, and is pushed before its first nested call; with a finite `link_depth`, within
`link_depth` levels. The second and later entries of a list of links are expanded with the
column already pushed, and push it again (`toJson_listLoop_pushes_twice`).
`toJson_control_char` shows what a string holding U+0001 is written as.
-/

namespace RealmCore
namespace Json

open Query (notFound)

/-- What `to_json` does with a column: write its value or its list of values, or follow its
link or its list of links. -/
inductive ColumnKind
  | value
  | list
  | link
  | linkList
  deriving DecidableEq, Repr

/-- What `to_json` reads of a database: the names of its tables, each table's column keys
(`ColKey` values, which columns of two tables may share), their names and kinds, the target
table of a link column, and each object's values. A link column leads to a table of the
database. -/
structure Graph where
  tables : List Nat
  tableName : Nat → String
  columnKeys : Nat → List Nat
  columnName : Nat → Nat → String
  kind : Nat → Nat → ColumnKind
  targetTable : Nat → Nat → Nat
  value : Nat → Nat → Int → Mixed
  list : Nat → Nat → Int → List Mixed
  link : Nat → Nat → Int → Int
  linkList : Nat → Nat → Int → List Int
  targets_mem : ∀ t ∈ tables, ∀ ck ∈ columnKeys t, kind t ck = .link ∨ kind t ck = .linkList →
    targetTable t ck ∈ tables

/-- How `out_mixed` writes what the source leaves to the standard library or to code not in
it: a `float` or `double` in `std::scientific`, a binary in base 64 (`util::base64_encode`),
and a `Timestamp` by its `operator<<`. -/
structure Formatters where
  float : UInt32 → String
  double : UInt64 → String
  binary : List UInt8 → String
  timestamp : Timestamp → String

/-- `out_mixed(out, val)`; a link writes nothing. -/
def outMixed (fmt : Formatters) : Mixed → String
  | .null => "null"
  | .int v => toString v
  | .bool b => if b then "true" else "false"
  | .float bits => fmt.float bits
  | .double bits => fmt.double bits
  | .string s => outString s
  | .binary b => "\"" ++ fmt.binary b ++ "\""
  | .timestamp t => "\"" ++ fmt.timestamp t ++ "\""
  | .link _ => ""

/-- `renames[name] != "" ? renames[name] : name`. -/
def rename (renames : String → String) (name : String) : String :=
  if renames name ≠ "" then renames name else name

/-- `link_depth == not_found ? not_found : link_depth - 1`. -/
def newDepth (linkDepth : Nat) : Nat := if linkDepth = notFound then notFound else linkDepth - 1

/-- Whether `to_json` writes only the target's key for column `ck`: `link_depth == 0`, or
`link_depth == not_found` and `ck` is in `followed`. -/
def shallow (linkDepth : Nat) (followed : List Nat) (ck : Nat) : Bool :=
  linkDepth = 0 ∨ (linkDepth = notFound ∧ ck ∈ followed)

section Walk

variable (g : Graph) (fmt : Formatters) (renames : String → String)

/-- The loop of `to_json` over the entries `keys` of a list of links it follows: each target
in full by `nested` at depth `depth`, with `ck` pushed on `followed` first. -/
def linkListJson (nested : Nat → List Nat → Nat → Int → Option (String × List Nat))
    (depth ck target : Nat) : List Int → List Nat → Option (List String × List Nat)
  | [], followed => some ([], followed)
  | k :: ks, followed =>
      (nested depth (followed ++ [ck]) target k).bind fun r =>
        (linkListJson nested depth ck target ks r.2).map fun rs => (r.1 :: rs.1, rs.2)

/-- What `to_json` writes for column `ck` of object `key` of `table`, and `followed` after
it; `nested` is `to_json` of a linked object. -/
def columnJson (nested : Nat → List Nat → Nat → Int → Option (String × List Nat))
    (linkDepth table : Nat) (key : Int) (followed : List Nat) (ck : Nat) :
    Option (String × List Nat) :=
  let head := ",\"" ++ rename renames (g.columnName table ck) ++ "\":"
  let target := g.targetTable table ck
  match g.kind table ck with
  | .linkList =>
      let keys := g.linkList table ck key
      if shallow linkDepth followed ck then
        some (head ++ "\x7b\"table\": \"" ++ g.tableName target ++ "\", \"keys\": [" ++
          ",".intercalate (keys.map toString) ++ "]\x7d", followed)
      else
        (linkListJson nested (newDepth linkDepth) ck target keys followed).map fun r =>
          (head ++ "[" ++ ",".intercalate r.1 ++ "]", r.2)
  | .list =>
      some (head ++ "[" ++ ",".intercalate ((g.list table ck key).map (outMixed fmt)) ++ "]",
        followed)
  | .link =>
      let k := g.link table ck key
      if k = nullKey then some (head ++ "null", followed)
      else if shallow linkDepth followed ck then
        some (head ++ "\x7b\"table\": \"" ++ g.tableName target ++ "\", \"key\": " ++ toString k ++
          "\x7d", followed)
      else
        (nested (newDepth linkDepth) (followed ++ [ck]) target k).map fun r => (head ++ r.1, r.2)
  | .value => some (head ++ outMixed fmt (g.value table ck key), followed)

/-- The loop of `to_json` over the columns `cks`, threading `followed`. -/
def columnsJson (nested : Nat → List Nat → Nat → Int → Option (String × List Nat))
    (linkDepth table : Nat) (key : Int) : List Nat → List Nat → Option (String × List Nat)
  | [], followed => some ("", followed)
  | ck :: cks, followed =>
      (columnJson g fmt renames nested linkDepth table key followed ck).bind fun r =>
        (columnsJson nested linkDepth table key cks r.2).map fun rs => (r.1 ++ rs.1, rs.2)

/-- `ConstObj::to_json(out, link_depth, renames, followed)` of object `key` of `table`, with
at most `fuel` levels of nesting: what it writes and `followed` after it. -/
def toJson : (fuel linkDepth : Nat) → List Nat → Nat → Int → Option (String × List Nat)
  | 0, _, _, _, _ => none
  | fuel + 1, linkDepth, followed, table, key =>
      (columnsJson g fmt renames (toJson fuel) linkDepth table key (g.columnKeys table)
        followed).map fun r =>
          ("\x7b\"" ++ rename renames "_key" ++ "\":" ++ toString key ++ r.1 ++ "\x7d", r.2)

end Walk

/-! ## The walk always returns -/

/-- The link columns of the database, as the `ColKey` values `followed` holds. -/
def linkColumns (g : Graph) : List Nat :=
  (g.tables.flatMap fun t => (g.columnKeys t).filter fun ck =>
    g.kind t ck = .link ∨ g.kind t ck = .linkList).dedup

/-- How many levels a walk from `followed` at `linkDepth` may still nest: the link columns not
in `followed` for `not_found`, `linkDepth` otherwise. -/
def budget (g : Graph) (linkDepth : Nat) (followed : List Nat) : Nat :=
  if linkDepth = notFound then ((linkColumns g).filter fun ck => ck ∉ followed).length
  else linkDepth

/-- A call returned, with a `followed` that extends `followed`. -/
def Grows {α : Type} (followed : List Nat) : Option (α × List Nat) → Prop
  | some r => followed ⊆ r.2
  | none => False

section Grows

variable {α β : Type} {followed : List Nat}

theorem Grows.mono {grown : List Nat} {r : Option (α × List Nat)} (sub : followed ⊆ grown)
    (grows : Grows grown r) : Grows followed r := by
  cases r with
  | none => exact grows
  | some r => exact List.Subset.trans sub grows

theorem Grows.bind {r : Option (α × List Nat)} {k : α × List Nat → Option (β × List Nat)}
    (grows : Grows followed r) (next : ∀ x, r = some x → Grows x.2 (k x)) :
    Grows followed (r.bind k) := by
  cases r with
  | none => exact absurd grows id
  | some x => exact (next x rfl).mono grows

theorem Grows.map {r : Option (α × List Nat)} {h : α × List Nat → β × List Nat}
    (grows : Grows followed r) (keeps : ∀ x, (h x).2 = x.2) : Grows followed (r.map h) := by
  cases r with
  | none => exact grows
  | some x =>
    show followed ⊆ (h x).2
    rw [keeps]
    exact grows

theorem Grows.isSome {r : Option (α × List Nat)} (grows : Grows followed r) : r.isSome := by
  cases r with
  | none => exact absurd grows id
  | some _ => rfl

end Grows

theorem mem_linkColumns {g : Graph} {t ck : Nat} (ht : t ∈ g.tables) (hck : ck ∈ g.columnKeys t)
    (isLink : g.kind t ck = .link ∨ g.kind t ck = .linkList) : ck ∈ linkColumns g := by
  simp only [linkColumns, List.mem_dedup, List.mem_flatMap, List.mem_filter]
  exact ⟨t, ht, hck, by simpa using isLink⟩

theorem budget_anti (g : Graph) (linkDepth : Nat) {followed grown : List Nat}
    (sub : followed ⊆ grown) : budget g linkDepth grown ≤ budget g linkDepth followed := by
  unfold budget
  split_ifs
  · exact (List.monotone_filter_right _ fun ck out => by
      simp only [decide_eq_true_eq] at out ⊢
      exact fun mem => out (sub mem)).length_le
  · exact le_rfl

/-- A nested call is made for a column the walk does not stop at, and is made one level
down: for `not_found` with one more column in `followed`, otherwise at `link_depth - 1`. -/
theorem budget_nested {g : Graph} {linkDepth ck : Nat} {followed grown : List Nat}
    (inRange : linkDepth ≤ notFound) (deep : shallow linkDepth followed ck = false)
    (link : ck ∈ linkColumns g) (sub : followed ⊆ grown) :
    budget g (newDepth linkDepth) (grown ++ [ck]) < budget g linkDepth followed := by
  simp only [shallow, decide_eq_false_iff_not, not_or, not_and] at deep
  by_cases top : linkDepth = notFound
  · subst top
    have fresh := deep.2 rfl
    have pushed : budget g notFound (grown ++ [ck]) ≤ budget g notFound (followed ++ [ck]) :=
      budget_anti g notFound fun x mem => by
        simp only [List.mem_append] at mem ⊢
        exact mem.imp_left (sub ·)
    refine lt_of_le_of_lt (by simpa [newDepth] using pushed) ?_
    rw [budget, budget, if_pos rfl, if_pos rfl]
    have shrinks : List.Sublist ((linkColumns g).filter fun c => c ∉ followed ++ [ck])
        ((linkColumns g).filter fun c => c ∉ followed) :=
      List.monotone_filter_right _ fun c out => by simp_all
    refine lt_of_le_of_ne shrinks.length_le fun same => ?_
    have mem : ck ∈ (linkColumns g).filter fun c => c ∉ followed :=
      List.mem_filter.2 ⟨link, by simpa using fresh⟩
    rw [← shrinks.eq_of_length same] at mem
    simp at mem
  · have below : linkDepth - 1 ≠ notFound := by simp only [notFound] at *; omega
    simp only [budget, newDepth, top, if_false, below]
    omega

theorem newDepth_le {linkDepth : Nat} (inRange : linkDepth ≤ notFound) :
    newDepth linkDepth ≤ notFound := by
  unfold newDepth
  split_ifs <;> omega

section Returns

variable {g : Graph} {fmt : Formatters} {renames : String → String}
  {nested : Nat → List Nat → Nat → Int → Option (String × List Nat)}

theorem linkListJson_grows {depth ck target : Nat} {start : List Nat}
    (each : ∀ f k, start ⊆ f → Grows (f ++ [ck]) (nested depth (f ++ [ck]) target k)) :
    ∀ keys f, start ⊆ f → Grows f (linkListJson nested depth ck target keys f)
  | [], f, _ => List.Subset.refl f
  | k :: ks, f, sub => by
      have first := each f k sub
      refine (first.mono (List.subset_append_left f [ck])).bind fun r found => ?_
      rw [found] at first
      exact (linkListJson_grows each ks r.2
        (sub.trans ((List.subset_append_left f [ck]).trans first))).map fun _ => rfl

/-- One column returns, if every nested call it may make returns; a nested call is made
within the budget of the walk. -/
theorem columnJson_grows {m linkDepth table : Nat} {key : Int} (inRange : linkDepth ≤ notFound)
    (ht : table ∈ g.tables)
    (nestedOk : ∀ d f, d ≤ notFound → budget g d f < m → ∀ t ∈ g.tables, ∀ k, Grows f (nested d f t k))
    {f : List Nat} (within : budget g linkDepth f ≤ m) {ck : Nat} (hck : ck ∈ g.columnKeys table) :
    Grows f (columnJson g fmt renames nested linkDepth table key f ck) := by
  have deeper : ∀ grown, f ⊆ grown → shallow linkDepth f ck = false →
      (g.kind table ck = .link ∨ g.kind table ck = .linkList) → ∀ k,
        Grows (grown ++ [ck]) (nested (newDepth linkDepth) (grown ++ [ck]) (g.targetTable table ck) k) :=
    fun grown sub deep isLink k => nestedOk _ _ (newDepth_le inRange)
      (lt_of_lt_of_le (budget_nested inRange deep (mem_linkColumns ht hck isLink) sub) within) _
      (g.targets_mem table ht ck hck isLink) k
  unfold columnJson
  cases kind : g.kind table ck with
  | linkList =>
      dsimp only
      split_ifs with stop
      · exact List.Subset.refl f
      · exact (linkListJson_grows (fun grown k sub => deeper grown sub (by simpa using stop)
          (.inr kind) k) _ f (List.Subset.refl f)).map fun _ => rfl
  | list => exact List.Subset.refl f
  | link =>
      dsimp only
      split_ifs with null stop
      · exact List.Subset.refl f
      · exact List.Subset.refl f
      · exact ((deeper f (List.Subset.refl f) (by simpa using stop) (.inl kind) _).mono
          (List.subset_append_left f [ck])).map fun _ => rfl
  | value => exact List.Subset.refl f

theorem columnsJson_grows {m linkDepth table : Nat} {key : Int} (inRange : linkDepth ≤ notFound)
    (ht : table ∈ g.tables)
    (nestedOk : ∀ d f, d ≤ notFound → budget g d f < m → ∀ t ∈ g.tables, ∀ k, Grows f (nested d f t k)) :
    ∀ cks, (∀ ck ∈ cks, ck ∈ g.columnKeys table) → ∀ f, budget g linkDepth f ≤ m →
      Grows f (columnsJson g fmt renames nested linkDepth table key cks f)
  | [], _, f, _ => List.Subset.refl f
  | ck :: cks, hcks, f, within => by
      have first : Grows f (columnJson g fmt renames nested linkDepth table key f ck) :=
        columnJson_grows inRange ht nestedOk within (hcks ck (List.mem_cons_self _ _))
      refine first.bind fun r found => ?_
      rw [found] at first
      exact (columnsJson_grows inRange ht nestedOk cks (fun c mem => hcks c (List.mem_cons_of_mem _ mem))
        r.2 ((budget_anti g _ first).trans within)).map fun _ => rfl

/-- Within a budget of nesting levels larger than `budget`, the walk returns. -/
theorem toJson_grows : ∀ m linkDepth f, linkDepth ≤ notFound → budget g linkDepth f < m →
    ∀ t ∈ g.tables, ∀ key, Grows f (toJson g fmt renames m linkDepth f t key)
  | 0, _, _, _, within, _, _, _ => absurd within (Nat.not_lt_zero _)
  | m + 1, _, f, inRange, within, t, ht, key => by
      rw [toJson]
      exact (columnsJson_grows inRange ht (fun d f' hd hb t' ht' k => toJson_grows m d f' hd hb t' ht' k)
        (g.columnKeys t) (fun _ h => h) f (Nat.lt_succ_iff.1 within)).map fun _ => rfl

end Returns

/-- `to_json` returns on every database, cycles included: with `link_depth = not_found`
within as many levels of nesting as the database has link columns, and with a finite
`link_depth` within `link_depth` levels. -/
theorem toJson_terminates (g : Graph) (fmt : Formatters) (renames : String → String) :
    (∀ followed, ∀ t ∈ g.tables, ∀ key,
      (toJson g fmt renames ((linkColumns g).length + 1) notFound followed t key).isSome) ∧
    ∀ linkDepth < notFound, ∀ followed, ∀ t ∈ g.tables, ∀ key,
      (toJson g fmt renames (linkDepth + 1) linkDepth followed t key).isSome := by
  refine ⟨fun followed t ht key => (toJson_grows _ _ _ le_rfl ?_ t ht key).isSome,
    fun linkDepth below followed t ht key => (toJson_grows _ _ _ below.le ?_ t ht key).isSome⟩
  · rw [budget, if_pos rfl]
    exact Nat.lt_succ_of_le (List.length_filter_le _ _)
  · rw [budget, if_neg below.ne]
    exact Nat.lt_succ_self _

/-- One object, key `0`, whose link column `next` leads back to it. -/
def selfLoop : Graph where
  tables := [0]
  tableName := fun _ => "t"
  columnKeys := fun _ => [0]
  columnName := fun _ _ => "next"
  kind := fun _ _ => .link
  targetTable := fun _ _ => 0
  value := fun _ _ _ => .null
  list := fun _ _ _ => []
  link := fun _ _ _ => 0
  linkList := fun _ _ _ => []
  targets_mem := by decide

/-- `operator<<` on an object linking to itself returns, one level down. -/
theorem toJson_terminates_selfLoop (fmt : Formatters) :
    0 ∈ selfLoop.tables ∧
      (toJson selfLoop fmt (fun _ => "") ((linkColumns selfLoop).length + 1) notFound [] 0 0).isSome :=
  ⟨by decide, (toJson_terminates selfLoop fmt _).1 [] 0 (by decide) 0⟩

/-- One object, key `0`, whose list of links `list` holds it twice. -/
def listLoop : Graph where
  tables := [0]
  tableName := fun _ => "t"
  columnKeys := fun _ => [0]
  columnName := fun _ _ => "list"
  kind := fun _ _ => .linkList
  targetTable := fun _ _ => 0
  value := fun _ _ _ => .null
  list := fun _ _ _ => []
  link := fun _ _ _ => nullKey
  linkList := fun _ _ _ => [0, 0]
  targets_mem := by decide

/-- `operator<<` on an object whose list of links holds it twice pushes the column on
`followed` for each entry: the second nested expansion is made with the column already in
`followed`. -/
theorem toJson_listLoop_pushes_twice :
    toJson listLoop ⟨fun _ => "", fun _ => "", fun _ => "", fun _ => ""⟩ (fun _ => "")
        ((linkColumns listLoop).length + 1) notFound [] 0 0 =
      some ("\x7b\"_key\":0,\"list\":[" ++
        "\x7b\"_key\":0,\"list\":\x7b\"table\": \"t\", \"keys\": [0,0]\x7d\x7d," ++
        "\x7b\"_key\":0,\"list\":\x7b\"table\": \"t\", \"keys\": [0,0]\x7d\x7d]\x7d", [0, 0]) :=
  rfl

/-- The walk writes the object, follows `next` once, and then writes only the key. -/
example (fmt : Formatters) :
    toJson selfLoop fmt (fun _ => "") 2 notFound [] 0 0 =
      some ("\x7b\"_key\":0,\"next\":\x7b\"_key\":0,\"next\":" ++
        "\x7b\"table\": \"t\", \"key\": 0\x7d\x7d\x7d", [0]) :=
  rfl

/-! ## A control character in a string -/

/-- One object, key `0`, whose one column, `s`, holds the string U+0001. -/
def controlString : Graph where
  tables := [0]
  tableName := fun _ => "t"
  columnKeys := fun _ => [0]
  columnName := fun _ _ => "s"
  kind := fun _ _ => .value
  targetTable := fun _ _ => 0
  value := fun _ _ _ => .string "\x01"
  list := fun _ _ _ => []
  link := fun _ _ _ => nullKey
  linkList := fun _ _ _ => []
  targets_mem := by decide

/-- `to_json` writes the string U+0001 as a quote, U+0001 and a quote, which is no RFC 8259
string; and a string value with any control character outside `to_be_escaped` is written as
no RFC 8259 string. -/
theorem toJson_control_char (fmt : Formatters) :
    toJson controlString fmt (fun _ => "") 1 0 [] 0 0 =
        some ("\x7b\"_key\":0,\"s\":\"\x01\"\x7d", []) ∧
      jsonString "\"\x01\"".toList = none ∧
      ∀ str : String, (∃ c ∈ str.toList, c.toNat < 0x20 ∧ c ∉ toBeEscaped) →
        jsonString (outMixed fmt (.string str)).toList = none := by
  refine ⟨rfl, rfl, fun str ⟨c, mem, control, clean⟩ => ?_⟩
  rw [outMixed, outString_eq]
  exact (stringBody_escapeChars [] str.toList).trans
    (if_neg fun escaped => clean (escaped c mem control))

end Json
end RealmCore
