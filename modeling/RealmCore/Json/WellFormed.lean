import RealmCore.Json.Grammar
import RealmCore.Json.ToJson

/-!
# What `to_json` writes is JSON

`toJson_text` shows that `ConstObj::to_json` writes an RFC 8259 text for every object of
every table, at every `link_depth`, cycles included, provided what it writes as it is can be
written so. `to_json` escapes only string values: it writes table and column names (renamed
or not) between quotes as they are, and what the formatters give for floats, doubles,
binaries and timestamps. So the names and those texts must be plain, and a float or double
must be written as a number, which `std::scientific` does for a finite one only (it writes
`nan` and `inf` otherwise). `out_mixed` writes nothing for a link, so a value column or a
list holding a link would leave a gap; in the database only link columns hold links.

The proof follows the walk: one column gives one member of the object (`columnJson_member`),
the loop over columns a list of them (`columnsJson_members`), and a nested call a text by
induction on the levels of nesting.
-/

namespace RealmCore
namespace Json

open Query (notFound)

/-- `out_mixed` writes `v` as a JSON text: a float or double formatted as a number, a string
whose control characters are among `to_be_escaped`, a binary or timestamp formatted as plain
text; a link never, since `out_mixed` writes nothing for it. -/
def Writable (fmt : Formatters) : Mixed → Prop
  | .float bits => isNumber (fmt.float bits).toList = true
  | .double bits => isNumber (fmt.double bits).toList = true
  | .string s => ∀ c ∈ s.toList, c.toNat < 0x20 → c ∈ toBeEscaped
  | .binary b => Plain (fmt.binary b)
  | .timestamp t => Plain (fmt.timestamp t)
  | .link _ => False
  | _ => True

theorem outMixed_text {fmt : Formatters} : ∀ {v : Mixed}, Writable fmt v → Text (outMixed fmt v)
  | .null, _ => .literal (by simp [outMixed])
  | .int i, _ => text_toString i
  | .bool b, _ => .literal (by cases b <;> simp [outMixed])
  | .float _, number => .number number
  | .double _, number => .number number
  | .string s, controls => .string (by
      rw [IsString, outMixed, outString_eq]
      show (stringBody (escapeChars s.toList ++ ['"'])).map Prod.snd = some []
      rw [stringBody_escapeChars, if_pos (show ∀ c ∈ s.toList, c.toNat < 0x20 → c ∈ toBeEscaped
        from controls)]
      rfl)
  | .binary _, plain => text_quote plain
  | .timestamp _, plain => text_quote plain
  | .link _, never => never.elim

/-- What `to_json` needs of a database and of the formatters to write JSON: the names it
writes between quotes are plain, and every value it writes with `out_mixed` is writable. -/
structure WritesJson (g : Graph) (fmt : Formatters) (renames : String → String) : Prop where
  keyName : Plain (rename renames "_key")
  tableNames : ∀ t ∈ g.tables, Plain (g.tableName t)
  columnNames : ∀ t ∈ g.tables, ∀ ck ∈ g.columnKeys t, Plain (rename renames (g.columnName t ck))
  values : ∀ t ∈ g.tables, ∀ ck ∈ g.columnKeys t, g.kind t ck = .value →
    ∀ k, Writable fmt (g.value t ck k)
  lists : ∀ t ∈ g.tables, ∀ ck ∈ g.columnKeys t, g.kind t ck = .list →
    ∀ k, ∀ v ∈ g.list t ck k, Writable fmt v

/-- An object member written after a comma. -/
def Member (m : String × String) : Prop := Name m.1 ∧ Text m.2

/-- `{"table": "<name>", <field>}`, which `to_json` writes for a link it does not follow. -/
theorem text_reference {name field value : String} (plain : Plain name) (fieldPlain : Plain field)
    (text : Text value) :
    Text ("\x7b\"table\": \"" ++ name ++ "\", \"" ++ field ++ "\": " ++ value ++ "\x7d") := by
  have members := @Text.object [("\"" ++ "table" ++ "\"", " " ++ ("\"" ++ name ++ "\"")),
      (" " ++ ("\"" ++ field ++ "\""), " " ++ value)]
    (by
      simp only [List.mem_cons, List.mem_singleton, forall_eq_or_imp, forall_eq, List.not_mem_nil,
        false_implies, implies_true, and_true]
      exact ⟨name_quote (by decide),
        ⟨" ", _, "", by simp, ws_space, isString_quote fieldPlain, ws_empty⟩⟩)
    (by
      simp only [List.mem_cons, List.mem_singleton, forall_eq_or_imp, forall_eq, List.not_mem_nil,
        false_implies, implies_true, and_true]
      exact ⟨(text_quote plain).padLeft ws_space, text.padLeft ws_space⟩)
  convert members using 1
  apply String.ext
  simp [String.intercalate, String.intercalate.go]

section Walk

variable {g : Graph} {fmt : Formatters} {renames : String → String}
  {nested : Nat → List Nat → Nat → Int → Option (String × List Nat)}

/-- Every text the nested calls write is JSON. -/
def NestedText (g : Graph) (nested : Nat → List Nat → Nat → Int → Option (String × List Nat)) :
    Prop :=
  ∀ d f, ∀ t ∈ g.tables, ∀ k out f', nested d f t k = some (out, f') → Text out

theorem linkListJson_text (nestedText : NestedText g nested) {depth ck target : Nat}
    (ht : target ∈ g.tables) :
    ∀ keys f rs f', linkListJson nested depth ck target keys f = some (rs, f') → ∀ r ∈ rs, Text r
  | [], _, _, _, wrote => by
      cases wrote
      simp
  | k :: ks, f, rs, f', wrote => by
      simp only [linkListJson, Option.bind_eq_some, Option.map_eq_some'] at wrote
      obtain ⟨⟨first, f₁⟩, hfirst, ⟨more, f₂⟩, hmore, same⟩ := wrote
      cases same
      simp only [List.mem_cons, forall_eq_or_imp]
      exact ⟨nestedText _ _ target ht k first f₁ hfirst,
        linkListJson_text nestedText ht ks f₁ more f₂ hmore⟩

/-- One column is written as one member of the object, after a comma. -/
theorem columnJson_member (writes : WritesJson g fmt renames) (nestedText : NestedText g nested)
    {linkDepth table : Nat} {key : Int} {followed : List Nat} {ck : Nat} {out : String}
    {followed' : List Nat} (ht : table ∈ g.tables) (hck : ck ∈ g.columnKeys table)
    (wrote : columnJson g fmt renames nested linkDepth table key followed ck = some (out, followed')) :
    ∃ m, out = "," ++ (m.1 ++ ":" ++ m.2) ∧ Member m := by
  have name : Name ("\"" ++ rename renames (g.columnName table ck) ++ "\"") :=
    name_quote (writes.columnNames table ht ck hck)
  have member : ∀ body, Text body → out = ",\"" ++ rename renames (g.columnName table ck) ++ "\":" ++ body →
      ∃ m, out = "," ++ (m.1 ++ ":" ++ m.2) ∧ Member m := fun body text eq =>
    ⟨("\"" ++ rename renames (g.columnName table ck) ++ "\"", body), by
      rw [eq]; simp only [String.append_assoc]; rfl, name, text⟩
  have targetTable : g.kind table ck = .link ∨ g.kind table ck = .linkList →
      g.targetTable table ck ∈ g.tables := g.targets_mem table ht ck hck
  unfold columnJson at wrote
  cases kind : g.kind table ck <;> simp only [kind] at wrote
  case linkList =>
    split_ifs at wrote
    · cases wrote
      exact member _ (text_reference (writes.tableNames _ (targetTable (.inr kind)))
        (show Plain "keys" by decide)
        (show Text ("[" ++ ",".intercalate ((g.linkList table ck key).map toString) ++ "]") from
          .array fun v mem => by
            obtain ⟨k, -, rfl⟩ := List.mem_map.1 mem
            exact text_toString k)) (by apply String.ext; simp)
    · obtain ⟨⟨rs, f⟩, hrs, same⟩ := Option.map_eq_some'.1 wrote
      cases same
      exact member _ (.array (linkListJson_text nestedText (targetTable (.inr kind)) _ _ rs f hrs))
        (by simp only [String.append_assoc])
  case list =>
    cases wrote
    exact member _ (.array fun v mem => by
      obtain ⟨x, hx, rfl⟩ := List.mem_map.1 mem
      exact outMixed_text (writes.lists table ht ck hck kind key x hx))
      (by simp only [String.append_assoc])
  case link =>
    split_ifs at wrote
    · cases wrote
      exact member _ (.literal (by decide)) rfl
    · cases wrote
      exact member _ (text_reference (writes.tableNames _ (targetTable (.inl kind)))
        (show Plain "key" by decide) (text_toString (g.link table ck key)))
        (by apply String.ext; simp)
    · obtain ⟨⟨r, f⟩, hr, same⟩ := Option.map_eq_some'.1 wrote
      cases same
      exact member _ (nestedText _ _ _ (targetTable (.inl kind)) _ r f hr) rfl
  case value =>
    cases wrote
    exact member _ (outMixed_text (writes.values table ht ck hck kind key)) rfl

/-- The loop over columns writes one member after a comma for each column. -/
theorem columnsJson_members (writes : WritesJson g fmt renames) (nestedText : NestedText g nested)
    {linkDepth table : Nat} {key : Int} (ht : table ∈ g.tables) :
    ∀ cks, (∀ ck ∈ cks, ck ∈ g.columnKeys table) → ∀ f out f',
      columnsJson g fmt renames nested linkDepth table key cks f = some (out, f') →
        ∃ members : List (String × String),
          out = (members.map fun m => m.1 ++ ":" ++ m.2).foldr (fun x acc => "," ++ x ++ acc) "" ∧
            ∀ m ∈ members, Member m
  | [], _, _, _, _, wrote => by
      cases wrote
      exact ⟨[], rfl, by simp⟩
  | ck :: cks, hcks, f, out, f', wrote => by
      simp only [columnsJson, Option.bind_eq_some, Option.map_eq_some'] at wrote
      obtain ⟨⟨first, f₁⟩, hfirst, ⟨more, f₂⟩, hmore, same⟩ := wrote
      cases same
      obtain ⟨m, rfl, hm⟩ :=
        columnJson_member writes nestedText ht (hcks ck (List.mem_cons_self _ _)) hfirst
      obtain ⟨members, rfl, hmembers⟩ := columnsJson_members writes nestedText ht cks
        (fun c mem => hcks c (List.mem_cons_of_mem _ mem)) f₁ more f₂ hmore
      exact ⟨m :: members, by simp only [List.map_cons, List.foldr_cons, String.append_assoc],
        List.forall_mem_cons.2 ⟨hm, hmembers⟩⟩

/-- Whatever `to_json` writes within `fuel` levels of nesting is a JSON text. -/
theorem toJson_text_of_some (writes : WritesJson g fmt renames) :
    ∀ fuel, NestedText g fun d f t k => toJson g fmt renames fuel d f t k
  | 0, _, _, _, _, _, _, _, wrote => by cases wrote
  | fuel + 1, linkDepth, f, t, ht, key, out, f', wrote => by
      obtain ⟨⟨body, f₁⟩, hbody, same⟩ := Option.map_eq_some'.1 wrote
      cases same
      obtain ⟨members, rfl, hmembers⟩ := columnsJson_members writes
        (toJson_text_of_some writes fuel) ht (g.columnKeys t) (fun _ h => h) f body f₁ hbody
      have object := @Text.object
        (("\"" ++ rename renames "_key" ++ "\"", toString key) :: members)
        (List.forall_mem_cons.2 ⟨name_quote writes.keyName, fun m mem => (hmembers m mem).1⟩)
        (List.forall_mem_cons.2 ⟨text_toString key, fun m mem => (hmembers m mem).2⟩)
      rw [List.map_cons, intercalate_cons] at object
      convert object using 1
      simp only [String.append_assoc]
      rfl

end Walk

/-- `to_json` writes a JSON text for every object of every table, at every `link_depth`: the
call returns within `budget` levels of nesting and one more, and whatever it returns, within
any number of levels, is an RFC 8259 text. -/
theorem toJson_text {g : Graph} {fmt : Formatters} {renames : String → String}
    (writes : WritesJson g fmt renames) :
    (∀ linkDepth ≤ notFound, ∀ followed, ∀ t ∈ g.tables, ∀ key, ∃ out followed',
      toJson g fmt renames (budget g linkDepth followed + 1) linkDepth followed t key =
        some (out, followed') ∧ Text out) ∧
    ∀ fuel linkDepth followed, ∀ t ∈ g.tables, ∀ key out followed',
      toJson g fmt renames fuel linkDepth followed t key = some (out, followed') → Text out := by
  refine ⟨fun linkDepth inRange followed t ht key => ?_, toJson_text_of_some writes⟩
  obtain ⟨⟨out, followed'⟩, wrote⟩ := Option.isSome_iff_exists.1
    (toJson_grows _ linkDepth followed inRange (Nat.lt_succ_self _) t ht key).isSome
  exact ⟨out, followed', wrote, toJson_text_of_some writes _ _ _ _ ht _ _ _ wrote⟩

/-- One object, key `0`, with a string `name`, a list `tags` and a link `friend` to
itself. -/
def people : Graph where
  tables := [0]
  tableName := fun _ => "person"
  columnKeys := fun _ => [0, 1, 2]
  columnName := fun _ ck => if ck = 0 then "name" else if ck = 1 then "tags" else "friend"
  kind := fun _ ck => if ck = 0 then .value else if ck = 1 then .list else .link
  targetTable := fun _ _ => 0
  value := fun _ _ _ => .string "Ann\n"
  list := fun _ _ _ => [.int (-1), .bool true]
  link := fun _ _ _ => 0
  linkList := fun _ _ _ => []
  targets_mem := by decide

/-- Formatters writing every float and double as `0` and every binary and timestamp as the
empty text. -/
def zeroFormatters : Formatters := ⟨fun _ => "0", fun _ => "0", fun _ => "", fun _ => ""⟩

/-- `operator<<` on the sample object writes a JSON text. -/
theorem toJson_text_people :
    WritesJson people zeroFormatters (fun _ => "") ∧ ∃ out followed',
      toJson people zeroFormatters (fun _ => "") (budget people notFound [] + 1) notFound [] 0 0 =
        some (out, followed') ∧ Text out :=
  have writes : WritesJson people zeroFormatters (fun _ => "") :=
    ⟨by decide, by decide, by decide,
      fun _ _ _ _ _ _ => show ∀ c ∈ "Ann\n".toList, c.toNat < 0x20 → c ∈ toBeEscaped by decide,
      fun _ _ _ _ _ _ v mem => by
        simp only [people, List.mem_cons, List.mem_singleton, List.not_mem_nil, or_false] at mem
        rcases mem with rfl | rfl <;> trivial⟩
  ⟨writes, (toJson_text writes).1 notFound le_rfl [] 0 (by decide) 0⟩

/-- The walk follows `friend` once, then writes only its key. -/
example :
    toJson people zeroFormatters (fun _ => "") 2 notFound [] 0 0 =
      some ("\x7b\"_key\":0,\"name\":\"Ann\\n\",\"tags\":[-1,true],\"friend\":" ++
        "\x7b\"_key\":0,\"name\":\"Ann\\n\",\"tags\":[-1,true],\"friend\":" ++
        "\x7b\"table\": \"person\", \"key\": 0\x7d\x7d\x7d", [2]) :=
  rfl

end Json
end RealmCore
