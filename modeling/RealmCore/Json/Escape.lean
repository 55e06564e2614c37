import RealmCore.Value.Mixed

/-!
# Escaping a string for `to_json`

`out_mixed` writes a string value in quotes. A loop finds the next character that is one of
`to_be_escaped` (`find_first_of`), writes what comes before it, a backslash and the
character's `encoding`, and goes on after it. `escapeLoop_eq_escapeChars` shows the loop
writes each character on its own (`escapeChars`): the seven of `to_be_escaped` as
two-character escapes, every other character as it is.

`stringBody` reads a string of RFC 8259, §7. `jsonString_outString` shows that reading
what `out_mixed` writes gives the string back exactly when the string's only control
characters are those `to_be_escaped` names: any other control character, U+0000 included,
is written as it is, which RFC 8259 does not allow in a string.

Strings are taken as their characters. The loop looks for bytes, but all of
`to_be_escaped` are ASCII, and no byte of a multi-byte UTF-8 sequence is.
-/

namespace RealmCore
namespace Json

/-- `to_be_escaped`: `"`, newline, carriage return, tab, form feed, backslash, backspace. -/
def toBeEscaped : List Char := ['"', '\n', '\r', '\t', '\x0c', '\\', '\x08']

/-- `encoding`: the character after the backslash for each of `to_be_escaped`. -/
def encoding : List Char := ['"', 'n', 'r', 't', 'f', '\\', 'b']

/-- `str.find_first_of(set)`: the position of the first character of `str` in `set`;
`none` is `npos`. -/
def findFirstOf (set str : List Char) : Option Nat := str.findIdx? fun c => decide (c ∈ set)

/-- The `while` loop of `out_mixed` over the string `str`, for at most `fuel` passes: a pass
writes the characters before the next one to escape, a backslash and that character's
encoding (`strchr` gives its place in `to_be_escaped`), and goes on after it. -/
def escapeLoop : Nat → List Char → Option (List Char)
  | 0, _ => none
  | fuel + 1, str =>
      match findFirstOf toBeEscaped str with
      | none => some str
      | some p =>
          let c := str.getD p '\x00'
          let found := toBeEscaped.indexOf c
          (fun rest => str.take p ++ '\\' :: encoding.getD found '\x00' :: rest) <$>
            escapeLoop fuel (str.drop (p + 1))

/-- What the loop writes for one character. -/
def escapeChar (c : Char) : List Char :=
  if c ∈ toBeEscaped then ['\\', encoding.getD (toBeEscaped.indexOf c) '\x00'] else [c]

/-- What the loop writes for a string, character by character. -/
def escapeChars (str : List Char) : List Char := str.flatMap escapeChar

/-- The string case of `out_mixed`: the string between quotes, escaped by the loop. -/
def outString (str : String) : String :=
  ⟨'"' :: (escapeLoop (str.length + 1) str.toList).getD [] ++ ['"']⟩

/-! ## RFC 8259 strings -/

/-- The character a two-character escape `\e` of RFC 8259 stands for. -/
def unescape : Char → Option Char
  | '"' => some '"'
  | '\\' => some '\\'
  | '/' => some '/'
  | 'b' => some '\x08'
  | 'f' => some '\x0c'
  | 'n' => some '\n'
  | 'r' => some '\r'
  | 't' => some '\t'
  | _ => none

/-- The value of a hexadecimal digit. -/
def hexDigit (c : Char) : Option Nat :=
  if '0' ≤ c ∧ c ≤ '9' then some (c.toNat - '0'.toNat)
  else if 'a' ≤ c ∧ c ≤ 'f' then some (c.toNat - 'a'.toNat + 10)
  else if 'A' ≤ c ∧ c ≤ 'F' then some (c.toNat - 'A'.toNat + 10)
  else none

/-- A character read in front of the rest of a string's body. -/
def prepend (c : Char) (read : List Char × List Char) : List Char × List Char :=
  (c :: read.1, read.2)

/-- The body of an RFC 8259 string, after its opening quote: the characters it stands for
and what follows its closing quote; `none` when it is not well formed (a control character,
a bad escape, no closing quote). `\uXXXX` stands for the character of that code; surrogate
pairs, which `to_json` never writes, are not joined. -/
def stringBody : List Char → Option (List Char × List Char)
  | [] => none
  | '"' :: rest => some ([], rest)
  | '\\' :: 'u' :: a :: b :: c :: d :: rest =>
      (hexDigit a).bind fun a => (hexDigit b).bind fun b => (hexDigit c).bind fun c =>
        (hexDigit d).bind fun d =>
          (stringBody rest).map (prepend (Char.ofNat (((a * 16 + b) * 16 + c) * 16 + d)))
  | '\\' :: e :: rest => (unescape e).bind fun c => (stringBody rest).map (prepend c)
  | c :: rest => if c.toNat < 0x20 ∨ c = '\\' then none else (stringBody rest).map (prepend c)

/-- An RFC 8259 string at the start of `cs`: the characters it stands for and what follows
it. -/
def jsonString : List Char → Option (List Char × List Char)
  | '"' :: body => stringBody body
  | _ => none

/-! ## The loop writes each character on its own -/

theorem findFirstOf_eq_some {set : List Char} :
    ∀ {str : List Char} {p : Nat}, findFirstOf set str = some p →
      ∃ pre c post, str = pre ++ c :: post ∧ (∀ x ∈ pre, x ∉ set) ∧ c ∈ set ∧ pre.length = p
  | [], _, found => by simp [findFirstOf] at found
  | c :: cs, p, found => by
      unfold findFirstOf at found
      rw [List.findIdx?_cons, List.findIdx?_succ] at found
      by_cases hc : c ∈ set
      · rw [if_pos (decide_eq_true hc), Option.some.injEq] at found
        exact ⟨[], c, cs, rfl, by simp, hc, found⟩
      · rw [if_neg (by simpa using hc), Option.map_eq_some'] at found
        obtain ⟨q, rest, rfl⟩ := found
        obtain ⟨pre, d, post, rfl, clean, hd, rfl⟩ := findFirstOf_eq_some rest
        exact ⟨c :: pre, d, post, rfl, List.forall_mem_cons.2 ⟨hc, clean⟩, hd, rfl⟩

theorem not_mem_of_findFirstOf_eq_none {set str : List Char} (none : findFirstOf set str = none) :
    ∀ x ∈ str, x ∉ set := by
  simpa [findFirstOf, List.findIdx?_eq_none_iff] using none

@[simp] theorem escapeChars_nil : escapeChars [] = [] := rfl

@[simp] theorem escapeChars_cons (c : Char) (cs : List Char) :
    escapeChars (c :: cs) = escapeChar c ++ escapeChars cs := rfl

@[simp] theorem escapeChars_append (a b : List Char) :
    escapeChars (a ++ b) = escapeChars a ++ escapeChars b :=
  List.flatMap_append _ _ _

theorem escapeChars_of_clean {str : List Char} (clean : ∀ x ∈ str, x ∉ toBeEscaped) :
    escapeChars str = str := by
  induction str with
  | nil => rfl
  | cons c cs ih =>
      simp only [List.mem_cons, forall_eq_or_imp] at clean
      rw [escapeChars_cons, escapeChar, if_neg clean.1, ih clean.2]
      rfl

/-- With a pass for each character and one more, the loop writes `escapeChars`. -/
theorem escapeLoop_eq_escapeChars :
    ∀ {fuel : Nat} {str : List Char}, str.length < fuel → escapeLoop fuel str = some (escapeChars str)
  | 0, _, enough => absurd enough (Nat.not_lt_zero _)
  | fuel + 1, str, enough => by
      unfold escapeLoop
      cases found : findFirstOf toBeEscaped str with
      | none => simp [escapeChars_of_clean (not_mem_of_findFirstOf_eq_none found)]
      | some p =>
        obtain ⟨pre, c, post, rfl, clean, hc, rfl⟩ := findFirstOf_eq_some found
        have rest : escapeLoop fuel post = some (escapeChars post) :=
          escapeLoop_eq_escapeChars (by simp at enough; omega)
        have atP : (pre ++ c :: post).getD pre.length '\x00' = c := by
          rw [List.getD_eq_getElem?_getD, List.getElem?_append_right (Nat.le_refl _), Nat.sub_self,
            List.getElem?_cons_zero, Option.getD_some]
        simp only [atP, rest, escapeChars_append, escapeChars_cons, escapeChar, if_pos hc,
          escapeChars_of_clean clean, List.take_left, Option.map_eq_map, Option.map_some']
        simp [rest]

theorem outString_eq (str : String) :
    outString str = ⟨'"' :: escapeChars str.toList ++ ['"']⟩ := by
  cases str with
  | mk data =>
    show (⟨'"' :: (escapeLoop (data.length + 1) data).getD [] ++ ['"']⟩ : String) = _
    rw [escapeLoop_eq_escapeChars (Nat.lt_succ_self _)]
    rfl

/-! ## Reading back what the loop writes -/

/-- Each of `to_be_escaped` is what RFC 8259 reads from a backslash and its `encoding`. -/
theorem encoding_unescape : ∀ c ∈ toBeEscaped,
    encoding.getD (toBeEscaped.indexOf c) '\x00' ≠ 'u' ∧
      unescape (encoding.getD (toBeEscaped.indexOf c) '\x00') = some c := by
  decide

theorem stringBody_escape {e : Char} (notU : e ≠ 'u') (rest : List Char) :
    stringBody ('\\' :: e :: rest) = (unescape e).bind fun c => (stringBody rest).map (prepend c) := by
  rw [stringBody]
  intro _ _ _ _ _ isU
  exact absurd isU notU

theorem stringBody_escapeChar {c : Char} (hc : c ∈ toBeEscaped) (rest : List Char) :
    stringBody (escapeChar c ++ rest) = (stringBody rest).map (prepend c) := by
  obtain ⟨notU, back⟩ := encoding_unescape c hc
  rw [escapeChar, if_pos hc, List.cons_append, List.cons_append, List.nil_append,
    stringBody_escape notU, back]
  rfl

/-- A character the loop leaves as it is reads as itself, unless it is a control
character. -/
theorem stringBody_plain {c : Char} (clean : c ∉ toBeEscaped) (rest : List Char) :
    stringBody (escapeChar c ++ rest) =
      if c.toNat < 0x20 then none else (stringBody rest).map (prepend c) := by
  have quote : c ≠ '"' := fun h => clean (h ▸ by decide)
  have backslash : c ≠ '\\' := fun h => clean (h ▸ by decide)
  rw [escapeChar, if_neg clean, List.singleton_append, stringBody]
  · simp [backslash]
  all_goals simp_all

/-- Reading what the loop writes for `str`, then a closing quote: `str` when its only
control characters are those of `to_be_escaped`, and nothing otherwise. -/
theorem stringBody_escapeChars (rest : List Char) : ∀ str : List Char,
    stringBody (escapeChars str ++ '"' :: rest) =
      if ∀ c ∈ str, c.toNat < 0x20 → c ∈ toBeEscaped then some (str, rest) else none
  | [] => by simp [stringBody]
  | c :: cs => by
      rw [escapeChars_cons, List.append_assoc]
      by_cases hc : c ∈ toBeEscaped
      · rw [stringBody_escapeChar hc, stringBody_escapeChars rest cs]
        split_ifs <;> simp_all [prepend]
      · rw [stringBody_plain hc, stringBody_escapeChars rest cs]
        split_ifs <;> simp_all [prepend]

/-- What `out_mixed` writes for a string reads back as that string exactly when the string's
only control characters are those of `to_be_escaped`; otherwise it is no RFC 8259
string. -/
theorem jsonString_outString (str : String) :
    jsonString (outString str).toList =
      if ∀ c ∈ str.toList, c.toNat < 0x20 → c ∈ toBeEscaped then some (str.toList, []) else none := by
  rw [outString_eq]
  exact stringBody_escapeChars [] str.toList

/-- A tab is escaped and read back. -/
theorem jsonString_outString_tab :
    jsonString (outString "a\tb").toList = some ("a\tb".toList, []) :=
  (jsonString_outString "a\tb").trans (by decide)

end Json
end RealmCore
