import RealmCore.Json.Escape

/-!
# JSON texts (RFC 8259)

The grammar of RFC 8259 that `to_json`'s output is checked against, as an inductive predicate
on strings: `Text s` when `s` is a JSON text, a value with optional whitespace around it
(§2). Arrays and objects hold texts, which is what the `ws` the grammar allows around every
structural character amounts to. Every string this grammar accepts is a JSON text; the
texts it leaves out (an empty array or object with whitespace inside) are never written by
`to_json`.

Numbers are recognised by `isNumber`, which reads §6 from left to right; strings are what
`jsonString` reads whole. `text_toString` shows that the decimal form of an `Int`, which is
how `to_json` writes object keys and integer values, is a number.
-/

namespace RealmCore
namespace Json

/-- `ws` of RFC 8259, §2: spaces, tabs, line feeds and carriage returns. -/
def Ws (w : String) : Prop := ∀ c ∈ w.toList, c ∈ [' ', '\t', '\n', '\r']

instance : DecidablePred Ws := fun w => inferInstanceAs (Decidable (∀ c ∈ w.toList, _))

/-- A whole RFC 8259 string (§7). -/
def IsString (s : String) : Prop := (jsonString s.toList).map Prod.snd = some []

instance : DecidablePred IsString := fun s =>
  inferInstanceAs (Decidable ((jsonString s.toList).map Prod.snd = some []))

/-- `1*DIGIT`. -/
def isDigits (cs : List Char) : Bool := !cs.isEmpty && cs.all Char.isDigit

/-- `[ exp ]`, then the end: `exp = ( "e" / "E" ) [ "-" / "+" ] 1*DIGIT`. -/
def isExp : List Char → Bool
  | [] => true
  | e :: rest =>
      (e == 'e' || e == 'E') &&
        isDigits (if rest.head? = some '-' ∨ rest.head? = some '+' then rest.tail else rest)

/-- `[ frac ] [ exp ]`: `frac = "." 1*DIGIT`. -/
def isFracExp (cs : List Char) : Bool :=
  if cs.head? = some '.' then
    isDigits (cs.tail.takeWhile Char.isDigit) && isExp (cs.tail.dropWhile Char.isDigit)
  else isExp cs

/-- `int [ frac ] [ exp ]`: `int = zero / ( digit1-9 *DIGIT )`. -/
def isUnsigned : List Char → Bool
  | [] => false
  | c :: rest =>
      if c = '0' then isFracExp rest else c.isDigit && isFracExp (rest.dropWhile Char.isDigit)

/-- `number = [ minus ] int [ frac ] [ exp ]` (RFC 8259, §6). -/
def isNumber (cs : List Char) : Bool :=
  if cs.head? = some '-' then isUnsigned cs.tail else isUnsigned cs

example : isNumber "-1.0000000e+00".toList = true := by decide
example : isNumber "012".toList = false := by decide
example : isNumber "nan".toList = false := by decide

/-- A member's name: a string with whitespace around it (`ws string ws`, the whitespace of
`begin-object`, `name-separator` and `value-separator`). -/
def Name (n : String) : Prop := ∃ w s w', n = w ++ s ++ w' ∧ Ws w ∧ IsString s ∧ Ws w'

/-- A JSON text (RFC 8259, §2): `ws value ws`. -/
inductive Text : String → Prop
  | literal {s : String} : s ∈ ["false", "null", "true"] → Text s
  | number {s : String} : isNumber s.toList = true → Text s
  | string {s : String} : IsString s → Text s
  | array {items : List String} : (∀ v ∈ items, Text v) → Text ("[" ++ ",".intercalate items ++ "]")
  | object {members : List (String × String)} : (∀ m ∈ members, Name m.1) →
      (∀ m ∈ members, Text m.2) →
        Text ("\x7b" ++ ",".intercalate (members.map fun m => m.1 ++ ":" ++ m.2) ++ "\x7d")
  | padded {w v w' : String} : Ws w → Text v → Ws w' → Text (w ++ v ++ w')

/-! ## Whitespace and strings -/

theorem ws_empty : Ws "" := by decide

theorem ws_space : Ws " " := by decide

theorem Text.padLeft {w v : String} (hw : Ws w) (hv : Text v) : Text (w ++ v) := by
  simpa using Text.padded hw hv ws_empty

/-- A text `to_json` writes between quotes as it is (a column or table name, or what a
formatter gives): no control character, quote or backslash. -/
def Plain (s : String) : Prop := ∀ c ∈ s.toList, 0x20 ≤ c.toNat ∧ c ≠ '"' ∧ c ≠ '\\'

instance : DecidablePred Plain := fun s => inferInstanceAs (Decidable (∀ c ∈ s.toList, _))

theorem not_mem_toBeEscaped_of_plain {c : Char} (plain : 0x20 ≤ c.toNat ∧ c ≠ '"' ∧ c ≠ '\\') :
    c ∉ toBeEscaped := by
  have escaped : ∀ e ∈ toBeEscaped, e.toNat < 0x20 ∨ e = '"' ∨ e = '\\' := by decide
  intro mem
  rcases escaped c mem with control | quote | backslash
  · omega
  · exact plain.2.1 quote
  · exact plain.2.2 backslash

/-- A plain text between quotes is an RFC 8259 string standing for itself. -/
theorem jsonString_quote {s : String} (plain : Plain s) :
    jsonString ("\"" ++ s ++ "\"").toList = some (s.toList, []) := by
  have clean : ∀ c ∈ s.toList, c ∉ toBeEscaped := fun c mem =>
    not_mem_toBeEscaped_of_plain (plain c mem)
  show stringBody (s.toList ++ ['"']) = _
  rw [← escapeChars_of_clean clean, stringBody_escapeChars [] s.toList, escapeChars_of_clean clean,
    if_pos fun c mem control => absurd (plain c mem).1 (by omega)]

theorem isString_quote {s : String} (plain : Plain s) : IsString ("\"" ++ s ++ "\"") := by
  rw [IsString, jsonString_quote plain]
  rfl

theorem text_quote {s : String} (plain : Plain s) : Text ("\"" ++ s ++ "\"") :=
  .string (isString_quote plain)

theorem name_quote {s : String} (plain : Plain s) : Name ("\"" ++ s ++ "\"") :=
  ⟨"", "\"" ++ s ++ "\"", "", by simp, ws_empty, isString_quote plain, ws_empty⟩

/-! ## Integers -/

theorem digitChar_ten : ∀ k < 10, (Nat.digitChar k).isDigit ∧ (Nat.digitChar k = '0' → k = 0) := by
  decide

/-- `Nat.toDigitsCore 10` puts the decimal digits of `n` in front of `ds`, the first one `0`
only for `n = 0`. -/
theorem toDigitsCore_ten : ∀ fuel n ds, n < fuel → ∃ c rest,
    Nat.toDigitsCore 10 fuel n ds = c :: rest ++ ds ∧ c.isDigit ∧ rest.all Char.isDigit ∧
      (c = '0' → n = 0)
  | 0, _, _, enough => absurd enough (Nat.not_lt_zero _)
  | fuel + 1, n, ds, enough => by
      obtain ⟨digit, zero⟩ := digitChar_ten (n % 10) (Nat.mod_lt _ (by norm_num))
      unfold Nat.toDigitsCore
      dsimp only
      split_ifs with top
      · exact ⟨_, [], rfl, digit, rfl, fun z => by have := zero z; omega⟩
      · obtain ⟨c, rest, eq, hc, hrest, first⟩ :=
          toDigitsCore_ten fuel (n / 10) (Nat.digitChar (n % 10) :: ds) (by omega)
        exact ⟨c, rest ++ [Nat.digitChar (n % 10)], by simp [eq], hc, by simp [hrest, digit],
          fun z => absurd (first z) top⟩

theorem isUnsigned_toDigits (n : Nat) : isUnsigned (Nat.toDigits 10 n) = true := by
  rcases Nat.eq_zero_or_pos n with rfl | pos
  · rfl
  obtain ⟨c, rest, eq, hc, hrest, first⟩ := toDigitsCore_ten (n + 1) n [] (Nat.lt_succ_self n)
  have notZero : c ≠ '0' := fun z => by have := first z; omega
  have drop : rest.dropWhile Char.isDigit = [] := List.dropWhile_eq_nil_iff.2 (by simpa using hrest)
  rw [Nat.toDigits, eq, List.append_nil]
  simp [isUnsigned, notZero, hc, drop, isFracExp, isExp]

theorem isNumber_toDigits (n : Nat) : isNumber (Nat.toDigits 10 n) = true := by
  obtain ⟨c, rest, eq, hc, -⟩ := toDigitsCore_ten (n + 1) n [] (Nat.lt_succ_self n)
  have notMinus : c ≠ '-' := fun minus => by subst minus; exact absurd hc (by decide)
  have unsigned := isUnsigned_toDigits n
  rw [Nat.toDigits, eq, List.append_nil] at unsigned ⊢
  simpa [isNumber, notMinus] using unsigned

/-- The decimal form of an integer is an RFC 8259 number. -/
theorem text_toString (i : Int) : Text (toString i) := by
  refine .number ?_
  cases i with
  | ofNat m => exact isNumber_toDigits m
  | negSucc m => exact isUnsigned_toDigits (m + 1)

/-! ## Separated lists -/

theorem intercalate_go_append (sep : String) :
    ∀ (l : List String) (a b : String),
      String.intercalate.go (a ++ b) sep l = a ++ String.intercalate.go b sep l
  | [], _, _ => rfl
  | x :: l, a, b => by
      simp only [String.intercalate.go, String.append_assoc]
      exact intercalate_go_append sep l a (b ++ (sep ++ x))

/-- `sep.intercalate (a :: l)` is `a`, then `sep` and each of `l`. -/
theorem intercalate_cons (sep a : String) (l : List String) :
    sep.intercalate (a :: l) = a ++ l.foldr (fun x acc => sep ++ x ++ acc) "" := by
  induction l generalizing a with
  | nil => simp [String.intercalate, String.intercalate.go]
  | cons b l ih =>
      have step : sep.intercalate (a :: b :: l) = a ++ sep ++ sep.intercalate (b :: l) := by
        simpa [String.intercalate, String.intercalate.go, String.append_assoc] using
          intercalate_go_append sep l (a ++ sep) b
      rw [step, ih, List.foldr_cons]
      simp only [String.append_assoc]

end Json
end RealmCore
