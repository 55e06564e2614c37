import Mathlib

/-!
# `util::format` and `Printable`

`format(fmt, values)` copies the C string `fmt`, up to its terminating NUL, writing `%%` as
`%` and `%n` as the `n`-th of `values` printed without quotes. Each pass of its loop finds the next `%` (`strchr`), writes what
comes before it and reads what follows: another `%`, or digits read by `strtoul`, whose value
less one, in `unsigned long`, indexes `values`. A `%` at the end, a `%` followed by anything
else and an index out of range each fail a `REALM_ASSERT`, modelled as `none`.

`format_eq_some_iff` reads the loop as a parser: a format string is accepted exactly when it
is written out, up to its first NUL, from a `Template` whose positions are in range and
are not followed by a digit, and the result is what that template stands for. So a digit right after a position
is read as part of it (`%12` is the twelfth value, not the first followed by `2`), and `%0`,
whose index wraps to `ULONG_MAX`, is never accepted.
-/

namespace RealmCore
namespace Util

/-- `Printable`, declared in `to_string.hpp`, which is not in the source; modelled from its
uses in `to_string.cpp`: its `m_type` and the member printed for each (`m_uint` for a bool,
whose width does not change what is printed). -/
inductive Printable
  | bool (value : Bool)
  | uint (value : Nat)
  | int (value : Int)
  | string (value : String)
  deriving DecidableEq, Repr, Inhabited

/-- `std::quoted(s)` as C++14 writes it: `"`, then `s` with a backslash before each `"` and
each backslash, then `"`. -/
def quoted (s : String) : String :=
  ⟨'"' :: s.toList.flatMap (fun c => if c = '"' ∨ c = '\\' then ['\\', c] else [c]) ++ ['"']⟩

/-- `Printable::print(out, quote)`. -/
def Printable.print : Printable → Bool → String
  | .bool b, _ => if b then "true" else "false"
  | .uint n, _ => toString n
  | .int i, _ => toString i
  | .string s, quote => if quote then quoted s else s

/-- `Printable::print_all(out, values, quote)`: nothing for no values, otherwise ` [`, the
values separated by `, `, and `]`. -/
def printAll (values : List Printable) (quote : Bool) : String :=
  if values = [] then "" else " [" ++ ", ".intercalate (values.map (·.print quote)) ++ "]"

/-- `Printable::str()`. -/
def Printable.str (p : Printable) : String := p.print true

example : printAll [.int (-3), .string "a\"b"] true = " [-3, \"a\\\"b\"]" := by decide

/-! ## `format` -/

/-- `ULONG_MAX`. -/
def ulongMax : Nat := 2 ^ 64 - 1

/-- The value of a string of decimal digits. -/
def digitsValue (digits : List Char) : Nat :=
  digits.foldl (fun n d => 10 * n + (d.toNat - '0'.toNat)) 0

/-- `strtoul(next, &end, 10)` on text that starts with a digit: the value of its digits, or
`ULONG_MAX` when that is larger, and the text after them. -/
def strtoul (next : List Char) : Nat × List Char :=
  (min (digitsValue (next.takeWhile Char.isDigit)) ulongMax, next.dropWhile Char.isDigit)

/-- The loop of `format` from `fmt` on, for at most `fuel` passes. Text without a `%`, an
empty one included, is written as it is and ends the loop, which is what the loop's test
`*fmt` and the `!next` branch together do. -/
def formatLoop (values : List Printable) : Nat → List Char → Option (List Char)
  | 0, _ => none
  | fuel + 1, fmt =>
      match fmt.dropWhile (· != '%') with
      | [] => some fmt
      | _ :: next =>
          let before := fmt.takeWhile (· != '%')
          match next with
          | [] => none
          | c :: rest =>
              if c = '%' then (before ++ '%' :: ·) <$> formatLoop values fuel rest
              else if c.isDigit then
                match values[(((strtoul next).1 + ulongMax) % 2 ^ 64)]? with
                | some p => (before ++ (p.print false).toList ++ ·) <$>
                    formatLoop values fuel (strtoul next).2
                | none => none
              else none

/-- The characters the C string `fmt` points at: those before its first NUL. -/
def cString (fmt : String) : List Char := fmt.toList.takeWhile (· != '\x00')

/-- `format(fmt, values)`; `none` when a `REALM_ASSERT` fails. A pass reads at least the
`%` it stops at, so the loop never runs out of passes. -/
def format (fmt : String) (values : List Printable) : Option String :=
  (formatLoop values ((cString fmt).length + 1) (cString fmt)).map String.mk

example : format "%1 of %2: 100%%" [.uint 3, .string "a\"b"] = some "3 of a\"b: 100%" := by
  decide
example : format "%1\x00%" [.uint 3] = some "3" := by decide
example : format "%12" [.bool true, .bool false] = none := by decide
example : format "%0" [.bool true] = none := by decide

/-! ## Format strings as templates -/

/-- A format string as `format` reads it: text up to a `%`, then `%%`, or `%` and the digits
of a position, and so on, up to a text with no `%`. -/
inductive Template
  | text (s : List Char)
  | percent (before : List Char) (rest : Template)
  | arg (before digits : List Char) (rest : Template)

/-- The format string a template is written as. -/
def Template.render : Template → List Char
  | .text s => s
  | .percent before rest => before ++ '%' :: '%' :: rest.render
  | .arg before digits rest => before ++ '%' :: (digits ++ rest.render)

/-- A template `format` reads as written for `count` values: its texts have no `%`, and each
position is digits, of a value from `1` to `count`, not followed by another digit. -/
def Template.Valid (count : Nat) : Template → Prop
  | .text s => '%' ∉ s
  | .percent before rest => '%' ∉ before ∧ rest.Valid count
  | .arg before digits rest => '%' ∉ before ∧ digits ≠ [] ∧ (∀ d ∈ digits, d.isDigit) ∧
      1 ≤ digitsValue digits ∧ digitsValue digits ≤ count ∧
      rest.render.head?.any Char.isDigit = false ∧ rest.Valid count

/-- What a template stands for: its texts, a `%` for each `%%`, and each position's value
printed without quotes. -/
def Template.denote (values : List Printable) : Template → List Char
  | .text s => s
  | .percent before rest => before ++ '%' :: rest.denote values
  | .arg before digits rest =>
      before ++ ((values.getD (digitsValue digits - 1) default).print false).toList ++
        rest.denote values

/-! ## Reading a template back -/

theorem word_eq : (2 : Nat) ^ 64 = 18446744073709551616 := by norm_num

/-- The index `strtoul`'s value less one gives, in `unsigned long`, is in range for fewer
than `ULONG_MAX` values exactly when the value is from `1` to their number; it is then the
value less one. -/
theorem index_of_lt {count value : Nat} (few : count < ulongMax)
    (inRange : (min value ulongMax + ulongMax) % 2 ^ 64 < count) :
    1 ≤ value ∧ value ≤ count ∧ (min value ulongMax + ulongMax) % 2 ^ 64 = value - 1 := by
  simp only [ulongMax, word_eq] at few inRange ⊢
  omega

theorem index_eq {count value : Nat} (few : count < ulongMax) (low : 1 ≤ value)
    (high : value ≤ count) : (min value ulongMax + ulongMax) % 2 ^ 64 = value - 1 := by
  simp only [ulongMax, word_eq] at few ⊢
  omega

theorem not_percent_of {before : List Char} (clean : '%' ∉ before) :
    ∀ c ∈ before, (c != '%') = true :=
  fun _ mem => bne_iff_ne.2 fun same => clean (same ▸ mem)

theorem dropWhile_before {before rest : List Char} (clean : '%' ∉ before) :
    (before ++ '%' :: rest).dropWhile (· != '%') = '%' :: rest := by
  rw [List.dropWhile_append_of_pos (not_percent_of clean)]
  simp

theorem takeWhile_before {before rest : List Char} (clean : '%' ∉ before) :
    (before ++ '%' :: rest).takeWhile (· != '%') = before := by
  rw [List.takeWhile_append_of_pos (not_percent_of clean)]
  simp

theorem strtoul_digits {digits rest : List Char} (all : ∀ d ∈ digits, d.isDigit)
    (stop : rest.head?.any Char.isDigit = false) :
    strtoul (digits ++ rest) = (min (digitsValue digits) ulongMax, rest) := by
  have take : rest.takeWhile Char.isDigit = [] := by cases rest <;> simp_all
  have drop : rest.dropWhile Char.isDigit = rest := by cases rest <;> simp_all
  simp [strtoul, List.takeWhile_append_of_pos all, List.dropWhile_append_of_pos all, take, drop]

theorem length_render_pos_of_digits {digits : List Char} (nonEmpty : digits ≠ []) (rest : List Char) :
    rest.length < (digits ++ rest).length := by
  simpa using List.length_pos.2 nonEmpty

/-- Within enough passes, the loop reads a valid template back as what it stands for. -/
theorem formatLoop_render {values : List Printable} (few : values.length < ulongMax) :
    ∀ (t : Template), t.Valid values.length → ∀ fuel, t.render.length < fuel →
      formatLoop values fuel t.render = some (t.denote values)
  | _, _, 0, enough => absurd enough (Nat.not_lt_zero _)
  | .text s, clean, fuel + 1, _ => by
      show formatLoop values (fuel + 1) s = some s
      rw [formatLoop, List.dropWhile_eq_nil_iff.2 (not_percent_of clean)]
  | .percent before rest, ⟨clean, valid⟩, fuel + 1, enough => by
      have more := formatLoop_render few rest valid fuel (by simp [Template.render] at enough; omega)
      simp only [Template.render] at more ⊢
      rw [formatLoop, dropWhile_before clean, takeWhile_before clean]
      simp [more, Template.denote]
  | .arg before digits rest, ⟨clean, nonEmpty, all, low, high, stop, valid⟩, fuel + 1, enough => by
      have more := formatLoop_render few rest valid fuel (by
        simp only [Template.render, List.length_append, List.length_cons] at enough
        have := length_render_pos_of_digits nonEmpty rest.render
        simp only [List.length_append] at this
        omega)
      obtain ⟨d, ds, rfl⟩ := List.exists_cons_of_ne_nil nonEmpty
      have digit : d.isDigit := all d (List.mem_cons_self _ _)
      have notPercent : d ≠ '%' := by rintro rfl; exact absurd digit (by decide)
      have read := strtoul_digits all stop
      have entry : values[((strtoul (d :: ds ++ rest.render)).1 + ulongMax) % 2 ^ 64]? =
          some (values.getD (digitsValue (d :: ds) - 1) default) := by
        rw [read, index_eq few low high, List.getD_eq_getElem?_getD,
          List.getElem?_eq_getElem (by omega), Option.getD_some]
      simp only [Template.render]
      rw [formatLoop, dropWhile_before clean, takeWhile_before clean]
      simp only [List.cons_append, if_neg notPercent, if_pos digit]
      rw [List.cons_append] at entry read
      rw [entry, read]
      simp [more, Template.denote]

/-- Whatever the loop returns is what some valid template, written out as the text it read,
stands for. -/
theorem formatLoop_template {values : List Printable} (few : values.length < ulongMax) :
    ∀ fuel fmt out, formatLoop values fuel fmt = some out →
      ∃ t : Template, t.Valid values.length ∧ t.render = fmt ∧ t.denote values = out
  | 0, _, _, ran => by cases ran
  | fuel + 1, fmt, out, ran => by
      have split := List.takeWhile_append_dropWhile (· != '%') fmt
      have clean : '%' ∉ fmt.takeWhile (· != '%') := fun mem => by
        simpa using List.mem_takeWhile_imp mem
      rw [formatLoop] at ran
      split at ran
      · case h_1 none =>
        cases ran
        exact ⟨.text fmt, fun mem => by simpa using List.dropWhile_eq_nil_iff.1 none '%' mem, rfl,
          rfl⟩
      · case h_2 stop next found =>
        have percent : stop = '%' := by
          simpa [found] using List.head_dropWhile_not (· != '%') fmt (by simp [found])
        subst percent
        rw [found] at split
        split at ran
        · cases ran
        · case h_2 c rest =>
          split_ifs at ran with isPercent digit
          · subst isPercent
            obtain ⟨out', more, rfl⟩ := Option.map_eq_some'.1 ran
            obtain ⟨t, valid, render, denote⟩ := formatLoop_template few fuel rest out' more
            exact ⟨.percent (fmt.takeWhile (· != '%')) t, ⟨clean, valid⟩,
              by rw [Template.render, render, split], by rw [Template.denote, denote]⟩
          · split at ran
            next p entry =>
              obtain ⟨out', more, rfl⟩ := Option.map_eq_some'.1 ran
              obtain ⟨t, valid, render, denote⟩ := formatLoop_template few fuel _ out' more
              have inRange := (List.getElem?_eq_some_iff.1 entry).1
              obtain ⟨low, high, index⟩ := index_of_lt few inRange
              have digits := (c :: rest).takeWhile_append_dropWhile Char.isDigit
              have all : ∀ d ∈ (c :: rest).takeWhile Char.isDigit, d.isDigit := fun d mem =>
                List.mem_takeWhile_imp mem
              refine ⟨.arg (fmt.takeWhile (· != '%')) ((c :: rest).takeWhile Char.isDigit) t,
                ⟨clean, by rw [List.takeWhile_cons_of_pos digit]; exact List.cons_ne_nil _ _, all,
                  low, high, ?_, valid⟩,
                by rw [Template.render, render, strtoul, digits, split], ?_⟩
              · rw [render]
                cases tail : (c :: rest).dropWhile Char.isDigit with
                | nil => simp [strtoul, tail]
                | cons e es =>
                  simpa [strtoul, tail] using
                    List.head_dropWhile_not Char.isDigit (c :: rest) (by simp [tail])
              · rw [Template.denote, denote, List.getD_eq_getElem?_getD]
                rw [show digitsValue ((c :: rest).takeWhile Char.isDigit) - 1 =
                  ((strtoul (c :: rest)).1 + ulongMax) % 2 ^ 64 from index.symm, entry,
                  Option.getD_some]
            next => cases ran

/-- `format` accepts a format string exactly when its characters before the first NUL are
written out from a valid template for the values given, and then writes what the template
stands for: its texts, `%` for each `%%`, and each position `n` as the `n`-th value printed
without quotes. -/
theorem format_eq_some_iff {values : List Printable} (few : values.length < ulongMax)
    (fmt out : String) :
    format fmt values = some out ↔
      ∃ t : Template, t.Valid values.length ∧ t.render = cString fmt ∧
        t.denote values = out.toList := by
  constructor
  · intro formatted
    obtain ⟨out', ran, rfl⟩ := Option.map_eq_some'.1 formatted
    exact formatLoop_template few _ _ _ ran
  · rintro ⟨t, valid, render, denote⟩
    have ran := formatLoop_render few t valid (t.render.length + 1) (Nat.lt_succ_self _)
    rw [format, ← render, ran, denote]
    rfl

/-- `%1 is 100%%` for one value is accepted, and read as the template it is written from. -/
theorem format_eq_some_iff_percent :
    [Printable.uint 3].length < ulongMax ∧
      (format "%1 is 100%%" [.uint 3] = some "3 is 100%" ↔
        ∃ t : Template, t.Valid [Printable.uint 3].length ∧ t.render = cString "%1 is 100%%" ∧
          t.denote [.uint 3] = "3 is 100%".toList) :=
  ⟨by decide, format_eq_some_iff (by decide) _ _⟩

end Util
end RealmCore
