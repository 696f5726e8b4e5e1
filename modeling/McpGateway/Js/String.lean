import Mathlib.Data.List.Basic
import Mathlib.Data.List.DropRight
import Mathlib.Tactic

/-!
# JavaScript strings

A JavaScript string is a sequence of UTF-16 code units, unpaired surrogates
included. The classes below are the ones the language's own operations and
regular expressions use: `\s` and `trim` share `isSpace`, `\w` and `\b` use
`isWordChar`, and `toLowerCase` is spelled out on the ASCII letters only.
-/

namespace McpGateway.Js

abbrev CodeUnit := UInt16

abbrev JsString := List CodeUnit

/-- The code unit of a character of the source text. Every constant of the
modelled programs is ASCII. -/
def unit (c : Char) : CodeUnit := UInt16.ofNat c.toNat

def js (s : String) : JsString := s.toList.map unit

/-- A condition on the members of a string is decided along the string, not by trying
every code unit there is. -/
instance (priority := 2000) decidableMembers {α : Type u} (p : α → Prop) [DecidablePred p]
    (xs : List α) : Decidable (∀ x ∈ xs, p x) :=
  List.decidableBAll p xs

-- ---------------------------------------------------------------------------
-- Code units with a name
-- ---------------------------------------------------------------------------

@[match_pattern] abbrev lineFeed : CodeUnit := 0x0A
@[match_pattern] abbrev carriageReturn : CodeUnit := 0x0D
@[match_pattern] abbrev blank : CodeUnit := 0x20
@[match_pattern] abbrev doubleQuote : CodeUnit := 0x22
@[match_pattern] abbrev dollar : CodeUnit := 0x24
@[match_pattern] abbrev ampersand : CodeUnit := 0x26
@[match_pattern] abbrev singleQuote : CodeUnit := 0x27
@[match_pattern] abbrev leftParen : CodeUnit := 0x28
@[match_pattern] abbrev rightParen : CodeUnit := 0x29
@[match_pattern] abbrev asterisk : CodeUnit := 0x2A
@[match_pattern] abbrev plusSign : CodeUnit := 0x2B
@[match_pattern] abbrev comma : CodeUnit := 0x2C
@[match_pattern] abbrev hyphen : CodeUnit := 0x2D
@[match_pattern] abbrev fullStop : CodeUnit := 0x2E
@[match_pattern] abbrev slash : CodeUnit := 0x2F
@[match_pattern] abbrev colon : CodeUnit := 0x3A
@[match_pattern] abbrev semicolon : CodeUnit := 0x3B
@[match_pattern] abbrev equalsSign : CodeUnit := 0x3D
@[match_pattern] abbrev leftBracket : CodeUnit := 0x5B
@[match_pattern] abbrev backslash : CodeUnit := 0x5C
@[match_pattern] abbrev rightBracket : CodeUnit := 0x5D
@[match_pattern] abbrev underscore : CodeUnit := 0x5F
@[match_pattern] abbrev leftBrace : CodeUnit := 0x7B
@[match_pattern] abbrev verticalBar : CodeUnit := 0x7C
@[match_pattern] abbrev rightBrace : CodeUnit := 0x7D

-- ---------------------------------------------------------------------------
-- Classes
-- ---------------------------------------------------------------------------

def isDigit (c : CodeUnit) : Bool := 0x30 ≤ c && c ≤ 0x39

def isUpper (c : CodeUnit) : Bool := 0x41 ≤ c && c ≤ 0x5A

def isLower (c : CodeUnit) : Bool := 0x61 ≤ c && c ≤ 0x7A

def isLetter (c : CodeUnit) : Bool := isUpper c || isLower c

/-- `\w`. -/
def isWordChar (c : CodeUnit) : Bool := isLetter c || isDigit c || c == underscore

/-- `\s`: the white space and line terminators of ECMAScript. -/
def isSpace (c : CodeUnit) : Bool :=
  (0x09 ≤ c && c ≤ 0x0D) || c == blank || c == 0xA0 || c == 0x1680 ||
    (0x2000 ≤ c && c ≤ 0x200A) || c == 0x2028 || c == 0x2029 || c == 0x202F ||
    c == 0x205F || c == 0x3000 || c == 0xFEFF

def isQuote (c : CodeUnit) : Bool := c == singleQuote || c == doubleQuote

def isHighSurrogate (c : CodeUnit) : Bool := 0xD800 ≤ c && c ≤ 0xDBFF

def isLowSurrogate (c : CodeUnit) : Bool := 0xDC00 ≤ c && c ≤ 0xDFFF

def lower (c : CodeUnit) : CodeUnit := if isUpper c then c + 0x20 else c

-- ---------------------------------------------------------------------------
-- String.prototype
-- ---------------------------------------------------------------------------

def trimStart (s : JsString) : JsString := s.dropWhile isSpace

def trimEnd (s : JsString) : JsString := s.rdropWhile isSpace

def trim (s : JsString) : JsString := trimEnd (trimStart s)

/-- `toLowerCase`. The letters beyond ASCII keep their case here; none of them
has a lower-case form made of ASCII letters the guarded words contain. -/
def toLowerCase (s : JsString) : JsString := s.map lower

/-- `toUpperCase` on the ASCII letters. -/
def toUpperCase (s : JsString) : JsString := s.map fun c => if isLower c then c - 0x20 else c

/-- The decimal digits of a number below 10^21, as template literals and
`String` print them. -/
def decimal (n : Nat) : JsString := (Nat.toDigits 10 n).map unit

theorem isDigit_unit {c : Char} (h : c.isDigit = true) : isDigit (unit c) = true := by
  simp only [Char.isDigit, Bool.and_eq_true, decide_eq_true_eq, ge_iff_le, UInt32.le_iff_toNat_le] at h
  change 48 ≤ c.toNat ∧ c.toNat ≤ 57 at h
  have hc : (unit c).toNat = c.toNat := Nat.mod_eq_of_lt (by omega)
  simp only [isDigit, Bool.and_eq_true, decide_eq_true_eq, UInt16.le_iff_toNat_le, hc]
  exact h

theorem isDigit_of_mem_decimal {c : CodeUnit} (h : c ∈ decimal n) : isDigit c = true := by
  obtain ⟨d, hd, rfl⟩ := List.mem_map.mp h
  exact isDigit_unit (Nat.isDigit_of_mem_toDigits (by omega) (by omega) hd)

theorem decimal_ne_nil : decimal n ≠ [] := by
  simp [decimal, Nat.toDigits_ne_nil]

end McpGateway.Js
