import ExtensibleRegex.Text.Place

/-!
# Classes of characters

The classes that patterns and flags are written with are ASCII classes; blanks and line ends are
short tables. A table is a list of ranges of code points, both ends included.
-/

namespace ExtensibleRegex

/-! ## 1. Ranges -/

/-- Whether a code point lies in one of the ranges. -/
def inRanges (ranges : List (Nat × Nat)) (n : Nat) : Bool :=
  ranges.any fun r => r.1 ≤ n && n ≤ r.2

@[simp] theorem inRanges_nil (n : Nat) : inRanges [] n = false := rfl

theorem inRanges_iff (ranges : List (Nat × Nat)) (n : Nat) :
    inRanges ranges n = true ↔ ∃ r ∈ ranges, r.1 ≤ n ∧ n ≤ r.2 := by
  simp [inRanges]

/-! ## 2. Letters and digits -/

/-- A character of a word or a flag: `[A-Za-z0-9_$]`. -/
def isNameChar (c : Char) : Bool := c.isAlphanum || c == '_' || c == '$'

/-- A hexadecimal digit. -/
def isHexDigit (c : Char) : Bool :=
  c.isDigit || ('a' ≤ c && c ≤ 'f') || ('A' ≤ c && c ≤ 'F')

/-- An octal digit. -/
def isOctalDigit (c : Char) : Bool := '0' ≤ c && c ≤ '7'

/-- The value of a hexadecimal digit. -/
def hexValue (c : Char) : Nat :=
  if c.isDigit then c.toNat - 48
  else if 'a' ≤ c then c.toNat - 87
  else c.toNat - 55

/-- The number that digits of a base denote, leading digit first. -/
def readDigits (base : Nat) (t : Text) : Nat :=
  t.foldl (fun n c => n * base + hexValue c) 0

/-- A number in lower-case hexadecimal, padded with zeros to at least `width` digits. -/
def hexText (width n : Nat) : Text :=
  let digits := Nat.toDigits 16 n
  List.replicate (width - digits.length) '0' ++ digits

/-- A number in decimal. -/
def decimalText (n : Nat) : Text := Nat.toDigits 10 n

/-! ## 3. Blanks and line ends -/

/-- White space in the sense of Unicode's `White_Space` property. -/
def whiteSpaceRanges : List (Nat × Nat) :=
  [(0x9, 0xD), (0x20, 0x20), (0x85, 0x85), (0xA0, 0xA0), (0x1680, 0x1680), (0x2000, 0x200A),
   (0x2028, 0x2029), (0x202F, 0x202F), (0x205F, 0x205F), (0x3000, 0x3000)]

/-- Whether a character is white space. -/
def isWhiteSpace (c : Char) : Bool := inRanges whiteSpaceRanges c.toNat

/-- White space, or the byte order mark. -/
def isBlank (c : Char) : Bool := isWhiteSpace c || c.toNat == 0xFEFF

/-- A character that ends a line. -/
def isLineEnd (c : Char) : Bool :=
  c == '\n' || c == '\r' || c.toNat == 0x2028 || c.toNat == 0x2029

/-! ## 4. Parts of a text -/

/-- The text after an opening piece, if the text begins with it. -/
def after? : Text → Text → Option Text
  | [], t => some t
  | _ :: _, [] => none
  | c :: piece, d :: t => if c = d then after? piece t else none

theorem after?_eq_some_iff (piece t rest : Text) :
    after? piece t = some rest ↔ t = piece ++ rest := by
  induction piece generalizing t with
  | nil => simp [after?, eq_comm]
  | cons c piece ih =>
    cases t with
    | nil => simp [after?]
    | cons d t =>
      by_cases h : c = d
      · subst h; simp [after?, ih]
      · simp only [after?, h, if_false, List.cons_append, List.cons.injEq]
        constructor
        · intro h'; cases h'
        · intro h'; exact absurd h'.1.symm h

end ExtensibleRegex
