import ExtensibleRegex.Error
import ExtensibleRegex.Text.Lowercase

/-!
# Unicode properties

The data of a Unicode property comes from the caller: what a class for the basic plane holds, a
pattern for the code points beyond it, or the name of the property that it negates. A table finds
a property by its name or its other name, without regard to case, blanks, hyphens and underscores.

A table also keeps the longer texts that have been derived from its data: complements of classes,
and patterns for one code point. Adding a property drops both.
-/

namespace ExtensibleRegex

/-! ## 1. Property data -/

/-- The data of one property. -/
structure UnicodeProperty where
  name : Text
  /-- A second name. -/
  otherName : Option Text := none
  /-- What a class for the basic plane holds. -/
  bmp : Option Text := none
  /-- A native pattern for the code points beyond the basic plane. -/
  astral : Option Text := none
  /-- The property that this one is the negation of. -/
  inverseOf : Option Text := none
  /-- Whether the astral pattern is tried before the class. -/
  bmpLast : Bool := false
  deriving DecidableEq, Repr

/-- Accepts a property with a name and with data. -/
def UnicodeProperty.check (p : UnicodeProperty) : Except Error Unit :=
  if p.name = [] then .error .namelessProperty
  else if p.inverseOf.isNone && p.bmp.isNone && p.astral.isNone then
    .error (.propertyWithoutData p.name)
  else .ok ()

/-- The form of a name under which it is found. -/
def propertyKey (name : Text) : Text :=
  (name.filter fun c => c != ' ' && c != '-' && c != '_').flatMap lowerCase

/-! ## 2. Tables -/

/-- Properties by key, those added last first, and what has been derived from them. -/
structure PropertyTable where
  entries : List (Text × UnicodeProperty)
  /-- The complements of classes, by the key of the property. -/
  complements : List (Text × Text)
  /-- The patterns for one code point, by key and whether they negate. -/
  pointPatterns : List ((Text × Bool) × Text)
  deriving DecidableEq, Repr

namespace PropertyTable

/-- The table without properties. -/
def empty : PropertyTable := ⟨[], [], []⟩

/-- The property with a key. -/
def get? (t : PropertyTable) (key : Text) : Option UnicodeProperty := t.entries.lookup key

/-- The property with a name. -/
def find? (t : PropertyTable) (name : Text) : Option UnicodeProperty := t.get? (propertyKey name)

/-- Adds a property under its other name and under its name, and drops what has been derived. -/
def insert (t : PropertyTable) (p : UnicodeProperty) : PropertyTable :=
  let others := match p.otherName with
    | some name => (propertyKey name, p) :: t.entries
    | none => t.entries
  ⟨(propertyKey p.name, p) :: others, [], []⟩

end PropertyTable

/-! ## 3. Complements -/

/-- Exactly `n` hexadecimal digits, and the text after them. -/
def takeHex? (n : Nat) (t : Text) : Option (Nat × Text) :=
  let digits := t.take n
  if digits.length = n ∧ digits.all isHexDigit then some (readDigits 16 digits, t.drop n)
  else none

/-- The first code point of a class, and what is written after it. -/
def classPoint? : Text → Option (Nat × Text)
  | [] => none
  | '\\' :: rest =>
    match rest with
    | [] => none
    | 'x' :: rest => takeHex? 2 rest
    | 'u' :: rest => takeHex? 4 rest
    | c :: rest => some (c.toNat, rest)
  | c :: rest => some (c.toNat, rest)

/-- The first range of a class, which may be a single code point, and what is written after it. -/
def classRange? (t : Text) : Option ((Nat × Nat) × Text) :=
  match classPoint? t with
  | none => none
  | some (lo, rest) =>
    match rest with
    | '-' :: rest' =>
      match classPoint? rest' with
      | some (hi, rest'') => some ((lo, hi), rest'')
      | none => some ((lo, lo), rest)
    | _ => some ((lo, lo), rest)

/-- The ranges of a class, up to the first place that cannot be read. Each range takes a character
at least, so `left`, the length of the text, bounds their number. -/
def classRanges : (left : Nat) → Text → List (Nat × Nat)
  | 0, _ => []
  | left + 1, t =>
    match classRange? t with
    | some (r, rest) => r :: classRanges left rest
    | none => []

/-- A code point of the basic plane as an escape. -/
def pointText (n : Nat) : Text := '\\' :: 'u' :: hexText 4 n

/-- Writes the gap from `next` up to and without `limit`, if there is one. -/
def gapText (next limit : Nat) : Text :=
  if next < limit then
    if next + 1 < limit then pointText next ++ '-' :: pointText (limit - 1) else pointText next
  else []

/-- Writes the gaps before each range and after the last one. `next` is the code point after the
range written last. -/
def gapsText : (next : Nat) → List (Nat × Nat) → Text
  | next, [] => gapText next 0x10000
  | next, (lo, hi) :: rest => gapText next lo ++ gapsText (hi + 1) rest

/-- The complement, within the basic plane, of what a class holds. -/
def complementBmp (bmp : Text) : Text := gapsText 0 (classRanges bmp.length bmp)

/-- A pattern that matches one code point with a property, or without it. -/
def UnicodeProperty.pointPattern (p : UnicodeProperty) (negated : Bool) : Text :=
  let bmp := p.bmp.map fun b => '[' :: b ++ [']']
  let parts := if p.bmpLast then p.astral.toList ++ bmp.toList else bmp.toList ++ p.astral.toList
  let combined := ['|'].intercalate parts
  if negated then "(?:(?!".toList ++ combined ++ ")[\\s\\S])".toList
  else "(?:".toList ++ combined ++ [')']

/-! ## 4. Derived texts -/

namespace PropertyTable

/-- The complement of the class of the property with a key, kept or computed, and the table that
keeps it. -/
def complementOf (t : PropertyTable) (key bmp : Text) : Text × PropertyTable :=
  match t.complements.lookup key with
  | some kept => (kept, t)
  | none =>
    let complement := complementBmp bmp
    (complement, { t with complements := (key, complement) :: t.complements })

/-- The pattern for one code point of the property with a key, kept or computed, and the table
that keeps it. -/
def pointPatternOf (t : PropertyTable) (key : Text) (p : UnicodeProperty) (negated : Bool) :
    Text × PropertyTable :=
  match t.pointPatterns.lookup (key, negated) with
  | some kept => (kept, t)
  | none =>
    let pattern := p.pointPattern negated
    (pattern, { t with pointPatterns := ((key, negated), pattern) :: t.pointPatterns })

end PropertyTable

end ExtensibleRegex
