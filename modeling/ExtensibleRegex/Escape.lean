import ExtensibleRegex.Native.Lexeme

/-!
# Escaping

`escape` writes a text as a pattern that matches just this text, in a class as well as outside,
and under every built-in flag: characters with a meaning get a backslash, and characters that
free spacing or a class would read differently are written by their number.
-/

namespace ExtensibleRegex

/-- One character as a pattern. -/
def escapeChar (c : Char) : Text :=
  if Native.isSyntaxChar c then ['\\', c]
  else if c = '-' || c = ',' || c = '#' || isBlank c then
    if c.toNat ≤ 0xFF then '\\' :: 'x' :: hexText 2 c.toNat
    else '\\' :: 'u' :: hexText 4 c.toNat
  else [c]

/-- A text as a pattern that matches it literally. -/
def escape (t : Text) : Text := t.flatMap escapeChar

@[simp] theorem escape_nil : escape [] = [] := rfl

@[simp] theorem escape_cons (c : Char) (t : Text) : escape (c :: t) = escapeChar c ++ escape t := by
  simp [escape]

theorem escape_append (s t : Text) : escape (s ++ t) = escape s ++ escape t := by
  simp [escape]

end ExtensibleRegex
