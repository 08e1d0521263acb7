import ExtensibleRegex.Unicode.Binary

/-!
# Identifiers

A group name starts with a letter, `$` or `_`, and goes on with letters, digits, combining marks
and connecting punctuation. The joiners may stand inside of it.
-/

namespace ExtensibleRegex

/-- Whether a character may start an identifier. -/
def startsIdentifier (c : Char) : Bool :=
  c.isAlpha || c == '_' || c == '$' || Unicode.identifierStart.contains c.toNat

/-- Whether a character may stand inside an identifier. -/
def extendsIdentifier (c : Char) : Bool :=
  c.isAlphanum || c == '_' || c == '$' || c.toNat == 0x200C || c.toNat == 0x200D ||
    Unicode.identifierContinue.contains c.toNat

end ExtensibleRegex
