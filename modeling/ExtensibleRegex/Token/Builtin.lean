import ExtensibleRegex.Expansion.Verbatim

/-!
# The built-in tokens

Every dialect begins with these tokens: escapes that mean nothing are refused, code point escapes,
empty classes, comments, free spacing, the dot under flag `s`, references by name or number, and
the two ways in which capturing groups open. The list is in the order of registration; a later
token goes before an earlier one.
-/

namespace ExtensibleRegex

namespace Builtin

/-! ## 1. Handlers -/

/-- Refuses a letter escape without a meaning. Only `\B` outside of classes has one. -/
def refuseEscape : Handler := fun inv ledger =>
  if inv.found.textOf 1 = ['B'] ∧ inv.scope = .pattern then .ok (inv.found.text, ledger)
  else .error (.invalidEscape inv.found.text)

/-- A code point escape, as four digits where these are enough. -/
def codePoint : Handler := fun inv ledger =>
  let n := readDigits 16 (inv.found.textOf 1)
  if n > 0x10FFFF then .error (.codePointTooLarge inv.found.text)
  else if n ≤ 0xFFFF then .ok ('\\' :: 'u' :: hexText 4 n, ledger)
  else if inv.flags.contains 'u' then .ok (inv.found.text, ledger)
  else .error .codePointNeedsUnicode

/-- An empty class, which matches nothing, or its complement, which matches anything. -/
def bareClass : Handler := fun inv ledger =>
  if inv.found.textOf 1 = [] then .ok ("\\b\\B".toList, ledger)
  else .ok ("[\\s\\S]".toList, ledger)

/-- Refuses a comment that does not end. -/
def refuseOpenComment : Handler := fun inv _ =>
  .error (.unterminatedComment inv.found.whole.start.ahead)

/-- A comment or blanks. -/
def separator : Handler := fun inv ledger => .ok (separatorFor inv.found inv.flags, ledger)

/-- A dot that also matches line ends. -/
def anyCharacter : Handler := fun _ ledger => .ok ("[\\s\\S]".toList, ledger)

/-- The group that a name or a number refers to, if it has opened. -/
def referredGroup? (ledger : Ledger) (name : Text) : Option Nat :=
  if name.all Char.isDigit then
    let n := readDigits 10 name
    if 0 < n ∧ n ≤ ledger.groupCount then some n else none
  else ledger.index? name

/-- A reference to a group by name or number. An empty group keeps it apart from a digit. -/
def namedReference : Handler := fun inv ledger =>
  match referredGroup? ledger (inv.found.textOf 1) with
  | some n =>
    let apart := if inv.found.whole.stop.ahead.head?.any Char.isDigit then emptyGroup else []
    .ok ('\\' :: decimalText n ++ apart, ledger)
  | none => .error (.undefinedGroup inv.found.text)

/-- A backslash and digits: `\0`, or outside of classes a reference to a group that has opened. -/
def numberedReference : Handler := fun inv ledger =>
  let digits := inv.found.textOf 1
  let isReference := inv.scope = .pattern ∧ digits.head? ≠ some '0' ∧
    readDigits 10 digits ≤ ledger.groupCount
  if isReference ∨ digits = ['0'] then .ok (inv.found.text, ledger)
  else .error (.octalOrUndefinedGroup inv.found.text)

/-- The names that a group may have only when named groups are listed apart. -/
def guardedNames : List Text := ["length".toList, "__proto__".toList]

/-- The opening of a named group. -/
def openNamed : Handler := fun inv ledger =>
  let name := inv.found.textOf 1
  if name.all Char.isDigit then .error (.integerName inv.found.text)
  else if !inv.setting.features.namespacing && guardedNames.contains name then
    .error (.reservedName inv.found.text)
  else if (ledger.index? name).isSome then .error (.duplicateName inv.found.text)
  else .ok (['('], ledger.push (some name))

/-- The opening of a group without a name, which under flag `n` does not capture. -/
def openPlain : Handler := fun inv ledger =>
  if inv.flags.contains 'n' then .ok (['(', '?', ':'], ledger)
  else .ok (['('], ledger.push none)

/-! ## 2. The list -/

/-- The built-in tokens, in the order of their registration. -/
def specs : List TokenSpec :=
  [{ trigger := ("\\\\([ABCE-RTUVXYZaeg-mopqyz]|c(?![A-Za-z])|u(?![\\dA-Fa-f]\x7b4\x7d|" ++
        "\\\x7b[\\dA-Fa-f]+\\\x7d)|x(?![\\dA-Fa-f]\x7b2\x7d))").toList
     scope := .all
     lead := some '\\'
     handler := refuseEscape },
   { trigger := "\\\\u\\\x7b([\\dA-Fa-f]+)\\\x7d".toList
     scope := .all
     lead := some '\\'
     handler := codePoint },
   { trigger := "\\[(\\^?)\\]".toList
     lead := some '['
     handler := bareClass },
   { trigger := "\\(\\?#".toList
     lead := some '('
     handler := refuseOpenComment },
   { trigger := "\\(\\?#[^)]*\\)".toList
     lead := some '('
     handler := separator },
   { trigger := "\\s+|#[^\\n]*\\n?".toList
     gate := some 'x'
     handler := separator },
   { trigger := "\\.".toList
     gate := some 's'
     lead := some '.'
     handler := anyCharacter },
   { trigger := "\\\\k<([\\w$]+)>".toList
     lead := some '\\'
     handler := namedReference },
   { trigger := "\\\\(\\d+)".toList
     scope := .all
     lead := some '\\'
     handler := numberedReference },
   { trigger := "\\(\\?P?<([\\w$]+)>".toList
     lead := some '('
     handler := openNamed },
   { trigger := "\\((?!\\?)".toList
     optionalFlags := ['n']
     lead := some '('
     handler := openPlain }]

end Builtin

end ExtensibleRegex
