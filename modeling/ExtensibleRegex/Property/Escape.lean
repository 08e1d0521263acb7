import ExtensibleRegex.Token.Basic

/-!
# Property escapes

The token behind `\p` and `\P`. A capital letter, a caret in the braces and a property that is
declared as the inverse of another one each negate. Without flag `A` the class of the property is
written, with it a pattern that matches one whole code point.
-/

namespace ExtensibleRegex

/-- What a property escape says: what is written, the name in it, and whether it negates. -/
structure PropertyEscape where
  token : Text
  name : Text
  negated : Bool

/-- Reads the match of the trigger. -/
def PropertyEscape.ofCaptures (c : Captures) : Except Error PropertyEscape :=
  let upper := c.textOf 1 = ['P']
  let caret := c.textOf 2 ≠ []
  if upper ∧ caret then .error (.property (.doubleNegation c.text))
  else
    let name := match c.get? 4 with
      | some letter => letter.text
      | none => c.textOf 3
    .ok ⟨c.text, name, upper ∨ caret⟩

namespace PropertyTable

/-- The key of the property that an escape refers to, through one inverse, the property, and
whether its complement is meant. -/
def resolve (t : PropertyTable) (e : PropertyEscape) :
    Except Error (Text × UnicodeProperty × Bool) :=
  match t.find? e.name with
  | none => .error (.property (.unknown e.token))
  | some p =>
    match p.inverseOf with
    | none => .ok (propertyKey e.name, p, e.negated)
    | some target =>
      match t.find? target with
      | none => .error (.property (.missingTarget e.token target))
      | some q => .ok (propertyKey target, q, !e.negated)

/-- What stands in a scope for the property with a key, without flag `A`, and the table after it. -/
def classTextOf (t : PropertyTable) (key bmp : Text) (scope : Scope) (negated : Bool) :
    Text × PropertyTable :=
  match scope, negated with
  | .charClass, true => t.complementOf key bmp
  | .charClass, false => (bmp, t)
  | .pattern, true => ('[' :: '^' :: bmp ++ [']'], t)
  | .pattern, false => ('[' :: bmp ++ [']'], t)

end PropertyTable

/-- What stands for a property escape, and the table after it. -/
def expandProperty (inv : Invocation) : Except Error (Text × PropertyTable) := do
  let e ← PropertyEscape.ofCaptures inv.found
  let (key, p, negated) ← inv.setting.properties.resolve e
  if inv.flags.contains 'A' then
    if inv.scope = .charClass then throw (.property .insideClass)
    return inv.setting.properties.pointPatternOf key p negated
  else
    match p.bmp with
    | none => throw (.property (.needsAstral e.token))
    | some bmp => return inv.setting.properties.classTextOf key bmp inv.scope negated

/-- The handler of property escapes. -/
def propertyHandler : Handler := fun inv ledger => do
  let (written, _) ← expandProperty inv
  return (written, ledger)

/-- The table of properties after a property escape. -/
def propertyNote (inv : Invocation) : PropertyTable :=
  match expandProperty inv with
  | .ok (_, properties) => properties
  | .error _ => inv.setting.properties

/-- The token of property escapes. -/
def propertySpec : TokenSpec where
  trigger := "\\\\([pP])(?:\\\x7b(\\^?)([^\x7d]*)\\\x7d|([A-Za-z]))".toList
  scope := .all
  optionalFlags := ['A']
  lead := some '\\'
  handler := propertyHandler
  note := propertyNote

end ExtensibleRegex
