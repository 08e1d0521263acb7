import ExtensibleRegex.Unicode.Binary
import ExtensibleRegex.Unicode.Script

/-!
# Properties by name

A property of code points is named in one of two ways: by a single name, which is a general
category or a binary property, or by a kind and a value with an equals sign between them. Names
are taken exactly as they are, capitals included, and every name has its abbreviations.
-/

namespace ExtensibleRegex.Unicode

/-- The set that a table has for a name. -/
def named? (table : List (List String × CodeSet)) (name : Text) : Option CodeSet :=
  (table.find? fun row => row.1.any fun s => s.toList == name).map Prod.snd

/-- The script with a name. -/
def script? (name : Text) : Option Script :=
  scripts.find? fun s => s.names.any fun n => n.toList == name

/-- The kinds of properties that have values. -/
inductive Kind where
  | category
  | script
  | scriptExtensions
  deriving DecidableEq, Repr

/-- The kind with a name. -/
def kind? (name : Text) : Option Kind :=
  if name = "General_Category".toList ∨ name = "gc".toList then some .category
  else if name = "Script".toList ∨ name = "sc".toList then some .script
  else if name = "Script_Extensions".toList ∨ name = "scx".toList then some .scriptExtensions
  else none

/-- The code points with a value of a kind. -/
def valueSet? (kind : Kind) (value : Text) : Option CodeSet :=
  match kind with
  | .category => named? categories value
  | .script => (script? value).map Script.members
  | .scriptExtensions => (script? value).map Script.extended

/-- The code points with the property that a text names. -/
def property? (text : Text) : Option CodeSet :=
  let name := text.takeWhile (· != '=')
  match text.drop name.length with
  | [] => (named? categories name).orElse fun _ => named? binaryProperties name
  | _ :: value => (kind? name).bind (valueSet? · value)

end ExtensibleRegex.Unicode
