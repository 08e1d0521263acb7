import ExtensibleRegex.Combine.Piece
import ExtensibleRegex.Dialect.Context
import ExtensibleRegex.Edit.Replace

/-!
# Unions

A union merges regexes and literal texts into one regex, as alternatives or one after another.
Groups keep their names, and each reference is moved past the groups of the parts before it.
-/

namespace ExtensibleRegex

/-- How the parts of a union are joined. -/
inductive Conjunction where
  /-- As alternatives. -/
  | or
  /-- One after another. -/
  | none
  deriving DecidableEq, Repr

/-- What stands between two parts. -/
def Conjunction.separator : Conjunction → Text
  | or => ['|']
  | none => []

/-- The opening of a capturing group with the given name, if any. -/
def openCapture (name : Option Text) : Text :=
  match name with
  | some name => ['(', '?', '<'] ++ name ++ ['>']
  | none => ['(']

/-- A reference by number. -/
def numberReference (n : Nat) : Text := '\\' :: decimalText n

/-- A reference by name. -/
def nameReference (name : Text) : Text := ['\\', 'k', '<'] ++ name ++ ['>']

/-- Writes the pieces of a part whose groups follow `prior` others: groups get the names of the
part back, and references are moved. `opened` groups of the part have opened. -/
def renumber (names : GroupNames) (prior : Nat) : (opened : Nat) → List Piece → Text × Nat
  | opened, [] => ([], opened)
  | opened, p :: ps =>
    let (t, opened') := match p with
      | .capture => (openCapture (names[opened]?).join, opened + 1)
      | .backref n => (numberReference (n + prior), opened)
      | .subpattern _ _ => ([], opened)
      | .verbatim t => (t, opened)
    let (rest, total) := renumber names prior opened' ps
    (t ++ rest, total)

namespace Context

/-- One part of a union, written so that its groups follow `prior` others, and how many groups
there are then. -/
def unionPart (prior : Nat) : Needle → ContextM (Text × Nat)
  | .literal t => return (escape t, prior)
  | .regex re => do
    let t ← expand re.nativeSource (if re.engine.mode.unicode then ['u'] else [])
    let (written, own) := renumber (re.names.getD []) prior 0 (pieces t.pattern false)
    return (written, prior + own)

/-- The parts of a union from one on. -/
def unionParts : (prior : Nat) → List Needle → ContextM (List Text)
  | _, [] => return []
  | prior, part :: parts => do
    let (written, prior) ← unionPart prior part
    let rest ← unionParts prior parts
    return written :: rest

/-- Merges regexes and literal texts into one regex. -/
def union (parts : List Needle) (flags : Text) (conjunction : Conjunction) : ContextM Regex := do
  if parts.isEmpty then throw .nothingToMerge
  let written ← unionParts 0 parts
  regex (conjunction.separator.intercalate written) flags

end Context

end ExtensibleRegex
