import ExtensibleRegex.Edit.Replace

/-!
# Recipes for replacements

A replacement can be put together from a list of steps, each of which adds a text taken from the
match.
-/

namespace ExtensibleRegex

/-- One step of a replacement. -/
inductive ReplacementStep where
  | text (t : Text)
  /-- The text of a group. -/
  | group (n : Nat)
  /-- The text of the group with a name. -/
  | named (name : Text)
  /-- The offset of the match. -/
  | offset
  /-- The offset of the end of the match. -/
  | stop
  /-- The number of groups, the whole match included. -/
  | groupCount
  /-- How often the replacement has been asked, this match included. -/
  | call
  /-- The whole text. -/
  | subject
  deriving DecidableEq, Repr

namespace ReplacementStep

/-- The text of a step, when the replacement is asked for the `n`th time. -/
def run (n : Nat) (c : Captures) : ReplacementStep → Text
  | text t => t
  | group i => c.textOf i
  | named name => ((c.named? name).map Span.text).getD ['-']
  | offset => decimalText c.whole.start.offset
  | stop => decimalText c.whole.stop.offset
  | groupCount => decimalText c.slots.length
  | call => decimalText n
  | subject => c.subject

/-- The replacement of a list of steps. Its state is how often it has been asked. -/
def toReplacement (steps : List ReplacementStep) : Replacement Nat := fun c => do
  modify (· + 1)
  return steps.flatMap (run (← get) c)

end ReplacementStep

end ExtensibleRegex
