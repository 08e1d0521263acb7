import ExtensibleRegex.Native.Engine

/-!
# Regexes and captures

A `Regex` is an engine with what the library adds to it: the emulated flags `g` and `y`, the names
of its groups, and the pattern and flags it was written with. A `Captures` value is one match: its
groups together with the names that the regex gives them.
-/

namespace ExtensibleRegex

/-! ## 1. Regexes -/

/-- The names of the capturing groups, in order; unnamed groups have none. -/
abbrev GroupNames := List (Option Text)

/-- The number of the group with a name. -/
def GroupNames.index? (names : GroupNames) (name : Text) : Option Nat :=
  (names.findIdx? (· == some name)).map (· + 1)

/-- A pattern ready for use. -/
structure Regex where
  engine : Native.Engine
  global : Bool
  sticky : Bool
  /-- The names of the groups, when there is a named one. -/
  names : Option GroupNames
  /-- The pattern as written, if it was written in a dialect. -/
  source : Option Text
  /-- The flags as written, in the order of code points. -/
  flags : Option Text
  /-- Whether matches list their named groups apart. -/
  namespaced : Bool

namespace Regex

/-- A regex for a native pattern, read by the engine as it stands. -/
def native (pattern flags : Text) : Except Error Regex := do
  KnownFlags.native.validate flags
  let f := NativeFlags.ofText flags
  let engine ← Native.Engine.ofSource pattern f.mode
  return ⟨engine, f.global, f.sticky, none, none, none, false⟩

/-- The pattern that the engine runs. -/
def nativeSource (re : Regex) : Text := re.engine.source

/-- The native flags of a regex. -/
def nativeFlags (re : Regex) : NativeFlags :=
  ⟨re.global, re.engine.mode.ignoreCase, re.engine.mode.multiline, re.engine.mode.unicode,
    re.sticky⟩

/-- The pattern as written, or else the one that the engine runs. -/
def toText (re : Regex) : Text := re.source.getD re.nativeSource

/-- Whether a regex was written in a dialect. -/
def isOfDialect (re : Regex) : Bool := re.source.isSome

/-- The number of capturing groups. -/
def groupCount (re : Regex) : Nat :=
  match re.names with
  | some names => names.length
  | none => Native.countGroups re.nativeSource

/-- The same regex with the flag `g`. -/
def withGlobal (re : Regex) : Regex :=
  { re with
    global := true
    flags := re.flags.map fun f => orderFlags (keepLastFlags (f ++ ['g'])) }

/-- The fields of a regex that tell it apart, as diagnostics show them. -/
def describe (re : Regex) : Text :=
  let flags := match re.flags with
    | some f => "Some(".toList ++ quote f ++ [')']
    | none => "None".toList
  "Regex ".toList ++ ['{'] ++ " source: ".toList ++ quote re.toText ++ ", flags: ".toList ++ flags
    ++ ", native_source: ".toList ++ quote re.nativeSource ++ [' ', '}']

end Regex

/-! ## 2. Captures -/

/-- One match, with the names of its groups. -/
structure Captures where
  whole : Span
  /-- The groups in order; those that took no part have no span. -/
  groups : List (Option Span)
  names : Option GroupNames
  namespaced : Bool
  deriving DecidableEq

namespace Captures

/-- The whole match and the groups after it. -/
def slots (c : Captures) : List (Option Span) := some c.whole :: c.groups

/-- The span of a group; group 0 is the whole match. -/
def get? (c : Captures) (i : Nat) : Option Span := (c.slots[i]?).join

/-- The text of a group, empty for one that took no part. -/
def textOf (c : Captures) (i : Nat) : Text :=
  match c.get? i with
  | some s => s.text
  | none => []

/-- The number of the group with a name. -/
def indexOf? (c : Captures) (name : Text) : Option Nat :=
  c.names.bind (·.index? name)

/-- The span of the group with a name. -/
def named? (c : Captures) (name : Text) : Option Span :=
  (c.indexOf? name).bind c.get?

/-- The whole matched text. -/
def text (c : Captures) : Text := c.whole.text

/-- The text in which the match was found. -/
def subject (c : Captures) : Text := c.whole.subject

/-- The named groups and their spans, when the regex lists them apart. -/
def listed? (c : Captures) : Option (List (Text × Option Span)) :=
  if c.namespaced then
    c.names.map fun names =>
      names.zipIdx.filterMap fun g => g.1.map fun name => (name, c.get? (g.2 + 1))
  else none

/-- The texts of the groups, as diagnostics show them. -/
def describe (c : Captures) : Text :=
  let show1 (s : Option Span) : Text := match s with
    | some s => "Some(".toList ++ quote s.text ++ [')']
    | none => "None".toList
  ['['] ++ (", ".toList).intercalate (c.slots.map show1) ++ [']']

end Captures

end ExtensibleRegex
