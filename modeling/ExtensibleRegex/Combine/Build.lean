import ExtensibleRegex.Combine.Union

/-!
# Building from named subpatterns

An outer pattern refers to subpatterns by name: a name in double braces stands for the subpattern
in a group that does not capture, and in parentheses of its own for the subpattern in a group that
does. Each pattern is expanded by itself first, so each has to be well-formed alone; then groups
get their names back and references are moved to the numbers that their groups end up with.
-/

namespace ExtensibleRegex

/-! ## 1. Subpatterns -/

/-- What a name stands for. -/
inductive Subpattern where
  | pattern (t : Text)
  | literal (t : Text)
  | regex (re : Regex)

/-- An expanded subpattern with the names of its groups. -/
structure Part where
  pattern : Text
  names : GroupNames
  deriving DecidableEq, Repr

/-- Drops the empty groups that a text begins with. The length of the text bounds their number. -/
def dropEmptyGroups : (left : Nat) → Text → Text
  | 0, t => t
  | left + 1, t =>
    match after? emptyGroup t with
    | some rest => dropEmptyGroups left rest
    | none => t

/-- Drops the empty groups that a text ends in, when the text is given backwards. -/
def dropEmptyGroupsReversed : (left : Nat) → Text → Text
  | 0, t => t
  | left + 1, t =>
    match after? emptyGroup.reverse t with
    | some rest => dropEmptyGroupsReversed left rest
    | none => t

/-- A pattern without the anchors that it begins and ends with, and without the empty groups
before the one and after the other. A dollar that is escaped is no anchor. A pattern that lacks
one of the anchors stays as it is. -/
def stripAnchors (pattern : Text) : Text :=
  match dropEmptyGroups pattern.length pattern with
  | '^' :: body =>
    match dropEmptyGroupsReversed body.length body.reverse with
    | '$' :: inner =>
      if (inner.takeWhile (· == '\\')).length % 2 = 1 then pattern else inner.reverse
    | _ => pattern
  | _ => pattern

/-! ## 2. Putting together -/

/-- How far the outer pattern has been written: how many groups the result has, and what each
group of the outer pattern has become, the last one first. -/
structure Assembly where
  groups : Nat
  outer : List Nat
  output : List Text
  deriving DecidableEq, Repr

namespace Assembly

/-- Nothing written yet. -/
def initial : Assembly := ⟨0, [], []⟩

/-- Writes a text. -/
def write (a : Assembly) (t : Text) : Assembly := { a with output := t :: a.output }

/-- Opens a group of the outer pattern. -/
def openOuter (a : Assembly) (name : Option Text) : Assembly :=
  { groups := a.groups + 1, outer := (a.groups + 1) :: a.outer,
    output := openCapture name :: a.output }

/-- What has become of a group of the outer pattern. -/
def target (a : Assembly) (n : Nat) : Nat :=
  match n with
  | 0 => 0
  | k + 1 => (a.outer.reverse[k]?).getD n

/-- Writes a piece of a part whose groups follow `prior` others. -/
def writeInner (names : GroupNames) (prior : Nat) (a : Assembly) : Piece → Assembly
  | .capture =>
    { a.write (openCapture (names[a.groups - prior]?).join) with groups := a.groups + 1 }
  | .backref n =>
    match (names[n - 1]?).join with
    | some name => a.write (nameReference name)
    | none => a.write (numberReference (n + prior))
  | .subpattern _ _ => a
  | .verbatim t => a.write t

/-- Writes a part, up to the parenthesis that closes it. -/
def writePart (a : Assembly) (part : Part) : Assembly :=
  ((pieces part.pattern false).foldl (writeInner part.names a.groups) a).write [')']

/-- Writes a piece of the outer pattern. -/
def writeOuter (parts : List (Text × Part)) (names : GroupNames) (a : Assembly) :
    Piece → Except Error Assembly
  | .subpattern name capturing =>
    match parts.lookup name with
    | none => .error (.undefinedSubpattern name)
    | some part =>
      if capturing then
        let label := ((names[a.outer.length]?).join).getD name
        .ok ((a.openOuter (some label)).writePart part)
      else .ok ((a.write ['(', '?', ':']).writePart part)
  | .capture => .ok (a.openOuter (names[a.outer.length]?).join)
  | .backref n =>
    match (names[n - 1]?).join with
    | some name => .ok (a.write (nameReference name))
    | none => .ok (a.write (numberReference (a.target n)))
  | .verbatim t => .ok (a.write t)

/-- Everything written. -/
def toText (a : Assembly) : Text := a.output.reverse.flatten

end Assembly

/-- The text of an outer pattern with its subpatterns put in. -/
def assemble (outer : Part) (parts : List (Text × Part)) : Except Error Text := do
  let a ← (pieces outer.pattern true).foldlM (Assembly.writeOuter parts outer.names) .initial
  return a.toText

namespace Context

/-! ## 3. Building -/

/-- An expanded pattern as a part. -/
def expandedPart (pattern flags : Text) : ContextM Part := do
  let t ← expand pattern flags
  return ⟨t.pattern, t.names.getD []⟩

/-- A subpattern as a part. -/
def subpart (flags : Text) : Subpattern → ContextM Part
  | .literal t => return ⟨escape t, []⟩
  | .pattern t => expandedPart t flags
  | .regex re =>
    match re.names with
    | some names => return ⟨re.nativeSource, names⟩
    | none => expandedPart re.nativeSource flags

/-- The subpatterns as parts, without their anchors. The last one of a name counts. -/
def subparts (flags : Text) : List (Text × Subpattern) → ContextM (List (Text × Part))
  | subs => do
    let parts ← subs.mapM fun s => do
      let part ← subpart flags s.2
      return (s.1, { part with pattern := stripAnchors part.pattern })
    return parts.reverse

/-- Builds a regex from an outer pattern and named subpatterns. Of the flags, `x` also holds for
the subpatterns; a mode modifier of the outer pattern holds for the whole result. -/
def build (pattern : Text) (subs : List (Text × Subpattern)) (flags : Text) : ContextM Regex := do
  let partFlags := if flags.contains 'x' then ['x'] else []
  let allFlags := match modeModifier? pattern with
    | some (modifier, _) => keepLastFlags (flags ++ modifier)
    | none => flags
  let parts ← subparts partFlags subs
  let outer ← expandedPart pattern partFlags
  regex (← assemble outer parts) allFlags

end Context

end ExtensibleRegex
