import ExtensibleRegex.Regex.Basic

/-!
# Searching with a regex

A search starts at a place of the text and is sticky or not: a sticky one wants its match right at
that place. `allMatches` walks a text from its start and collects one match after another, going one
character further after an empty one.

Some operations follow a cursor, a byte offset that belongs to the caller. They take the cursor
and answer the new one beside their result; all other operations do not see it.
-/

namespace ExtensibleRegex

namespace Regex

/-! ## 1. One search -/

/-- A match of the engine with the names of the regex. -/
def captures (re : Regex) (f : Native.Found) : Captures :=
  ⟨f.whole, f.groups, re.names, re.namespaced⟩

/-- The match from a place on or, when sticky, at exactly that place. -/
def searchAt? (re : Regex) (p : Place) (sticky : Bool) : Option Captures :=
  (if sticky then re.engine.searchAt? p else re.engine.search? p).map re.captures

/-- The match from a byte offset on. An offset inside a character counts as the next boundary,
and past the end of the text there is no match. -/
def searchFrom? (re : Regex) (text : Text) (offset : Nat) (sticky : Bool) : Option Captures :=
  match Place.atOffset? text offset with
  | some p => re.searchAt? p sticky
  | none => none

/-- The first match in a text, wherever it is. -/
def find? (re : Regex) (text : Text) : Option Captures := re.searchAt? (.first text) false

/-- Whether a text holds a match. -/
def isMatch (re : Regex) (text : Text) : Bool := (re.find? text).isSome

/-! ## 2. All matches -/

/-- The matches from a place on. The text ahead of the place bounds their number. -/
def matchesFrom (re : Regex) : (left : Text) → Place → List Captures
  | left, p =>
    match re.searchAt? p re.sticky with
    | none => []
    | some c =>
      match c.whole.resume? with
      | none => [c]
      | some q =>
        match left with
        | [] => [c]
        | _ :: left => c :: matchesFrom re left q

/-- All matches of a text, from its start. The flag `y` wants each to start where the scan goes
on after the one before. -/
def allMatches (re : Regex) (text : Text) : List Captures := re.matchesFrom text (.first text)

/-! ## 3. Operations with a cursor -/

/-- The cursor after a search: the end of the match, and the start of the text if there is none. -/
def cursorAfter : Option Captures → Nat
  | some c => c.whole.stop.offset
  | none => 0

/-- Searches from a byte offset. The cursor is not read; a global regex sets it. -/
def search (re : Regex) (text : Text) (offset : Nat) (sticky : Option Bool) (cursor : Nat) :
    Option Captures × Nat :=
  let found := re.searchFrom? text offset (sticky.getD re.sticky)
  (found, if re.global then cursorAfter found else cursor)

/-- Searches once. A global or sticky regex starts at the cursor and sets it. -/
def exec (re : Regex) (text : Text) (cursor : Nat) : Option Captures × Nat :=
  if re.global || re.sticky then
    let found := re.searchFrom? text cursor re.sticky
    (found, cursorAfter found)
  else (re.searchFrom? text 0 false, cursor)

/-- The text of the first match. A global regex sets the cursor. -/
def firstMatchText (re : Regex) (text : Text) (cursor : Nat) : Option Text × Nat :=
  let found := re.searchAt? (.first text) re.sticky
  (found.map Captures.text, if re.global then cursorAfter found else cursor)

/-- All matches, after which a global regex has its cursor at the start. -/
def visitAll (re : Regex) (text : Text) (cursor : Nat) : List Captures × Nat :=
  (re.allMatches text, if re.global then 0 else cursor)

/-- The texts of all matches. A global regex has its cursor set back to the start. -/
def allMatchTexts (re : Regex) (text : Text) (cursor : Nat) : List Text × Nat :=
  let (found, cursor) := re.visitAll text cursor
  (found.map Captures.text, cursor)

end Regex

end ExtensibleRegex
