import ExtensibleRegex.Regex.Search

/-!
# Regexes in use

A regex in use has a cursor. It also keeps the copies of itself that its searches run, each made when
it is needed first: a plain one for searches from a place on, and one with an empty group as a
last alternative for searches at exactly a place. Copies are regexes in use as well, with flags
and a cursor of their own.

The operations of `Regex.Search` are given here once more as tasks that change a regex in use. What they
answer is the same, whatever has been copied before.
-/

namespace ExtensibleRegex

/-- A regex with its cursor. -/
structure Live where
  regex : Regex
  cursor : Nat

namespace Regex

/-! ## 1. Copies -/

/-- The copy for searches from a place on: it is global, not sticky, and does not know how it was
written. -/
def plainCopy (re : Regex) : Regex :=
  { re with global := true, sticky := false, source := none, flags := none }

/-- The copy for searches at exactly a place, unless the pattern has as many groups as there may be. -/
def anchoredCopy? (re : Regex) : Option Regex :=
  (Native.Engine.ofSource (Native.withEmptyGroup re.nativeSource) re.engine.mode).toOption.map
    fun engine => { re.plainCopy with engine }

end Regex

/-- A regex in use: its cursor, and the copies made so far. -/
structure Held extends Live where
  plain : Option Live
  /-- What became of the copy for searches at exactly a place. -/
  anchored : Option (Option Live)
  plain_eq : ∀ copy ∈ plain, copy.regex = regex.plainCopy
  anchored_eq : ∀ copy ∈ anchored, copy.map Live.regex = regex.anchoredCopy?

/-- A task for a regex in use. -/
abbrev HeldM (α : Type) := StateM Held α

namespace Held

/-- A regex that has just been made. -/
def create (re : Regex) : Held := ⟨⟨re, 0⟩, none, none, by simp, by simp⟩

/-- The copy for searches from a place on, made now if there is none yet. -/
def plainCopy : HeldM Live := fun h =>
  match h.plain with
  | some copy => (copy, h)
  | none =>
    let copy : Live := ⟨h.regex.plainCopy, 0⟩
    (copy, { h with plain := some copy, plain_eq := fun _ hcopy => by cases hcopy; rfl })

/-- The copy for searches at exactly a place, made now if that has not been tried yet. -/
def anchoredCopy? : HeldM (Option Live) := fun h =>
  match h.anchored with
  | some copy => (copy, h)
  | none =>
    let copy := h.regex.anchoredCopy?.map fun re => (⟨re, 0⟩ : Live)
    (copy, { h with
      anchored := some copy
      anchored_eq := fun _ hcopy => by cases hcopy; simp [copy, Function.comp_def] })

def setCursor (cursor : Nat) : HeldM Unit := modify fun h => { h with cursor }

/-- Sets the cursor of a global regex. -/
def setGlobalCursor (cursor : Nat) : HeldM Unit := do
  if (← get).regex.global then setCursor cursor

/-! ## 2. One search -/

/-- The match from a place on or, when sticky, at exactly that place. Only the copies are run. -/
def searchAt? (p : Place) (sticky : Bool) : HeldM (Option Captures) := do
  let re := (← get).regex
  if sticky then
    match ← anchoredCopy? with
    | some copy =>
      match copy.regex.engine.search? p with
      | some f =>
        -- the empty group takes part only if the pattern has no match at the place
        match f.groups.getLast? with
        | some none => return some (re.captures { f with groups := f.groups.dropLast })
        | _ => return none
      | none => return none
    | none =>
      match (← plainCopy).regex.engine.search? p with
      | some f => return if f.whole.start.index = p.index then some (re.captures f) else none
      | none => return none
  else
    return ((← plainCopy).regex.engine.search? p).map re.captures

/-- The match from a byte offset on. -/
def searchFrom? (text : Text) (offset : Nat) (sticky : Bool) : HeldM (Option Captures) :=
  match Place.atOffset? text offset with
  | some p => searchAt? p sticky
  | none => return none

/-- Searches from a byte offset. The cursor is not read; a global regex sets it. -/
def search (text : Text) (offset : Nat) (sticky : Option Bool) : HeldM (Option Captures) := do
  let found ← searchFrom? text offset (sticky.getD (← get).regex.sticky)
  setGlobalCursor (Regex.cursorAfter found)
  return found

/-- Searches once. A global or sticky regex starts at the cursor and sets it. -/
def exec (text : Text) : HeldM (Option Captures) := do
  let h ← get
  if h.regex.global || h.regex.sticky then
    let found ← searchFrom? text h.cursor h.regex.sticky
    setCursor (Regex.cursorAfter found)
    return found
  else searchFrom? text 0 false

/-- The first match in a text, wherever it is. -/
def find? (text : Text) : HeldM (Option Captures) := searchAt? (.first text) false

/-- The first match, from the start of a text. A global regex sets the cursor. -/
def firstMatch? (text : Text) : HeldM (Option Captures) := do
  let found ← searchAt? (.first text) (← get).regex.sticky
  setGlobalCursor (Regex.cursorAfter found)
  return found

/-! ## 3. All matches -/

/-- The matches from a place on. The text ahead of the place bounds their number. -/
def matchesFrom : (left : Text) → Place → HeldM (List Captures)
  | left, p => do
    match ← searchAt? p (← get).regex.sticky with
    | none => return []
    | some c =>
      match c.whole.resume? with
      | none => return [c]
      | some q =>
        match left with
        | [] => return [c]
        | _ :: left => return c :: (← matchesFrom left q)

/-- All matches of a text, from its start. -/
def allMatches (text : Text) : HeldM (List Captures) := matchesFrom text (.first text)

/-- All matches, after which a global regex has its cursor at the start. -/
def visitAll (text : Text) : HeldM (List Captures) := do
  let found ← allMatches text
  setGlobalCursor 0
  return found

end Held

end ExtensibleRegex
