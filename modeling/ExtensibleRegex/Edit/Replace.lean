import ExtensibleRegex.Edit.Template
import ExtensibleRegex.Escape
import ExtensibleRegex.Regex.Search

/-!
# Replacing

A replacement exchanges matches of a regex, or of a text taken literally, and copies everything
between them. Which matches: all of them or the first, as the extent says, and without one all
of them for a global regex only.
-/

namespace ExtensibleRegex

/-! ## 1. What to look for and what to put in -/

/-- What to look for: a regex, or a text taken literally. -/
inductive Needle where
  | literal (text : Text)
  | regex (re : Regex)

/-- Which matches to replace. -/
inductive ReplaceExtent where
  | one
  | all
  deriving DecidableEq, Repr

/-- Whether all matches are to be replaced: if nothing else is said, those of a global regex. -/
def takesAll (global : Bool) : Option ReplaceExtent → Bool
  | some extent => extent == .all
  | none => global

/-- Makes the text for a match, or fails. A replacement may keep a state from one match to the next,
such as how often it has been asked. -/
abbrev Replacement (σ : Type) := Captures → ExceptT Error (StateM σ) Text

variable {σ : Type}

/-- The replacement that a template describes. It keeps nothing. -/
def Replacement.template (t : Text) : Replacement σ := fun c => liftM (Template.expand t c)

/-! ## 2. Splicing -/

/-- Copies the text from a place on, with matches exchanged for their replacements. -/
def spliceFrom (replacement : Replacement σ) : Place → List Captures → ExceptT Error (StateM σ) Text
  | last, [] => return last.ahead
  | last, c :: cs => do
    let middle ← replacement c
    let rest ← spliceFrom replacement c.whole.stop cs
    return (Span.mk last c.whole.start).text ++ middle ++ rest

/-- A text with the given matches of it exchanged for their replacements. -/
def splice (replacement : Replacement σ) (text : Text) (found : List Captures) :
    ExceptT Error (StateM σ) Text :=
  spliceFrom replacement (.first text) found

namespace Regex

/-- The matches of a text that an extent takes. -/
def matchesIn (re : Regex) (text : Text) (all : Bool) : List Captures :=
  if all then re.allMatches text else (re.searchAt? (.first text) re.sticky).toList

/-- Replaces matches of a regex, and answers the state of the replacement beside the text. If that
succeeds, a global regex has its cursor set back to the start; a replacement that fails leaves the
cursor alone. -/
def replace (re : Regex) (text : Text) (replacement : Replacement σ) (state : σ)
    (extent : Option ReplaceExtent) (cursor : Nat) : (Except Error Text × σ) × Nat :=
  let answer := (splice replacement text (re.matchesIn text (takesAll re.global extent))).run.run state
  (answer, if answer.1.isOk && re.global then 0 else cursor)

end Regex

/-- The regex that looks for a text literally. -/
def literalRegex (text : Text) : Except Error Regex := Regex.native (escape text) []

/-- Replaces occurrences of a text: the first one, unless the extent says all. -/
def replaceLiteral (needle text : Text) (replacement : Replacement σ)
    (extent : Option ReplaceExtent) : ExceptT Error (StateM σ) Text := do
  let re ← literalRegex needle
  splice replacement text (re.matchesIn text (extent == some .all))

/-! ## 3. Replacing in several steps -/

/-- One replacement of a series. -/
structure Substitution (σ : Type) where
  needle : Needle
  replacement : Replacement σ
  /-- The state that the replacement begins with. -/
  state : σ
  extent : Option ReplaceExtent

/-- Applies replacements in order, each to the text that the one before it made, and tells how
many of them succeeded. -/
def replaceInTurn : List (Substitution σ) → Text → Except Error Text × Nat
  | [], text => (.ok text, 0)
  | s :: ss, text =>
    let (result, _) := match s.needle with
      | .literal needle => (replaceLiteral needle text s.replacement s.extent).run.run s.state
      | .regex re => (re.replace text s.replacement s.state s.extent 0).1
    match result with
    | .ok text =>
      let (result, done) := replaceInTurn ss text
      (result, done + 1)
    | .error e => (.error e, 0)

end ExtensibleRegex
