import ExtensibleRegex.Edit.Chain
import ExtensibleRegex.Edit.Replace
import ExtensibleRegex.Edit.Split
import ExtensibleRegex.Regex.Held

/-!
# Matching with regexes in use

Everything that can be asked of a regex in use, as one type of tasks with one type of replies:

* `RegexTask.answer` is what a regex answers with some cursor, and the cursor afterwards;
* `RegexTask.perform` is how a regex in use finds that answer, copying itself where it has to.

Several regexes in use stand under an index each. A request asks one of them or chains some.
-/

namespace ExtensibleRegex

namespace Held

/-! ## 1. Editing -/

variable {σ : Type}

/-- Copies the text from a place on, with matches exchanged for their replacements, searching for one
match after another. A replacement that fails ends the search. -/
def replaceFrom (replacement : Replacement σ) :
    (left : Text) → (state : σ) → (last p : Place) → HeldM (Except Error Text × σ)
  | left, state, last, p => do
    match ← searchAt? p (← get).regex.sticky with
    | none => return (.ok last.ahead, state)
    | some c =>
      match (replacement c).run.run state with
      | (.error e, state) => return (.error e, state)
      | (.ok middle, state) =>
        let copied := (Span.mk last c.whole.start).text ++ middle
        match c.whole.resume? with
        | none => return (.ok (copied ++ c.whole.stop.ahead), state)
        | some q =>
          match left with
          | [] => return (.ok (copied ++ c.whole.stop.ahead), state)
          | _ :: left =>
            let (rest, state) ← replaceFrom replacement left state c.whole.stop q
            return (rest.map (copied ++ ·), state)

/-- A text with the first match exchanged for its replacement. -/
def replaceFirst (replacement : Replacement σ) (text : Text) (state : σ) :
    HeldM (Except Error Text × σ) := do
  match ← searchAt? (.first text) (← get).regex.sticky with
  | none => return (.ok text, state)
  | some c =>
    let (middle, state) := (replacement c).run.run state
    return (middle.map fun middle =>
      (Span.mk (.first text) c.whole.start).text ++ middle ++ c.whole.stop.ahead, state)

/-- A text with all matches or the first one exchanged for their replacements. -/
def spliced (replacement : Replacement σ) (text : Text) (state : σ) (all : Bool) :
    HeldM (Except Error Text × σ) :=
  if all then replaceFrom replacement text state (.first text) (.first text)
  else replaceFirst replacement text state

/-- Replaces matches of a regex, and answers the state of the replacement beside the text. If that
succeeds, a global regex has its cursor set back to the start. -/
def replace (text : Text) (replacement : Replacement σ) (state : σ) (extent : Option ReplaceExtent) :
    HeldM (Except Error Text × σ) := do
  let answer ← spliced replacement text state (takesAll (← get).regex.global extent)
  if answer.1.isOk then setGlobalCursor 0
  return answer

/-- The pieces of a text around the matches of a separator. -/
def pieces (text : Text) : HeldM (List Text) := do
  let s := (← allMatches text).foldl SplitState.step ⟨.first text, false, []⟩
  if s.cut.atEnd then
    let final := if (← find? []).isNone || s.wideCut then [] :: s.pieces else s.pieces
    return final.reverse
  else return (s.cut.ahead :: s.pieces).reverse

/-- The first pieces of a text around the matches of a separator. -/
def split (text : Text) (limit : Option Nat) : HeldM (List Text) :=
  return limitPieces limit (← pieces text)

end Held

/-! ## 2. Tasks for one regex -/

/-- What can be asked of a regex in use. -/
inductive RegexTask where
  | setCursor (offset : Nat)
  /-- Search once from the cursor. -/
  | exec (text : Text)
  /-- Search once from the cursor, and tell only whether there is a match. -/
  | execTest (text : Text)
  | search (text : Text) (offset : Nat) (sticky : Option Bool)
  | searchTest (text : Text) (offset : Nat) (sticky : Option Bool)
  | isMatch (text : Text)
  /-- The span of the first match. -/
  | findSpan (text : Text)
  | find (text : Text)
  | allMatches (text : Text)
  | firstMatchText (text : Text)
  | allMatchTexts (text : Text)
  | visitAll (text : Text)
  /-- Replace matches, beginning with a state of the replacement. -/
  | replace {σ : Type} (text : Text) (replacement : Replacement σ) (state : σ)
    (extent : Option ReplaceExtent)
  | split (text : Text) (limit : Option Nat)

/-- What is answered. -/
inductive Reply where
  | nothing
  | captures (found : Option Captures)
  | verdict (yes : Bool)
  | span (found : Option Span)
  | allCaptures (found : List Captures)
  | text? (found : Option Text)
  | texts (found : List Text)
  | replaced (result : Except Error Text)
  | chained (result : Except Error (List Text))

namespace RegexTask

/-- Whether a task is to start at the cursor. -/
def readsCursor : RegexTask → Bool
  | exec _ => true
  | execTest _ => true
  | _ => false

/-- What a regex answers with some cursor, and the cursor afterwards. -/
def answer (re : Regex) (cursor : Nat) : RegexTask → Reply × Nat
  | setCursor offset => (.nothing, offset)
  | exec t => (re.exec t cursor).map .captures id
  | execTest t => (re.exec t cursor).map (.verdict ·.isSome) id
  | search t offset sticky => (re.search t offset sticky cursor).map .captures id
  | searchTest t offset sticky => (re.search t offset sticky cursor).map (.verdict ·.isSome) id
  | isMatch t => (.verdict (re.isMatch t), cursor)
  | findSpan t => (.span ((re.find? t).map Captures.whole), cursor)
  | find t => (.captures (re.find? t), cursor)
  | allMatches t => (.allCaptures (re.allMatches t), cursor)
  | firstMatchText t => (re.firstMatchText t cursor).map .text? id
  | allMatchTexts t => (re.allMatchTexts t cursor).map .texts id
  | visitAll t => (re.visitAll t cursor).map .allCaptures id
  | replace t replacement state extent =>
    (re.replace t replacement state extent cursor).map (.replaced ·.1) id
  | split t limit => (.texts (re.split t limit), cursor)

/-- What a regex in use answers. -/
def perform : RegexTask → HeldM Reply
  | setCursor offset => do
    Held.setCursor offset
    return .nothing
  | exec t => return .captures (← Held.exec t)
  | execTest t => return .verdict (← Held.exec t).isSome
  | search t offset sticky => return .captures (← Held.search t offset sticky)
  | searchTest t offset sticky => return .verdict (← Held.search t offset sticky).isSome
  | isMatch t => return .verdict (← Held.find? t).isSome
  | findSpan t => return .span ((← Held.find? t).map Captures.whole)
  | find t => return .captures (← Held.find? t)
  | allMatches t => return .allCaptures (← Held.allMatches t)
  | firstMatchText t => return .text? ((← Held.firstMatch? t).map Captures.text)
  | allMatchTexts t => return .texts ((← Held.visitAll t).map Captures.text)
  | visitAll t => return .allCaptures (← Held.visitAll t)
  | replace t replacement state extent =>
    return .replaced (← Held.replace t replacement state extent).1
  | split t limit => return .texts (← Held.split t limit)

end RegexTask

/-! ## 3. Requests to several regexes -/

variable {ι : Type} [DecidableEq ι]

/-- Does a task with the regex at an index. -/
def Held.at {α : Type} (i : ι) (task : HeldM α) : StateM (ι → Held) α := fun held =>
  let (a, h) := task (held i)
  (a, fun j => if j = i then h else held j)

/-- The values that a link of a chain makes of several, in order. -/
def Held.linkValues (i : ι) (choice : Option GroupChoice) :
    List Text → StateM (ι → Held) (Except Error (List Text))
  | [] => return .ok []
  | value :: values => do
    match (← Held.at i (Held.visitAll value)).mapM (selectGroup choice) with
    | .error e => return .error e
    | .ok made =>
      let rest ← linkValues i choice values
      return rest.map (made ++ ·)

/-- Runs the links of a chain on some values. -/
def Held.runLinks : List (ι × Option GroupChoice) → List Text →
    StateM (ι → Held) (Except Error (List Text))
  | [], values => return .ok values
  | (i, choice) :: links, values => do
    match ← Held.linkValues i choice values with
    | .ok (v :: vs) => runLinks links (v :: vs)
    | ended => return ended

/-- What can be asked of several regexes in use. -/
inductive Request (ι : Type) where
  | ask (i : ι) (task : RegexTask)
  | chain (links : List (ι × Option GroupChoice)) (text : Text)

namespace Request

/-- What regexes with cursors answer, and the cursors afterwards. -/
def answer (regexes : ι → Regex) (cursors : ι → Nat) : Request ι → Reply × (ι → Nat)
  | ask i task =>
    let (reply, cursor) := task.answer (regexes i) (cursors i)
    (reply, fun j => if j = i then cursor else cursors j)
  | chain links text =>
    let (result, ran) := runChain (links.map fun l => ⟨regexes l.1, l.2⟩) text
    (.chained result, fun i =>
      if (regexes i).global = true ∧ i ∈ (links.take ran).map Prod.fst then 0 else cursors i)

/-- What regexes in use answer. -/
def perform : Request ι → StateM (ι → Held) Reply
  | ask i task => Held.at i task.perform
  | chain [] _ => return .chained (.error .emptyChain)
  | chain links text => return .chained (← Held.runLinks links [text])

/-- What regexes in use answer to one request after another. -/
def performAll : List (Request ι) → StateM (ι → Held) (List Reply)
  | [] => return []
  | r :: rs => return (← r.perform) :: (← performAll rs)

end Request

end ExtensibleRegex
