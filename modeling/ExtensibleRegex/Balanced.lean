import ExtensibleRegex.Combine.Union

/-!
# Balanced delimiters

A scan finds left and right delimiters in their order and counts how deep they nest; each return
to depth zero completes an outermost pair. Where a left and a right delimiter start at the same
place the left one counts. An escape character makes the character after it inert: the scan jumps
over runs of text that hold no delimiter, escaped characters included.
-/

namespace ExtensibleRegex

/-! ## 1. What is reported -/

/-- The labels of the reported parts. A part without a label is left out. -/
structure PartLabels where
  /-- Text outside of the outermost pairs. -/
  between : Option Text
  /-- An outermost left delimiter. -/
  left : Option Text
  /-- Text between outermost delimiters. -/
  inner : Option Text
  /-- An outermost right delimiter. -/
  right : Option Text
  deriving DecidableEq, Repr

/-- A reported part. Without labels, every part is the text between outermost delimiters. -/
structure BalancedPart where
  label : Option Text
  span : Span
  deriving DecidableEq

/-- The parts of one outermost pair: `left` and `right` are its delimiters, and `last` is where
the pair before it ended. -/
def pairParts (labels : Option PartLabels) (last : Place) (left right : Span) : List BalancedPart :=
  let part (label : Option Text) (s : Span) : List BalancedPart :=
    if label.isSome then [⟨label, s⟩] else []
  match labels with
  | none => [⟨none, ⟨left.stop, right.start⟩⟩]
  | some ls =>
    (if last.index < left.start.index then part ls.between ⟨last, left.start⟩ else []) ++
      part ls.left left ++ part ls.inner ⟨left.stop, right.start⟩ ++ part ls.right right

/-! ## 2. The scan -/

/-- What a scan is for. -/
structure BalancedSearch where
  left : Regex
  right : Regex
  /-- What the scan may jump over, if there is an escape character. -/
  skipper : Option Regex
  global : Bool
  sticky : Bool
  labels : Option PartLabels

/-- How far a scan has come. -/
structure Scan where
  /-- Where to look for the next delimiter; nowhere once the text has ended. -/
  next : Option Place
  depth : Nat
  /-- The left delimiter of the outermost pair that is open or was open last. -/
  outer : Span
  /-- Where the last outermost pair ended. -/
  last : Place
  /-- The parts so far, latest first. -/
  parts : List BalancedPart

/-- What a round of a scan leads to. -/
inductive ScanOutcome where
  | running (s : Scan)
  | finished (s : Scan)
  | unbalanced

namespace BalancedSearch

/-- Over what the skipper matches at the place. -/
def skip (b : BalancedSearch) (next : Option Place) : Option Place :=
  match next, b.skipper with
  | some p, some skipper =>
    match skipper.searchAt? p true with
    | some c => some c.whole.stop
    | none => some p
  | next, _ => next

/-- The next delimiter from a place on, and whether it is a left one. -/
def nextDelimiter? (b : BalancedSearch) (next : Option Place) : Option (Bool × Span) :=
  match next with
  | none => none
  | some p =>
    match b.left.searchAt? p false, b.right.searchAt? p false with
    | some l, some r =>
      if l.whole.start.index ≤ r.whole.start.index then some (true, l.whole)
      else some (false, r.whole)
    | some l, none => some (true, l.whole)
    | none, some r => some (false, r.whole)
    | none, none => none

/-- One round: the next delimiter is found and counted. -/
def round (b : BalancedSearch) (s : Scan) : ScanOutcome :=
  match b.nextDelimiter? (b.skip s.next) with
  | none => if s.depth = 0 then .finished s else .unbalanced
  | some (isLeft, found) =>
    if b.sticky && s.depth == 0 && s.last.index < found.start.index then .finished s
    else if isLeft then
      .running { s with
        next := found.resume?
        depth := s.depth + 1
        outer := if s.depth = 0 then found else s.outer }
    else
      match s.depth with
      | 0 => .unbalanced
      | 1 =>
        let s := { s with
          next := found.resume?
          depth := 0
          last := found.stop
          parts := (pairParts b.labels s.last s.outer found).reverse ++ s.parts }
        if b.global then .running s else .finished s
      | depth + 2 => .running { s with next := found.resume?, depth := depth + 1 }

/-- Up to `limit` rounds. -/
def rounds (b : BalancedSearch) : (limit : Nat) → Scan → ScanOutcome
  | 0, s => .finished s
  | limit + 1, s =>
    match b.round s with
    | .running s' => rounds b limit s'
    | outcome => outcome

/-- The text after the last outermost pair, if it is to be reported. -/
def trailingParts (b : BalancedSearch) (text : Text) (s : Scan) : List BalancedPart :=
  match b.labels.bind PartLabels.between with
  | some label =>
    if b.global && !b.sticky && !s.parts.isEmpty && !s.last.atEnd then
      [⟨some label, ⟨s.last, (Place.first text).advance text.length⟩⟩]
    else []
  | none => []

/-- The parts of a text. Every round but the last one takes the scan further, so there are at most
two more rounds than characters. -/
def run (b : BalancedSearch) (text : Text) : Except Error (List BalancedPart) :=
  let start := Place.first text
  match b.rounds (text.length + 2) ⟨some start, 0, ⟨start, start⟩, start, []⟩ with
  | .finished s => .ok (s.parts.reverse ++ b.trailingParts text s)
  | .running s => .ok (s.parts.reverse ++ b.trailingParts text s)
  | .unbalanced => .error .unbalanced

end BalancedSearch

namespace Context

/-! ## 3. Setting up a scan -/

/-- The regex that matches text without delimiters, and escaped characters. -/
def inertRuns (escapeChar : Char) (left right : Regex) (flags : Text) : ContextM Regex := do
  let esc := escape [escapeChar]
  let delimiters ← union [.regex left, .regex right] [] .or
  let source := "(?:".toList ++ esc ++ "[\\S\\s]|(?:(?!".toList ++ delimiters.nativeSource ++
    ")[^".toList ++ esc ++ "])+)+".toList
  Regex.native source (flags.filter fun c => c == 'i' || c == 'm' || c == 'u')

/-- Finds the text between balanced delimiters, which are patterns with the given flags. Flag `g`
wants every outermost pair instead of the first one; flag `y` wants the pairs to follow each other
with nothing in between. -/
def balanced (text left right flags : Text) (escapeChar : Option Char)
    (labels : Option PartLabels) : ContextM (List BalancedPart) := do
  let basic := flags.filter (· != 'y')
  let left ← regex left basic
  let right ← regex right basic
  let skipper ← match escapeChar with
    | some c => some <$> inertRuns c left right flags
    | none => pure none
  BalancedSearch.run ⟨left, right, skipper, flags.contains 'g', flags.contains 'y', labels⟩ text

end Context

end ExtensibleRegex
