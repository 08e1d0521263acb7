import ExtensibleRegex.Regex.Search

/-!
# Splitting

A text is split around the matches of a separator. A match cuts when it ends after the last cut;
the groups of a separator are put between the pieces. The piece after the last cut is dropped when
the text has ended and the separator, empty there, also matches the empty text.
-/

namespace ExtensibleRegex

/-! ## 1. Separators taken literally -/

/-- The first `limit` pieces, or all of them without a limit. -/
def limitPieces (limit : Option Nat) (pieces : List Text) : List Text :=
  match limit with
  | some n => pieces.take n
  | none => pieces

/-- Splits at the occurrences of a separator that is not empty, from the left and without overlap.
`skip` characters belong to the occurrence found last, and `piece` holds what was read since,
latest first. -/
def splitLiteralFrom (separator : Text) : (skip : Nat) → (piece : Text) → Text → List Text
  | _, piece, [] => [piece.reverse]
  | skip + 1, piece, _ :: rest => splitLiteralFrom separator skip piece rest
  | 0, piece, c :: rest =>
    if separator.isPrefixOf (c :: rest) then
      piece.reverse :: splitLiteralFrom separator (separator.length - 1) [] rest
    else splitLiteralFrom separator 0 (c :: piece) rest

/-- Splits a text at a separator taken literally. The empty separator cuts between all
characters. -/
def splitLiteral (separator text : Text) : List Text :=
  if separator = [] then text.map ([·]) else splitLiteralFrom separator 0 [] text

/-- The first pieces of a text that is split at a separator taken literally. -/
def splitAtText (separator text : Text) (limit : Option Nat) : List Text :=
  limitPieces limit (splitLiteral separator text)

/-! ## 2. Separators given by a regex -/

/-- How far a split has come: the last cut, whether the separator there was empty, and the pieces
so far, latest first. -/
structure SplitState where
  cut : Place
  wideCut : Bool
  pieces : List Text

/-- Takes one match into account. -/
def SplitState.step (s : SplitState) (c : Captures) : SplitState :=
  if s.cut.index < c.whole.stop.index then
    let piece := (Span.mk s.cut c.whole.start).text
    let groups := if c.whole.start.atEnd then []
      else c.groups.map fun g => (g.map Span.text).getD []
    ⟨c.whole.stop, !c.whole.isEmpty, groups.reverse ++ piece :: s.pieces⟩
  else s

namespace Regex

/-- The pieces of a text around the matches of a separator. -/
def pieces (re : Regex) (text : Text) : List Text :=
  let s := (re.allMatches text).foldl SplitState.step ⟨.first text, false, []⟩
  let final :=
    if s.cut.atEnd then
      if (re.find? []).isNone || s.wideCut then [] :: s.pieces else s.pieces
    else s.cut.ahead :: s.pieces
  final.reverse

/-- The first pieces of a text around the matches of a separator. -/
def split (re : Regex) (text : Text) (limit : Option Nat) : List Text :=
  limitPieces limit (re.pieces text)

end Regex

end ExtensibleRegex
