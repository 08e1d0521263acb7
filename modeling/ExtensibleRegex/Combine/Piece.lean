import ExtensibleRegex.Text.Ascii

/-!
# Pieces of native patterns

To put native patterns together, their capturing groups and their references have to be seen:
everything else is copied. `pieces` cuts a pattern into such pieces, and `renderPieces` writes them
out again. A pattern in which names stand for other patterns also has pieces for these.
-/

namespace ExtensibleRegex

/-- The pieces of a pattern. -/
inductive Piece where
  /-- The parenthesis of a capturing group. -/
  | capture
  /-- A reference to a group by number. -/
  | backref (n : Nat)
  /-- A name in double braces, which stands in a group of its own when `capturing`. -/
  | subpattern (name : Text) (capturing : Bool)
  /-- Anything else. -/
  | verbatim (t : Text)
  deriving DecidableEq, Repr

/-- A name between an opening and a closing mark at the start of a text, and how many characters
they take together. -/
def markedName? (opening closing t : Text) : Option (Text × Nat) :=
  match after? opening t with
  | none => none
  | some body =>
    let name := body.takeWhile isNameChar
    if name ≠ [] ∧ closing.isPrefixOf (body.drop name.length) then
      some (name, opening.length + name.length + closing.length)
    else none

/-- A subpattern at the start of a text, and how many characters it takes. -/
def subpatternAt? (t : Text) : Option (Piece × Nat) :=
  match markedName? ['(', '{', '{'] ['}', '}', ')'] t with
  | some (name, n) => some (.subpattern name true, n)
  | none =>
    match markedName? ['{', '{'] ['}', '}'] t with
    | some (name, n) => some (.subpattern name false, n)
    | none => none

/-- The number of characters up to the bracket that closes a class, after its opening bracket. -/
def classLengthFrom : (taken : Nat) → Text → Option Nat
  | _, [] => none
  | taken, c :: rest =>
    if c = ']' then some (taken + 1)
    else if c = '\\' then
      match rest with
      | [] => none
      | _ :: rest => classLengthFrom (taken + 2) rest
    else classLengthFrom (taken + 1) rest

/-- The piece that begins with `c`, and how many characters of the text `cs` after it belong to
it. -/
def pieceAt (subpatterns : Bool) (c : Char) (cs : Text) : Piece × Nat :=
  match if subpatterns then subpatternAt? (c :: cs) else none with
  | some (piece, n) => (piece, n - 1)
  | none =>
    if c = '(' && cs.head? != some '?' then (.capture, 0)
    else if c = '\\' then
      let digits := cs.takeWhile Char.isDigit
      if digits ≠ [] ∧ digits.head? ≠ some '0' then
        (.backref (readDigits 10 digits), digits.length)
      else (.verbatim (c :: cs.take 1), (cs.take 1).length)
    else if c = '[' then
      match classLengthFrom 0 cs with
      | some n => (.verbatim (c :: cs.take n), n)
      | none => (.verbatim [c], 0)
    else (.verbatim [c], 0)

/-- The pieces of a text, after those already `read`, latest first. `skip` characters belong to
the piece read last. -/
def piecesFrom (subpatterns : Bool) : (skip : Nat) → (read : List Piece) → Text → List Piece
  | _, read, [] => read.reverse
  | skip + 1, read, _ :: cs => piecesFrom subpatterns skip read cs
  | 0, read, c :: cs =>
    let (piece, n) := pieceAt subpatterns c cs
    piecesFrom subpatterns n (piece :: read) cs

/-- The pieces of a pattern. Names in double braces are seen only with `subpatterns`. -/
def pieces (pattern : Text) (subpatterns : Bool) : List Piece := piecesFrom subpatterns 0 [] pattern

/-- A piece as it is written. -/
def Piece.render : Piece → Text
  | capture => ['(']
  | backref n => '\\' :: decimalText n
  | subpattern name capturing =>
    if capturing then ['(', '{', '{'] ++ name ++ ['}', '}', ')'] else ['{', '{'] ++ name ++ ['}', '}']
  | verbatim t => t

/-- Pieces written out one after another. -/
def renderPieces (ps : List Piece) : Text := ps.flatMap Piece.render

end ExtensibleRegex
