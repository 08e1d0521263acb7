import ExtensibleRegex.Regex.Basic

/-!
# Replacement templates

A template is text in which a dollar begins a token: `$$` is a dollar, `$&` the match, `` $` `` and
`$'` what is before and after it, `$n` or `$nn` a group by number, and a name in braces or angle
brackets a group by name or number. A lone dollar at the very end stands for itself.

A template is first read into `Piece`s, which need no match, and then expanded piece by piece for
one match. Whether a reference resolves is a matter of the match; so a template fails at its first
fault in reading order, be it a token without meaning or a group that there is not.
-/

namespace ExtensibleRegex

namespace Template

/-- The pieces of a template. -/
inductive Piece where
  | verbatim (c : Char)
  | dollar
  | whole
  | before
  | after
  /-- A group by one or two digits. -/
  | number (digits : Text)
  /-- A name between brackets; `written` has the brackets. -/
  | bracketed (name written : Text)
  /-- A letter after a dollar that means nothing. -/
  | meaningless (letter : Char)
  deriving DecidableEq, Repr

/-! ## 1. Reading -/

/-- A name between brackets at the start of a text. -/
def bracketed? (rest : Text) : Option Piece :=
  let read (opening closing : Char) (body : Text) : Option Piece :=
    let name := body.takeWhile isNameChar
    if name ≠ [] ∧ (body.drop name.length).head? = some closing then
      some (.bracketed name (opening :: name ++ [closing]))
    else none
  match rest with
  | '{' :: body => read '{' '}' body
  | '<' :: body => read '<' '>' body
  | _ => none

/-- The token after a dollar, and how many characters it takes. -/
def token (rest : Text) : Piece × Nat :=
  match bracketed? rest with
  | some (.bracketed name written) => (.bracketed name written, written.length)
  | _ =>
    match rest with
    | [] => (.dollar, 0)
    | '$' :: _ => (.dollar, 1)
    | '&' :: _ => (.whole, 1)
    | '`' :: _ => (.before, 1)
    | '\'' :: _ => (.after, 1)
    | c :: _ =>
      if c.isDigit then
        let digits := (rest.take 2).takeWhile Char.isDigit
        (.number digits, digits.length)
      else (.meaningless c, 1)

/-- The pieces of a template. `skip` characters belong to the piece read last. -/
def readFrom : (skip : Nat) → Text → List Piece
  | _, [] => []
  | skip + 1, _ :: rest => readFrom skip rest
  | 0, c :: rest =>
    if c = '$' then
      let (piece, n) := token rest
      piece :: readFrom n rest
    else .verbatim c :: readFrom 0 rest

/-- The pieces of a template. -/
def read (template : Text) : List Piece := readFrom 0 template

/-! ## 2. Expanding -/

/-- The group that a name between brackets refers to: by number if it is the number of a group,
else by name. -/
def resolve? (c : Captures) (name : Text) : Option Nat :=
  if name.all Char.isDigit && readDigits 10 name ≤ c.groups.length then some (readDigits 10 name)
  else c.indexOf? name

/-- The text of a piece for one match. -/
def Piece.expand (c : Captures) : Piece → Except Error Text
  | verbatim x => .ok [x]
  | dollar => .ok ['$']
  | whole => .ok c.text
  | before => .ok c.whole.before
  | after => .ok c.whole.after
  | number digits =>
    let n := readDigits 10 digits
    if n ≤ c.groups.length then .ok (c.textOf n) else .error (.undefinedGroup ('$' :: digits))
  | bracketed name written =>
    match resolve? c name with
    | some n => .ok (c.textOf n)
    | none => .error (.undefinedGroup written)
  | meaningless letter => .error (.replacementToken letter)

/-- A template expanded for one match. -/
def expand (template : Text) (c : Captures) : Except Error Text := do
  let texts ← (read template).mapM (Piece.expand c)
  return texts.flatten

end Template

end ExtensibleRegex
