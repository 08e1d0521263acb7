import ExtensibleRegex.Token.Basic

/-!
# What no token takes

Where no token matches, one native token is copied as it stands: an escape, the opening of a
group, a quantifier, or a single character. The same grammar decides whether taking out a comment
or blanks would run the text on its two sides together.
-/

namespace ExtensibleRegex

/-! ## 1. Native tokens -/

/-- How many of the first `most` characters are octal digits. -/
def leadingOctalDigits (most : Nat) (t : Text) : Nat :=
  ((t.take most).takeWhile isOctalDigit).length

/-- How many hexadecimal digits a text begins with. -/
def leadingHexDigits (t : Text) : Nat := (t.takeWhile isHexDigit).length

/-- The length of `{n}`, `{n,}` or `{n,m}` at the start of a text. -/
def bracedLength? : Text → Option Nat
  | '{' :: rest => (Native.bracedBounds? rest).map fun b => b.2.2 + 1
  | _ => none

/-- The length of what a backslash escapes. -/
def escapeLength (scope : Scope) : Text → Nat
  | [] => 0
  | c :: cs =>
    match scope with
    | .pattern =>
      if c = '0' then
        match cs with
        | d :: ds =>
          if isOctalDigit d then
            2 + leadingOctalDigits (if d.toNat ≤ '3'.toNat then 2 else 1) ds
          else 1
        | [] => 1
      else if c.isDigit then 1 + (cs.takeWhile Char.isDigit).length
      else letterLength c cs
    | .charClass =>
      if isOctalDigit c then 1 + leadingOctalDigits (if c.toNat ≤ '3'.toNat then 2 else 1) cs
      else letterLength c cs
where
  /-- The length of an escape that does not begin with a digit. -/
  letterLength (c : Char) (cs : Text) : Nat :=
    if c = 'x' && leadingHexDigits cs ≥ 2 then 3
    else if c = 'u' && leadingHexDigits cs ≥ 4 then 5
    else if c = 'u' then
      match cs with
      | '{' :: rest =>
        let digits := leadingHexDigits rest
        if digits > 0 && (rest.drop digits).head? == some '}' then 3 + digits else 1
      | _ => 1
    else if c = 'c' && cs.head?.any Char.isAlpha then 2
    else 1

/-- The length of the native token that a text begins with. -/
def verbatimLength (scope : Scope) : Text → Nat
  | [] => 0
  | '\\' :: body => 1 + escapeLength scope body
  | c :: rest =>
    match scope with
    | .charClass => 1
    | .pattern =>
      if c = '(' then
        match rest with
        | '?' :: '<' :: '=' :: _ => 4
        | '?' :: '<' :: '!' :: _ => 4
        | '?' :: ':' :: _ => 3
        | '?' :: '=' :: _ => 3
        | '?' :: '!' :: _ => 3
        | _ => 1
      else if c = '?' || c = '*' || c = '+' then
        if rest.head? == some '?' then 2 else 1
      else if c = '{' then
        match bracedLength? (c :: rest) with
        | some n => if ((c :: rest).drop n).head? == some '?' then n + 1 else n
        | none => 1
      else 1

theorem verbatimLength_pos (scope : Scope) (c : Char) (t : Text) :
    0 < verbatimLength scope (c :: t) := by
  unfold verbatimLength
  split
  · simp_all
  · omega
  · rename_i c' rest _ h
    cases h
    split
    · omega
    · split
      · split <;> omega
      · split
        · split <;> omega
        · split
          · rename_i hc
            subst hc
            cases hb : bracedLength? ('{' :: t) with
            | none => simp
            | some n =>
              have hn : 0 < n := by
                simp only [bracedLength?, Option.map_eq_some_iff] at hb
                obtain ⟨b, _, hb⟩ := hb
                omega
              simp only
              split <;> omega
          · omega

/-! ## 2. Separators -/

/-- Drops a comment in parentheses that a text begins with. -/
def dropComment (t : Text) : Text :=
  match t with
  | '(' :: '?' :: '#' :: body =>
    match body.dropWhile (· != ')') with
    | _ :: rest => rest
    | [] => t
  | _ => t

/-- Drops blanks, and a comment up to the next line end or comment sign, that a text begins
with. -/
def dropBlanks (t : Text) : Text :=
  match t.dropWhile isBlank with
  | '#' :: body => body.dropWhile fun c => c != '#' && c != '\n'
  | rest => rest

/-- Drops comments and, with free spacing, blanks, as long as there are any. Each round drops a
character at least, so `left`, the length of the text, bounds their number. -/
def dropIgnored (freeSpacing : Bool) : (left : Nat) → Text → Text
  | 0, t => t
  | left + 1, t =>
    let t' := if freeSpacing then dropBlanks (dropComment t) else dropComment t
    if t'.length = t.length then t else dropIgnored freeSpacing left t'

/-- Whether a quantifier comes next, over comments and, under flag `x`, blanks. -/
def quantifierNext (after flags : Text) : Bool :=
  let rest := dropIgnored (flags.contains 'x') after.length after
  match rest with
  | c :: _ => c == '?' || c == '*' || c == '+' || (bracedLength? rest).isSome
  | [] => false

/-- A parenthesis or a bar. -/
def isDelimiter (c : Char) : Bool := c == '(' || c == ')' || c == '|'

/-- The ways in which a group opens that does not capture, each written backwards. -/
def openersReversed : List Text :=
  [[':', '?', '('], ['=', '?', '('], ['!', '?', '('], ['=', '<', '?', '('], ['!', '<', '?', '(']]

/-- The empty group. -/
def emptyGroup : Text := ['(', '?', ':', ')']

/-- What stands for a comment or blanks: the empty group where the text on both sides would run
together without it, else nothing. -/
def separatorFor (found : Captures) (flags : Text) : Text :=
  let behind := found.whole.start.behind
  let ahead := found.whole.stop.ahead
  if behind.isEmpty || ahead.isEmpty || behind.head?.any isDelimiter || ahead.head?.any isDelimiter
      || openersReversed.any (·.isPrefixOf behind) || quantifierNext ahead flags then []
  else emptyGroup

/-! ## 3. Empty groups in a row -/

/-- Writes a text with only the first of several empty groups in a row. `skip` characters belong
to the empty group read last, `done` is what has been written, latest first, and `after` tells
whether it ends in an empty group. -/
def mergeEmptyFrom : (skip : Nat) → (after : Bool) → (done : Text) → Text → Text
  | _, _, done, [] => done.reverse
  | skip + 1, after, done, _ :: rest => mergeEmptyFrom skip after done rest
  | 0, after, done, c :: rest =>
    if emptyGroup.isPrefixOf (c :: rest) then
      mergeEmptyFrom 3 true (if after then done else emptyGroup.reverse ++ done) rest
    else mergeEmptyFrom 0 false (c :: done) rest

/-- A text with only the first of several empty groups in a row. -/
def mergeEmptyGroups (source : Text) : Text := mergeEmptyFrom 0 false [] source

end ExtensibleRegex
