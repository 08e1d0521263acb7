import ExtensibleRegex.Unicode.Identifier
import ExtensibleRegex.Unicode.Property

/-!
# Lexemes of native patterns

A native pattern is read in two steps. The first, here, cuts its text into lexemes: a literal, a
class, an escape, the opening of a group, a quantifier, and so on. There are two grammars. The
strict one (flag `u`) refuses every escape and every stray bracket that means nothing; the lenient
one reads them as literals. In the lenient grammar `\k` is a reference only in a pattern that
names a group, so the reader takes that as an argument.

Every reader is given the first character `c` of a lexeme and the text `cs` after it, and answers
how many characters of `cs` belong to the lexeme. A lexeme so takes at least one character.
-/

namespace ExtensibleRegex.Native

/-! ## 1. Lexemes -/

/-- The character classes with a letter of their own. -/
inductive Shorthand where
  | digit
  | space
  | word
  deriving DecidableEq, Repr

/-- The code points of a shorthand class. -/
def Shorthand.members : Shorthand → CodeSet
  | .digit => .ranges [(48, 57)]
  | .space =>
    .ranges [(0x9, 0xD), (0x20, 0x20), (0xA0, 0xA0), (0x1680, 0x1680), (0x2000, 0x200A),
      (0x2028, 0x2029), (0x202F, 0x202F), (0x205F, 0x205F), (0x3000, 0x3000), (0xFEFF, 0xFEFF)]
  | .word => .ranges [(48, 57), (65, 90), (95, 95), (97, 122)]

/-- What a group opens as. -/
inductive Opening where
  /-- A capturing group, possibly with a name. -/
  | capture (name : Option Text)
  /-- A group that does not capture, with the modes it sets and clears. -/
  | plain (add remove : Text)
  /-- A lookahead or, when `behind`, a lookbehind. -/
  | look (behind negated : Bool)
  deriving DecidableEq, Repr

/-- The lexemes of a pattern. -/
inductive Lexeme where
  | literal (n : Nat)
  | any
  | set (negated : Bool) (members : CodeSet)
  | lineStart
  | lineEnd
  | boundary (negated : Bool)
  /-- A backslash and a number that does not begin with zero. -/
  | decimal (digits : Text)
  | namedRef (name : Text)
  | opening (kind : Opening)
  | close
  | bar
  | quantifier (min : Nat) (max : Option Nat) (greedy : Bool)
  deriving DecidableEq, Repr

/-! ## 2. Escapes of a single character -/

/-- The characters with a meaning in patterns. -/
def isSyntaxChar (c : Char) : Bool :=
  c ∈ ['^', '$', '\\', '.', '*', '+', '?', '(', ')', '[', ']', '{', '}', '|', '/']

/-- How many octal digits an octal escape takes: three when it begins with at most `3`, else two. -/
def octalLength (c : Char) (cs : Text) : Nat :=
  let most := if c.toNat ≤ '3'.toNat then 2 else 1
  1 + ((cs.take most).takeWhile isOctalDigit).length

/-- Four hexadecimal digits. -/
def fourHex? (cs : Text) : Option Nat :=
  match cs with
  | a :: b :: c :: d :: _ =>
    if isHexDigit a && isHexDigit b && isHexDigit c && isHexDigit d then
      some (readDigits 16 [a, b, c, d])
    else none
  | _ => none

/-- The low half of a surrogate pair, written as an escape of its own. -/
def lowSurrogate? (cs : Text) : Option Nat :=
  match cs with
  | '\\' :: 'u' :: rest =>
    match fourHex? rest with
    | some low => if 0xDC00 ≤ low ∧ low ≤ 0xDFFF then some low else none
    | none => none
  | _ => none

/-- The code point of an escape after `\u`, and how many characters it takes. Texts are matched by
code point in both grammars, so the two halves of a surrogate pair, each written as an escape, stand
for one code point in both; otherwise a pair would never match. -/
def unicodeEscape? (strict : Bool) (cs : Text) : Option (Nat × Nat) :=
  match fourHex? cs with
  | some high =>
    if 0xD800 ≤ high && high ≤ 0xDBFF then
      match lowSurrogate? (cs.drop 4) with
      | some low => some (0x10000 + (high - 0xD800) * 0x400 + (low - 0xDC00), 10)
      | none => some (high, 4)
    else some (high, 4)
  | none =>
    if strict then
      match cs with
      | '{' :: rest =>
        let digits := rest.takeWhile isHexDigit
        let n := readDigits 16 digits
        if digits ≠ [] ∧ (rest.drop digits.length).head? = some '}' ∧ n ≤ 0x10FFFF then
          some (n, digits.length + 2)
        else none
      | _ => none
    else some ('u'.toNat, 0)

/-- The code point that a backslash and `c` stand for, in either scope. -/
def charEscape? (strict : Bool) (c : Char) (cs : Text) : Option (Nat × Nat) :=
  match c with
  | 'f' => some (12, 0)
  | 'n' => some (10, 0)
  | 'r' => some (13, 0)
  | 't' => some (9, 0)
  | 'v' => some (11, 0)
  | 'x' =>
    match cs with
    | a :: b :: _ =>
      if isHexDigit a && isHexDigit b then some (readDigits 16 [a, b], 2)
      else if strict then none
      else some ('x'.toNat, 0)
    | _ => if strict then none else some ('x'.toNat, 0)
  | 'u' => unicodeEscape? strict cs
  | c => if strict && !isSyntaxChar c then none else some (c.toNat, 0)

/-- The shorthand class of a letter, whose capital stands for the complement. -/
def shorthand? : Char → Option CodeSet
  | 'd' => some (Shorthand.digit.members.select false)
  | 'D' => some (Shorthand.digit.members.select true)
  | 's' => some (Shorthand.space.members.select false)
  | 'S' => some (Shorthand.space.members.select true)
  | 'w' => some (Shorthand.word.members.select false)
  | 'W' => some (Shorthand.word.members.select true)
  | _ => none

/-- The code points with the property that is named in braces, or without it for a capital letter,
and how many characters letter and braces take. -/
def propertyEscape? (c : Char) : Text → Option (CodeSet × Nat)
  | '{' :: cs =>
    let name := cs.takeWhile (· != '}')
    if (cs.drop name.length).head? = some '}' then
      (Unicode.property? name).map fun s => (s.select (c == 'P'), name.length + 3)
    else none
  | _ => none

/-- The set of code points that the letter `c` after a backslash stands for, and how many
characters the escape takes: nothing if the escape is of another kind, `some none` if it is a
property that there is not. Only the strict grammar has properties. -/
def setEscape? (strict : Bool) (c : Char) (cs : Text) : Option (Option (CodeSet × Nat)) :=
  if strict && (c == 'p' || c == 'P') then some (propertyEscape? c cs)
  else (shorthand? c).map fun s => some (s, 1)

/-! ## 3. Classes -/

/-- What a class is written with, before its ranges are put together. -/
inductive ClassAtom where
  /-- A hyphen that is not escaped. -/
  | hyphen
  | point (n : Nat)
  | set (members : CodeSet)
  deriving DecidableEq, Repr

namespace ClassAtom

/-- The code point of an atom that stands for a single one. -/
def point? : ClassAtom → Option Nat
  | hyphen => some 45
  | point n => some n
  | set _ => none

/-- The code points of an atom. -/
def members : ClassAtom → CodeSet
  | hyphen => .single 45
  | point n => .single n
  | set s => s

end ClassAtom

/-- Puts the atoms of a class together: a hyphen between two atoms makes a range of them. -/
def assembleClass (strict : Bool) : List ClassAtom → Option (List CodeSet)
  | [] => some []
  | a :: .hyphen :: b :: rest =>
    match a.point?, b.point? with
    | some lo, some hi =>
      if lo ≤ hi then (assembleClass strict rest).map (.ranges [(lo, hi)] :: ·) else none
    | _, _ =>
      if strict then none
      else (assembleClass strict rest).map ([a.members, .single 45, b.members] ++ ·)
  | a :: rest => (assembleClass strict rest).map (a.members :: ·)

/-- The escape inside a class after a backslash: its atom, and how many characters it takes. -/
def classEscape? (strict named : Bool) : Text → Option (ClassAtom × Nat)
  | [] => none
  | c :: cs =>
    match setEscape? strict c cs with
    | some found => found.map fun r => (.set r.1, r.2)
    | none =>
      if c = 'b' then some (.point 8, 1)
      else if c = '-' && strict then some (.point 45, 1)
      else if c = 'c' then
        match cs with
        | l :: _ =>
          if l.isAlpha || (!strict && (l.isDigit || l = '_')) then
            some (.point (l.toNat % 32), 2)
          else if strict then none
          else some (.point 92, 0)
        | [] => if strict then none else some (.point 92, 0)
      else if c = 'k' && named then none
      else if c.isDigit then
        if strict then
          if c = '0' && !(cs.headD ' ').isDigit then some (.point 0, 1) else none
        else if isOctalDigit c then
          let n := octalLength c cs
          some (.point (readDigits 8 ((c :: cs).take n)), n)
        else some (.point c.toNat, 1)
      else (charEscape? strict c cs).map fun r => (.point r.1, r.2 + 1)

/-- The atoms of a class up to its closing bracket, and how many characters they take with it.
`skip` characters belong to the atom read last. -/
def classAtoms? (strict named : Bool) :
    (skip : Nat) → Text → (taken : Nat) → List ClassAtom → Option (List ClassAtom × Nat)
  | _, [], _, _ => none
  | skip + 1, _ :: cs, taken, atoms => classAtoms? strict named skip cs (taken + 1) atoms
  | 0, c :: cs, taken, atoms =>
    if c = ']' then some (atoms.reverse, taken + 1)
    else if c = '\\' then
      match classEscape? strict named cs with
      | some (atom, n) => classAtoms? strict named n cs (taken + 1) (atom :: atoms)
      | none => none
    else if c = '-' then classAtoms? strict named 0 cs (taken + 1) (.hyphen :: atoms)
    else classAtoms? strict named 0 cs (taken + 1) (.point c.toNat :: atoms)

/-- A class after its opening bracket. -/
def class? (strict named : Bool) (cs : Text) : Option (Lexeme × Nat) :=
  let negated := cs.head? == some '^'
  let body := if negated then cs.drop 1 else cs
  match classAtoms? strict named 0 body (if negated then 1 else 0) [] with
  | some (atoms, n) => (assembleClass strict atoms).map fun sets => (.set negated (.unionOf sets), n)
  | none => none

/-! ## 4. Groups and quantifiers -/

/-- One character of a group name, which may be written as an escape: the character, and how many
characters of `cs` after `c` it takes. -/
def nameChar? (c : Char) (cs : Text) : Option (Char × Nat) :=
  if c = '\\' then
    match cs with
    | 'u' :: rest =>
      match unicodeEscape? true rest with
      | some (n, taken) => if n.isValidChar then some (Char.ofNat n, taken + 1) else none
      | none => none
    | _ => none
  else some (c, 0)

/-- The rest of a group name up to the angle bracket after it, and how many characters it takes
with the bracket. `name` has the characters read before, latest first, and `skip` characters
belong to the last one of them. -/
def groupNameFrom? : (skip taken : Nat) → (name : Text) → Text → Option (Text × Nat)
  | _, _, _, [] => none
  | skip + 1, taken, name, _ :: cs => groupNameFrom? skip (taken + 1) name cs
  | 0, taken, name, c :: cs =>
    if c = '>' then if name.isEmpty then none else some (name.reverse, taken + 1)
    else
      match nameChar? c cs with
      | some (d, n) =>
        if if name.isEmpty then startsIdentifier d else extendsIdentifier d then
          groupNameFrom? n (taken + 1) (d :: name) cs
        else none
      | none => none

/-- A group name and the angle bracket after it: the name, and how many characters both take. -/
def groupName? (cs : Text) : Option (Text × Nat) := groupNameFrom? 0 0 [] cs

/-- The modes that a modifier group sets and clears, up to its colon. -/
def modifiers? (cs : Text) : Option (Opening × Nat) :=
  let isMode (c : Char) : Bool := c == 'i' || c == 'm' || c == 's'
  let add := cs.takeWhile isMode
  match cs.drop add.length with
  | ':' :: _ =>
    if add.eraseDups.length = add.length then some (.plain add [], add.length + 1) else none
  | '-' :: rest =>
    let remove := rest.takeWhile isMode
    let all := add ++ remove
    if (rest.drop remove.length).head? = some ':' ∧ all ≠ [] ∧ all.eraseDups.length = all.length then
      some (.plain add remove, all.length + 2)
    else none
  | _ => none

/-- What opens after a parenthesis. -/
def opening? : Text → Option (Opening × Nat)
  | '?' :: '=' :: _ => some (.look false false, 2)
  | '?' :: '!' :: _ => some (.look false true, 2)
  | '?' :: '<' :: '=' :: _ => some (.look true false, 3)
  | '?' :: '<' :: '!' :: _ => some (.look true true, 3)
  | '?' :: '<' :: cs => (groupName? cs).map fun r => (.capture (some r.1), r.2 + 2)
  | '?' :: cs => (modifiers? cs).map fun r => (r.1, r.2 + 1)
  | _ => some (.capture none, 0)

/-- The bounds of a quantifier in braces, after its opening brace, and how many characters it
takes with the closing one. -/
def bracedBounds? (cs : Text) : Option (Nat × Option Nat × Nat) :=
  let low := cs.takeWhile Char.isDigit
  if low = [] then none
  else
    match cs.drop low.length with
    | '}' :: _ => some (readDigits 10 low, some (readDigits 10 low), low.length + 1)
    | ',' :: rest =>
      let high := rest.takeWhile Char.isDigit
      if (rest.drop high.length).head? = some '}' then
        some (readDigits 10 low, if high = [] then none else some (readDigits 10 high),
          low.length + high.length + 2)
      else none
    | _ => none

/-- A quantifier that takes `n` characters of `cs`, and a question mark after them if there is
one. Its bounds have to be in order. -/
def quantifier? (min : Nat) (max : Option Nat) (cs : Text) (n : Nat) : Option (Lexeme × Nat) :=
  if max.all (min ≤ ·) then
    if (cs.drop n).head? = some '?' then some (.quantifier min max false, n + 1)
    else some (.quantifier min max true, n)
  else none

/-! ## 5. Escapes outside of classes -/

/-- The lexeme after a backslash, and how many characters it takes. -/
def escape? (strict named : Bool) : Text → Option (Lexeme × Nat)
  | [] => none
  | c :: cs =>
    match setEscape? strict c cs with
    | some found => found.map fun r => (.set false r.1, r.2)
    | none =>
      if c = 'b' then some (.boundary false, 1)
      else if c = 'B' then some (.boundary true, 1)
      else if c = 'c' then
        match cs with
        | l :: _ =>
          if l.isAlpha then some (.literal (l.toNat % 32), 2)
          else if strict then none
          else some (.literal 92, 0)
        | [] => if strict then none else some (.literal 92, 0)
      else if c = 'k' && (named || strict) then
        match cs with
        | '<' :: rest => (groupName? rest).map fun r => (.namedRef r.1, r.2 + 2)
        | _ => none
      else if c = '0' then
        if strict then
          if (cs.headD ' ').isDigit then none else some (.literal 0, 1)
        else
          let n := octalLength c cs
          some (.literal (readDigits 8 ((c :: cs).take n)), n)
      else if c.isDigit then
        let digits := c :: cs.takeWhile Char.isDigit
        some (.decimal digits, digits.length)
      else (charEscape? strict c cs).map fun r => (.literal r.1, r.2 + 1)

/-! ## 6. The whole text -/

/-- The lexeme that begins with `c`, and how many characters of `cs` it takes. -/
def lexeme? (strict named : Bool) (c : Char) (cs : Text) : Option (Lexeme × Nat) :=
  match c with
  | '^' => some (.lineStart, 0)
  | '$' => some (.lineEnd, 0)
  | '.' => some (.any, 0)
  | '|' => some (.bar, 0)
  | ')' => some (.close, 0)
  | '(' => (opening? cs).map fun r => (.opening r.1, r.2)
  | '[' => class? strict named cs
  | '*' => quantifier? 0 none cs 0
  | '+' => quantifier? 1 none cs 0
  | '?' => quantifier? 0 (some 1) cs 0
  | '{' =>
    match bracedBounds? cs with
    | some (min, max, n) => quantifier? min max cs n
    | none => if strict then none else some (.literal '{'.toNat, 0)
  | '}' => if strict then none else some (.literal '}'.toNat, 0)
  | ']' => if strict then none else some (.literal ']'.toNat, 0)
  | '\\' => escape? strict named cs
  | c => some (.literal c.toNat, 0)

/-- The lexemes of a text, after those already `read`, latest first. `skip` characters belong to
the lexeme read last. -/
def lexAll? (strict named : Bool) : (skip : Nat) → Text → List Lexeme → Option (List Lexeme)
  | _, [], read => some read.reverse
  | skip + 1, _ :: cs, read => lexAll? strict named skip cs read
  | 0, c :: cs, read =>
    match lexeme? strict named c cs with
    | some (l, n) => lexAll? strict named n cs (l :: read)
    | none => none

/-- The names of the capturing groups, in the order in which the groups open. -/
def captureNames (ls : List Lexeme) : List (Option Text) :=
  ls.filterMap fun l =>
    match l with
    | .opening (.capture name) => some name
    | _ => none

/-- The lexemes of a pattern. A lenient pattern that names a group is read again with `\k` as a
reference. -/
def lexemes? (strict : Bool) (source : Text) : Option (List Lexeme) :=
  match lexAll? strict strict 0 source [] with
  | some ls =>
    if !strict && (captureNames ls).any Option.isSome then lexAll? strict true 0 source []
    else some ls
  | none => none

end ExtensibleRegex.Native
