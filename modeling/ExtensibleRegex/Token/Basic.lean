import ExtensibleRegex.Property.Table
import ExtensibleRegex.Regex.Search

/-!
# Tokens

A token extends the pattern language: a trigger, which is a native pattern, and a handler that
writes what stands for the trigger's match in the native pattern. Handlers are pure. They are
given an `Invocation`, which says what was found and where, and the `Ledger` of the capturing
groups opened so far, and they answer a text and a ledger. What else a call leaves is told apart
from that: the features that later calls see, by the token's switch, and the table of properties, by
its note.
-/

namespace ExtensibleRegex

/-! ## 1. Where a token applies -/

/-- Where a place of a pattern is: outside of character classes or in one. -/
inductive Scope where
  | pattern
  | charClass
  deriving DecidableEq, Repr

/-- Where a token applies. -/
inductive TokenScope where
  | pattern
  | charClass
  | all
  deriving DecidableEq, Repr

/-- Whether a token with this scope applies in a scope. -/
def TokenScope.admits : TokenScope → Scope → Bool
  | pattern, .pattern => true
  | charClass, .charClass => true
  | all, _ => true
  | _, _ => false

/-! ## 2. Features -/

/-- The optional behaviours of a dialect. -/
structure Features where
  /-- Every regex gets flag `A`, so property escapes also match beyond the basic plane. -/
  astral : Bool := false
  /-- Named groups are listed apart, and the reserved names become usable. -/
  namespacing : Bool := false
  deriving DecidableEq, Repr

namespace Features

/-- A text cut at blanks and commas. -/
def words : Text → List Text
  | [] => [[]]
  | c :: t =>
    if isWhiteSpace c || c = ',' then [] :: words t
    else
      match words t with
      | w :: ws => (c :: w) :: ws
      | [] => [[c]]

/-- The features that a text names. Unknown names name nothing. -/
def ofText (t : Text) : Features :=
  let ws := words t
  ⟨ws.contains "astral".toList, ws.contains "namespacing".toList⟩

/-- The features of both. -/
def union (a b : Features) : Features := ⟨a.astral || b.astral, a.namespacing || b.namespacing⟩

/-- The features of the first that are not in the second. -/
def minus (a b : Features) : Features := ⟨a.astral && !b.astral, a.namespacing && !b.namespacing⟩

/-- Whether the first has all features of the second. -/
def includes (a b : Features) : Bool := (a.astral || !b.astral) && (a.namespacing || !b.namespacing)

end Features

/-! ## 3. Handlers -/

/-- The capturing groups that a pattern has opened, in order, with their names. -/
structure Ledger where
  names : Array (Option Text)
  deriving DecidableEq, Repr

namespace Ledger

/-- No group opened yet. -/
def empty : Ledger := ⟨#[]⟩

/-- How many groups have opened. -/
def groupCount (l : Ledger) : Nat := l.names.size

/-- Enters a group. -/
def push (l : Ledger) (name : Option Text) : Ledger := ⟨l.names.push name⟩

/-- The number of the group with a name. -/
def index? (l : Ledger) (name : Text) : Option Nat :=
  (l.names.findIdx? (· == some name)).map (· + 1)

/-- Whether some group has a name. -/
def hasNamed (l : Ledger) : Bool := l.names.any Option.isSome

/-- The names of all groups, if some group has one. -/
def groupNames? (l : Ledger) : Option GroupNames := if l.hasNamed then some l.names.toList else none

end Ledger

/-- What a handler may know of the dialect it belongs to, and of what calls before have made of it. -/
structure Setting where
  features : Features
  properties : PropertyTable

/-- One call of a handler. -/
structure Invocation where
  /-- The match of the trigger; its subject is the pattern being expanded. -/
  found : Captures
  scope : Scope
  flags : Text
  /-- The number of this call among all calls of the token's handler, counted from 1. -/
  call : Nat
  setting : Setting

/-- Writes what stands for a match of a trigger. -/
abbrev Handler := Invocation → Ledger → Except Error (Text × Ledger)

/-! ## 4. Tokens -/

/-- How a token is declared. -/
structure TokenSpec where
  trigger : Text
  scope : TokenScope := .pattern
  /-- The flag without which the token does not apply. -/
  gate : Option Char := none
  /-- Flags that the handler minds. -/
  optionalFlags : Text := []
  /-- Whether the handler's text is read again in place of the match. -/
  reparse : Bool := false
  /-- The character that a match has to begin with. -/
  lead : Option Char := none
  handler : Handler
  /-- The features after a call that answers a text. -/
  switch : Invocation → Ledger → Features := fun inv _ => inv.setting.features
  /-- The table of properties after a call. -/
  note : Invocation → PropertyTable := fun inv => inv.setting.properties

/-- The flags that a token makes known. -/
def TokenSpec.flags (s : TokenSpec) : Text := s.gate.toList ++ s.optionalFlags

/-- A token of a dialect. -/
structure Token where
  trigger : Regex
  handler : Handler
  switch : Invocation → Ledger → Features
  note : Invocation → PropertyTable
  scope : TokenScope
  gate : Option Char
  reparse : Bool
  lead : Option Char
  /-- How many tokens the dialect had before this one. -/
  serial : Nat

namespace Token

/-- The token of a declaration. Triggers are native patterns with flag `u`. -/
def ofSpec (s : TokenSpec) (serial : Nat) : Except Error Token := do
  let trigger ← Regex.native s.trigger ['u']
  return ⟨trigger, s.handler, s.switch, s.note, s.scope, s.gate, s.reparse, s.lead, serial⟩

/-- Whether a token is to be tried at a place. -/
def applies (t : Token) (p : Place) (scope : Scope) (flags : Text) : Bool :=
  (t.lead.isNone || t.lead == p.ahead.head?) && t.scope.admits scope &&
    t.gate.all flags.contains

/-- The match of the trigger at exactly a place, if the token applies there. -/
def matchAt? (t : Token) (p : Place) (scope : Scope) (flags : Text) : Option Captures :=
  if t.applies p scope flags then t.trigger.searchAt? p true else none

end Token

/-- The first token of a list with a match at a place, and the match. -/
def firstToken? (tokens : List Token) (p : Place) (scope : Scope) (flags : Text) :
    Option (Token × Captures) :=
  tokens.findSome? fun t => (t.matchAt? p scope flags).map fun c => (t, c)

end ExtensibleRegex
