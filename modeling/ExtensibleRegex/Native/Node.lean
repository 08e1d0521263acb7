import ExtensibleRegex.Text.CaseFolding
import ExtensibleRegex.Unicode.CodeSet

/-!
# The tree of a native pattern

A pattern denotes a tree (`Node`). Leaves are single characters (`Atom`) and assertions; inner
nodes are sequence, choice, capturing group, lookaround and loop. Modes are settled when the tree
is built, so every leaf says itself whether it ignores case or minds lines. A loop lists the
groups inside of it, since each round starts with those unset.
-/

namespace ExtensibleRegex.Native

/-- What a single character has to be. -/
inductive Atom where
  /-- Any character, or any that does not end a line. -/
  | any (lineEnds : Bool)
  | literal (n : Nat) (ignoreCase : Bool)
  | set (negated : Bool) (members : CodeSet) (ignoreCase : Bool)
  deriving DecidableEq, Repr

/-- Whether an atom admits a character. -/
def Atom.admits : Atom → Char → Bool
  | .any lineEnds, c => lineEnds || !isLineEnd c
  | .literal n false, c => n == c.toNat
  | .literal n true, c => foldCase n == foldCase c.toNat
  | .set negated members false, c => members.contains c.toNat != negated
  | .set negated members true, c => (caseOrbit c.toNat).any members.contains != negated

/-- The groups numbered from `first + 1` to `first + count`. -/
structure GroupRange where
  first : Nat
  count : Nat
  deriving DecidableEq, Repr

/-- Whether a group lies in a range. -/
def GroupRange.holds (r : GroupRange) (group : Nat) : Bool :=
  r.first < group && group ≤ r.first + r.count

/-- The tree of a pattern. -/
inductive Node where
  /-- Nothing. -/
  | empty
  /-- One character. -/
  | atom (a : Atom)
  /-- The start of the text or, with `lines`, of a line. -/
  | start (lines : Bool)
  /-- The end of the text or, with `lines`, of a line. -/
  | stop (lines : Bool)
  /-- A boundary of a word, or its absence. -/
  | boundary (negated : Bool)
  /-- What a group matched last. -/
  | backref (group : Nat) (ignoreCase : Bool)
  | seq (a b : Node)
  | alt (a b : Node)
  | group (index : Nat) (body : Node)
  | look (behind negated : Bool) (body : Node)
  | loop (body : Node) (min : Nat) (max : Option Nat) (greedy : Bool) (groups : GroupRange)
  deriving DecidableEq, Repr

namespace Node

/-- The nodes of a list one after another. -/
def seqOf (ns : List Node) : Node := ns.foldr seq empty

/-- A choice between the alternatives of a list, given latest first. -/
def altOfReversed : List Node → Node
  | [] => empty
  | last :: earlier => earlier.foldl (fun rest n => alt n rest) last

/-- Whether a node is one fixed path: it holds no choice, no loop and no lookaround, so that it
leads from a place to at most one other. -/
def isDirect : Node → Bool
  | empty => true
  | atom _ => true
  | start _ => true
  | stop _ => true
  | boundary _ => true
  | backref _ _ => true
  | seq a b => a.isDirect && b.isDirect
  | alt _ _ => false
  | group _ body => body.isDirect
  | look _ _ _ => false
  | loop _ _ _ _ _ => false

end Node

end ExtensibleRegex.Native
