import ExtensibleRegex.Flag
import ExtensibleRegex.Native.Lexeme
import ExtensibleRegex.Native.Node

/-!
# From lexemes to the tree

The second step of reading a native pattern: a pass over its lexemes that keeps the group being
read and the groups around it. What it needs to know of the whole pattern beforehand is the list
of capture names (`captureNames`): a number after a backslash is a reference when there are that
many groups, and in the lenient grammar an octal escape otherwise.
-/

namespace ExtensibleRegex.Native

/-- No pattern may hold more capturing groups than this. -/
def maxGroups : Nat := 65535

/-! ## 1. The state of the pass -/

/-- The modes in force at a place of a pattern. -/
structure Modes where
  ignoreCase : Bool
  lines : Bool
  lineEnds : Bool
  deriving DecidableEq, Repr

/-- The modes after a modifier group has set some and cleared others. -/
def Modes.modify (m : Modes) (add remove : Text) : Modes where
  ignoreCase := (m.ignoreCase || add.contains 'i') && !remove.contains 'i'
  lines := (m.lines || add.contains 'm') && !remove.contains 'm'
  lineEnds := (m.lineEnds || add.contains 's') && !remove.contains 's'

/-- A term of an alternative: its node, whether a quantifier may follow it, and how many groups
had opened before it. -/
structure Term where
  node : Node
  repeatable : Bool
  before : Nat
  deriving DecidableEq, Repr

/-- A group that is still open: what it opened as, its number if it captures, and what had been
read around it. -/
structure Frame where
  kind : Opening
  group : Nat
  before : Nat
  modes : Modes
  alternatives : List Node
  terms : List Term
  deriving DecidableEq, Repr

/-- How far the pass has come. Alternatives, terms and frames stand latest first. -/
structure Progress where
  /-- How many capturing groups have opened. -/
  groups : Nat
  modes : Modes
  alternatives : List Node
  terms : List Term
  frames : List Frame
  deriving DecidableEq, Repr

/-- What the pass knows of the whole pattern. -/
structure Grammar where
  strict : Bool
  names : List (Option Text)
  deriving DecidableEq, Repr

namespace Progress

/-- Nothing read yet. -/
def initial (modes : Modes) : Progress := ⟨0, modes, [], [], []⟩

/-- Adds a term. -/
def push (p : Progress) (node : Node) (repeatable : Bool) : Progress :=
  { p with terms := ⟨node, repeatable, p.groups⟩ :: p.terms }

/-- The alternative being read, as a node. -/
def current (p : Progress) : Node := Node.seqOf (p.terms.reverse.map Term.node)

/-- The whole group being read, as a node. -/
def body (p : Progress) : Node := Node.altOfReversed (p.current :: p.alternatives)

/-- Adds a literal. -/
def literal (p : Progress) (n : Nat) : Progress :=
  p.push (.atom (.literal n p.modes.ignoreCase)) true

/-- Starts the next alternative. -/
def bar (p : Progress) : Progress :=
  { p with alternatives := p.current :: p.alternatives, terms := [] }

/-- Opens a group. -/
def openGroup (p : Progress) (kind : Opening) : Progress :=
  let groups := match kind with
    | .capture _ => p.groups + 1
    | _ => p.groups
  let modes := match kind with
    | .plain add remove => p.modes.modify add remove
    | _ => p.modes
  { groups, modes, alternatives := [], terms := [],
    frames := ⟨kind, groups, p.groups, p.modes, p.alternatives, p.terms⟩ :: p.frames }

/-- Closes the innermost group. -/
def closeGroup? (strict : Bool) (p : Progress) : Option Progress :=
  match p.frames with
  | [] => none
  | f :: frames =>
    let (node, repeatable) := match f.kind with
      | .capture _ => (Node.group f.group p.body, true)
      | .plain _ _ => (p.body, true)
      | .look behind negated => (Node.look behind negated p.body, !behind && !strict)
    some { groups := p.groups, modes := f.modes, alternatives := f.alternatives,
           terms := ⟨node, repeatable, f.before⟩ :: f.terms, frames }

/-- Makes a loop of the last term. -/
def repeatLast? (p : Progress) (min : Nat) (max : Option Nat) (greedy : Bool) : Option Progress :=
  match p.terms with
  | [] => none
  | t :: terms =>
    if t.repeatable then
      let node := .loop t.node min max greedy ⟨t.before, p.groups - t.before⟩
      some { p with terms := ⟨node, false, t.before⟩ :: terms }
    else none

/-- Reads a number after a backslash: a reference if there are that many groups. Otherwise the
lenient grammar takes an octal escape off its front (or an `8` or `9` as itself) and the remaining
digits as literals. -/
def decimal? (g : Grammar) (p : Progress) (digits : Text) : Option Progress :=
  let n := readDigits 10 digits
  if n ≤ g.names.length then some (p.push (.backref n p.modes.ignoreCase) true)
  else if g.strict then none
  else
    match digits with
    | [] => some p
    | d :: ds =>
      let taken := if isOctalDigit d then octalLength d ds else 1
      let first := if isOctalDigit d then readDigits 8 (digits.take taken) else d.toNat
      some ((digits.drop taken).foldl (fun p d => p.literal d.toNat) (p.literal first))

/-! ## 2. The pass -/

/-- Reads one lexeme. -/
def read? (g : Grammar) (p : Progress) : Lexeme → Option Progress
  | .literal n => some (p.literal n)
  | .any => some (p.push (.atom (.any p.modes.lineEnds)) true)
  | .set negated members => some (p.push (.atom (.set negated members p.modes.ignoreCase)) true)
  | .lineStart => some (p.push (.start p.modes.lines) false)
  | .lineEnd => some (p.push (.stop p.modes.lines) false)
  | .boundary negated => some (p.push (.boundary negated) true)
  | .decimal digits => decimal? g p digits
  | .namedRef name =>
    match g.names.findIdx? (· == some name) with
    | some i => some (p.push (.backref (i + 1) p.modes.ignoreCase) true)
    | none => none
  | .opening kind => some (p.openGroup kind)
  | .close => p.closeGroup? g.strict
  | .bar => some p.bar
  | .quantifier min max greedy => p.repeatLast? min max greedy

/-- Reads lexemes one after another. -/
def readAll? (g : Grammar) : Progress → List Lexeme → Option Progress
  | p, [] => some p
  | p, l :: ls =>
    match p.read? g l with
    | some q => readAll? g q ls
    | none => none

/-- The tree, once every group is closed. -/
def finish? (p : Progress) : Option Node :=
  match p.frames with
  | [] => some p.body
  | _ :: _ => none

end Progress

/-! ## 3. Whole patterns -/

/-- A pattern as the matcher takes it: its tree and the number of its capturing groups. -/
structure Program where
  node : Node
  groups : Nat
  deriving DecidableEq, Repr

/-- Whether no name occurs twice. -/
def distinctNames : List (Option Text) → Bool
  | [] => true
  | none :: names => distinctNames names
  | some name :: names => !names.contains (some name) && distinctNames names

/-- The program of a pattern, or nothing if the pattern is not well-formed. -/
def Program.ofSource? (source : Text) (mode : Mode) : Option Program := do
  let ls ← lexemes? mode.unicode source
  let names := captureNames ls
  if names.length ≤ maxGroups ∧ distinctNames names then
    let grammar : Grammar := ⟨mode.unicode, names⟩
    let modes : Modes := ⟨mode.ignoreCase, mode.multiline, false⟩
    let p ← Progress.readAll? grammar (.initial modes) ls
    let node ← p.finish?
    return ⟨node, names.length⟩
  else none

end ExtensibleRegex.Native
