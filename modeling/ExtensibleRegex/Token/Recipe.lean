import ExtensibleRegex.Expansion.Verbatim

/-!
# Recipes

A handler can be put together from a list of steps instead of being written as a function. The
steps run from left to right and add to the text that the handler writes; some enter a group or
stop with an error. Replacements have recipes of their own.
-/

namespace ExtensibleRegex

/-- Whether a text occurs in another one. -/
def occursIn (piece : Text) : Text → Bool
  | [] => piece.isEmpty
  | c :: t => piece.isPrefixOf (c :: t) || occursIn piece t

/-! ## 1. Handlers -/

/-- One step of a handler. -/
inductive HandlerStep where
  | text (t : Text)
  /-- The text of a group of the match. -/
  | group (n : Nat)
  /-- The offset of the match. -/
  | offset
  /-- The whole pattern. -/
  | subject
  | flags
  /-- `C` in a class, else `D`. -/
  | scope
  | groupCount
  /-- The number of this call of the handler. -/
  | call
  /-- What stands for a removed comment. -/
  | separator
  /-- `Y` if some group has a name, else `N`. -/
  | hasNamed
  /-- The names of all groups. -/
  | names
  /-- The number of the group with a name. -/
  | find (name : Text)
  /-- `Y` if named groups are listed apart, else `N`. -/
  | namespacing
  /-- Enters a group. -/
  | push (name : Option Text)
  /-- The steps of the first list if the flags contain a text, else those of the second. -/
  | ifFlag (piece : Text) (yes no : List HandlerStep)
  /-- Stops with a message that ends in the text written so far. -/
  | fail (kind : SyntaxKind) (message : Text)
  | internal (message : Text)

namespace HandlerStep

/-- A yes or a no as a letter. -/
def letter (b : Bool) : Text := if b then ['Y'] else ['N']

mutual

/-- Runs a step, after the text `done` has been written. -/
def run (inv : Invocation) (done : Text) (ledger : Ledger) :
    HandlerStep → Except Error (Text × Ledger)
  | text t => .ok (done ++ t, ledger)
  | group n => .ok (done ++ inv.found.textOf n, ledger)
  | offset => .ok (done ++ decimalText inv.found.whole.start.offset, ledger)
  | subject => .ok (done ++ inv.found.subject, ledger)
  | flags => .ok (done ++ inv.flags, ledger)
  | scope => .ok (done ++ (if inv.scope = .charClass then ['C'] else ['D']), ledger)
  | groupCount => .ok (done ++ decimalText ledger.groupCount, ledger)
  | call => .ok (done ++ decimalText inv.call, ledger)
  | separator => .ok (done ++ separatorFor inv.found inv.flags, ledger)
  | hasNamed => .ok (done ++ letter ledger.hasNamed, ledger)
  | names => .ok (done ++ ledger.names.toList.flatMap (fun n => n.getD ['-'] ++ [';']), ledger)
  | find name =>
    .ok (done ++ (match ledger.index? name with
      | some n => decimalText n
      | none => ['-']), ledger)
  | namespacing => .ok (done ++ letter inv.setting.features.namespacing, ledger)
  | push name => .ok (done, ledger.push name)
  | ifFlag piece yes no =>
    if occursIn piece inv.flags then runAll inv done ledger yes else runAll inv done ledger no
  | fail kind message => .error (.reported kind (message ++ done))
  | internal message => .error (.internal message)

/-- Runs steps one after another. -/
def runAll (inv : Invocation) (done : Text) (ledger : Ledger) :
    List HandlerStep → Except Error (Text × Ledger)
  | [] => .ok (done, ledger)
  | s :: ss =>
    match run inv done ledger s with
    | .ok (done, ledger) => runAll inv done ledger ss
    | .error e => .error e

end

/-- The handler of a list of steps. -/
def toHandler (steps : List HandlerStep) : Handler := fun inv ledger => runAll inv [] ledger steps

end HandlerStep

end ExtensibleRegex
