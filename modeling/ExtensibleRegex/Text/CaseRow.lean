/-!
# Case maps as rows

A simple case map sends a code point to one code point. It is written as rows: a row covers every
`step`th code point from `first` to `last` and moves each of them by the same distance.
-/

namespace ExtensibleRegex

/-- Every `step`th code point from `first` to `last`, moved up by `up` and down by `down`. -/
structure CaseRow where
  first : Nat
  last : Nat
  step : Nat
  up : Nat
  down : Nat
  deriving DecidableEq, Repr

namespace CaseRow

/-- Whether a row moves the code point `n`. -/
def covers (r : CaseRow) (n : Nat) : Bool :=
  r.first ≤ n && n ≤ r.last && (n - r.first) % r.step == 0

/-- Where a row moves a code point that it covers. -/
def image (r : CaseRow) (n : Nat) : Nat := n + r.up - r.down

/-- The code point that a row moves to `n`, if there is one. -/
def preimage? (r : CaseRow) (n : Nat) : Option Nat :=
  if r.down ≤ n + r.down ∧ r.covers (n + r.down - r.up) then some (n + r.down - r.up) else none

end CaseRow

/-- The image of a code point under the first row that covers it, else the code point itself. -/
def mapCase (rows : List CaseRow) (n : Nat) : Nat :=
  match rows.find? (·.covers n) with
  | some r => r.image n
  | none => n

/-- All code points that some row moves to `n`. -/
def casePreimages (rows : List CaseRow) (n : Nat) : List Nat :=
  rows.filterMap (·.preimage? n)

end ExtensibleRegex
