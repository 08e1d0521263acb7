import ExtensibleRegex.Text.Ascii

/-!
# Sets of code points

A set of code points is a list of ranges, or is put together from other sets. Whether a code point
is in it is read off from its parts: `contains_union`, `contains_diff` and `contains_compl` say
that the operations are what their names say.
-/

namespace ExtensibleRegex

/-- A set of code points. -/
inductive CodeSet where
  /-- The code points of some ranges, both ends included. -/
  | ranges (rs : List (Nat × Nat))
  | union (a b : CodeSet)
  /-- What is in the first set and not in the second. -/
  | diff (a b : CodeSet)
  /-- What is not in the set. -/
  | compl (a : CodeSet)
  deriving DecidableEq, Repr

namespace CodeSet

/-- Whether a code point is in a set. -/
def contains : CodeSet → Nat → Bool
  | ranges rs, n => inRanges rs n
  | union a b, n => a.contains n || b.contains n
  | diff a b, n => a.contains n && !b.contains n
  | compl a, n => !a.contains n

@[simp] theorem contains_ranges (rs : List (Nat × Nat)) (n : Nat) :
    (ranges rs).contains n = inRanges rs n := rfl

@[simp] theorem contains_union (a b : CodeSet) (n : Nat) :
    (union a b).contains n = (a.contains n || b.contains n) := rfl

@[simp] theorem contains_diff (a b : CodeSet) (n : Nat) :
    (diff a b).contains n = (a.contains n && !b.contains n) := rfl

@[simp] theorem contains_compl (a : CodeSet) (n : Nat) :
    (compl a).contains n = !a.contains n := rfl

/-- The set without code points. -/
def empty : CodeSet := ranges []

/-- The set of one code point. -/
def single (n : Nat) : CodeSet := ranges [(n, n)]

theorem contains_single (n m : Nat) : (single n).contains m = (m == n) := by
  rw [Bool.eq_iff_iff, beq_iff_eq]
  simp [single, inRanges]
  omega

/-- What is in one of several sets. -/
def unionOf : List CodeSet → CodeSet
  | [] => empty
  | [a] => a
  | a :: as => union a (unionOf as)

theorem contains_unionOf (as : List CodeSet) (n : Nat) :
    (unionOf as).contains n = as.any (·.contains n) := by
  induction as with
  | nil => rfl
  | cons a as ih =>
    cases as with
    | nil => simp [unionOf]
    | cons b bs => simp [unionOf, ← ih]

/-- The set itself, or its complement. -/
def select (a : CodeSet) (negated : Bool) : CodeSet := if negated then compl a else a

theorem contains_select (a : CodeSet) (negated : Bool) (n : Nat) :
    (a.select negated).contains n = (a.contains n != negated) := by
  cases negated <;> simp [select]

end CodeSet

end ExtensibleRegex
