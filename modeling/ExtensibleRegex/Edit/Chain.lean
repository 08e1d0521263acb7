import ExtensibleRegex.Regex.Search

/-!
# Chains of matches

A chain feeds the matches of each regex into the next one: every link finds all matches in each of
the values before it, and passes on a group of them or the whole match. The values of the last link
that ran are the answer; a link that finds nothing ends the chain.
-/

namespace ExtensibleRegex

/-- Which group a link passes on. -/
inductive GroupChoice where
  | number (n : Nat)
  | name (name : Text)
  deriving DecidableEq, Repr

/-- One link of a chain. -/
structure Link where
  regex : Regex
  choice : Option GroupChoice

/-- The value that a match passes on. -/
def selectGroup (choice : Option GroupChoice) (c : Captures) : Except Error Text :=
  match choice with
  | none => .ok c.text
  | some (.number n) =>
    if n ≤ c.groups.length then .ok (c.textOf n)
    else .error (.undefinedChainGroup (decimalText n))
  | some (.name name) =>
    match c.indexOf? name with
    | some i => .ok (c.textOf i)
    | none => .error (.undefinedChainGroup name)

/-- The values that a link makes of a value. -/
def Link.values (link : Link) (text : Text) : Except Error (List Text) :=
  (link.regex.allMatches text).mapM (selectGroup link.choice)

/-- The values that a link makes of several, in order. -/
def Link.valuesOfAll (link : Link) (texts : List Text) : Except Error (List Text) := do
  let values ← texts.mapM link.values
  return values.flatten

/-- Runs the links on some values, and tells how many of them ran. -/
def runLinks : List Link → List Text → Except Error (List Text) × Nat
  | [], values => (.ok values, 0)
  | link :: links, values =>
    match link.valuesOfAll values with
    | .error e => (.error e, 1)
    | .ok [] => (.ok [], 1)
    | .ok (v :: vs) =>
      let (result, ran) := runLinks links (v :: vs)
      (result, ran + 1)

/-- The values of a chain of links on a text, and how many of the links ran. Each link that ran
visited all matches of its regex. -/
def runChain (links : List Link) (text : Text) : Except Error (List Text) × Nat :=
  match links with
  | [] => (.error .emptyChain, 0)
  | links => runLinks links [text]

end ExtensibleRegex
