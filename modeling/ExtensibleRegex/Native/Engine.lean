import ExtensibleRegex.Native.Matcher

/-!
# The engine

An `Engine` is a native pattern ready for matching. Beside the program of the pattern itself it
holds that of the pattern with an empty group as a last alternative: a search with it always ends
at the place where it starts, and the empty group takes part only when the pattern has no match
there. That gives the search for a match at exactly a place. The second program is missing when
the pattern already has as many groups as there may be; the leftmost match then decides.
-/

namespace ExtensibleRegex.Native

/-! ## 1. Engines -/

/-- A pattern with an empty group as its last alternative. -/
def withEmptyGroup (source : Text) : Text := source ++ ['|', '(', ')']

/-- A well-formed native pattern with its programs. -/
structure Engine where
  source : Text
  mode : Mode
  program : Program
  /-- The program of the pattern with an empty group as its last alternative. -/
  anchored : Option Program
  program_eq : Program.ofSource? source mode = some program
  anchored_eq : anchored = Program.ofSource? (withEmptyGroup source) mode

namespace Engine

/-- The engine of a pattern. -/
def ofSource (source : Text) (mode : Mode) : Except Error Engine :=
  match h : Program.ofSource? source mode with
  | some program => .ok ⟨source, mode, program, _, h, rfl⟩
  | none => .error .rejected

/-- The leftmost match that starts at a place or after it. -/
def search? (e : Engine) (p : Place) : Option Found := e.program.search? p

/-- The match at exactly a place. -/
def searchAt? (e : Engine) (p : Place) : Option Found :=
  match e.anchored with
  | some program =>
    match program.search? p with
    | some f =>
      match f.groups.getLast? with
      | some none => some { f with groups := f.groups.dropLast }
      | _ => none
    | none => none
  | none =>
    match e.program.search? p with
    | some f => if f.whole.start.index = p.index then some f else none
    | none => none

end Engine

/-! ## 2. Counting groups in the text -/

/-- Whether the text after a parenthesis makes it capture. -/
def opensCapture : Text → Bool
  | '?' :: '<' :: '=' :: _ => false
  | '?' :: '<' :: '!' :: _ => false
  | '?' :: '<' :: _ => true
  | '?' :: _ => false
  | _ => true

/-- Adds to `count` the parentheses of a text that capture. Escapes and classes hold none. -/
def countGroupsFrom : (count : Nat) → (inClass : Bool) → Text → Nat
  | count, _, [] => count
  | count, _, ['\\'] => count
  | count, inClass, '\\' :: _ :: rest => countGroupsFrom count inClass rest
  | count, inClass, c :: rest =>
    if c = '[' && !inClass then countGroupsFrom count true rest
    else if c = ']' && inClass then countGroupsFrom count false rest
    else if c = '(' && !inClass && opensCapture rest then countGroupsFrom (count + 1) inClass rest
    else countGroupsFrom count inClass rest

/-- The number of capturing groups of a pattern, read off its text. -/
def countGroups (source : Text) : Nat := countGroupsFrom 0 false source

end ExtensibleRegex.Native
