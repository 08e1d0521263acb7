import ExtensibleRegex.Native.Parser

/-!
# Matching

The meaning of a pattern's tree. `Node.run` takes a node, the direction in which text is read, and
what is to follow (`k`, the rest of the match); it tries the ways through the node in their order
and answers the first one that `k` accepts. Everything is structural: a node calls its parts, and
a loop is bounded by the text that is left, since a round that adds nothing is not taken.

* `Node.run_seq` says that a sequence is one part followed by the other, in reading order. The
  definition takes a shorter way when the part read first is direct, which `run_of_isDirect`
  justifies.
* `Program.searchFrom` tries one place after another, so its answer is the leftmost match.
-/

namespace ExtensibleRegex.Native

/-! ## 1. Tracks -/

/-- The direction in which text is read: backwards inside of lookbehinds. -/
inductive Direction where
  | forward
  | backward
  deriving DecidableEq, Repr

namespace Direction

/-- The next character in a direction, and the place after it. -/
def next? : Direction → Place → Option (Char × Place)
  | forward, p => p.next?
  | backward, p => p.prev?

/-- The text left to read in a direction. -/
def remaining : Direction → Place → Text
  | forward, p => p.ahead
  | backward, p => p.behind

/-- The span between the place where reading began and the place where it ended. -/
def span : Direction → Place → Place → Span
  | forward, p, q => ⟨p, q⟩
  | backward, p, q => ⟨q, p⟩

end Direction

/-- How far a match has come: its place, and the groups that took part, latest first. -/
structure Track where
  place : Place
  groups : List (Nat × Span)
  deriving DecidableEq

namespace Track

/-- Unsets the groups of a range. -/
def forget (t : Track) (r : GroupRange) : Track :=
  if r.count = 0 then t else { t with groups := t.groups.filter fun g => !r.holds g.1 }

/-- Sets a group. -/
def record (t : Track) (group : Nat) (s : Span) : Track :=
  { t with groups := (group, s) :: t.groups }

end Track

/-- What is to follow: it accepts a track or refuses it. -/
abbrev Continuation := Track → Option Track

/-! ## 2. Leaves -/

/-- Reads one character that the atom admits. -/
def Atom.step (a : Atom) (d : Direction) (t : Track) : Option Track :=
  match d.next? t.place with
  | some (c, p) => if a.admits c then some { t with place := p } else none
  | none => none

/-- Whether a character belongs to a word. -/
def isWordChar (c : Char) : Bool := Shorthand.word.members.contains c.toNat

/-- Whether a place is the start of the text or of a line. -/
def atStart (lines : Bool) (p : Place) : Bool :=
  match p.behind with
  | [] => true
  | c :: _ => lines && isLineEnd c

/-- Whether a place is the end of the text or of a line. -/
def atStop (lines : Bool) (p : Place) : Bool :=
  match p.ahead with
  | [] => true
  | c :: _ => lines && isLineEnd c

/-- Whether a word begins or ends at a place. -/
def atBoundary (p : Place) : Bool :=
  p.behind.head?.any isWordChar != p.ahead.head?.any isWordChar

/-- Whether two characters are the same, or the same but for case. -/
def sameChar (ignoreCase : Bool) (c d : Char) : Bool :=
  if ignoreCase then foldCase c.toNat == foldCase d.toNat else c == d

/-- Reads the given characters one after another. -/
def readText (d : Direction) (ignoreCase : Bool) : Text → Place → Option Place
  | [], p => some p
  | c :: cs, p =>
    match d.next? p with
    | some (c', q) => if sameChar ignoreCase c c' then readText d ignoreCase cs q else none
    | none => none

/-- Reads what a group matched last. A group that took no part stands for the empty text. -/
def readGroup (d : Direction) (group : Nat) (ignoreCase : Bool) (t : Track) : Option Track :=
  match t.groups.lookup group with
  | none => some t
  | some s =>
    let cs := match d with
      | .forward => s.text
      | .backward => s.text.reverse
    match readText d ignoreCase cs t.place with
    | some p => some { t with place := p }
    | none => none

/-! ## 3. Direct nodes -/

/-- The one path through a direct node. -/
def Node.walk : Node → Direction → Track → Option Track
  | .empty, _, t => some t
  | .atom a, d, t => a.step d t
  | .start lines, _, t => if atStart lines t.place then some t else none
  | .stop lines, _, t => if atStop lines t.place then some t else none
  | .boundary negated, _, t => if atBoundary t.place != negated then some t else none
  | .backref g ignoreCase, d, t => readGroup d g ignoreCase t
  | .seq a b, .forward, t =>
    match a.walk .forward t with
    | some u => b.walk .forward u
    | none => none
  | .seq a b, .backward, t =>
    match b.walk .backward t with
    | some u => a.walk .backward u
    | none => none
  | .alt _ _, _, _ => none
  | .group i body, d, t =>
    match body.walk d t with
    | some u => some (u.record i (d.span t.place u.place))
    | none => none
  | .look _ _ _, _, _ => none
  | .loop _ _ _ _ _, _, _ => none

/-! ## 4. Loops -/

/-- The rounds that a loop has to take. -/
def requiredRounds (round : Continuation → Continuation) (k : Continuation) : Nat → Continuation
  | 0, t => k t
  | n + 1, t => round (requiredRounds round k n) t

/-- The rounds that a loop may take, at most `max` of them: as many as possible first when it is
greedy, as few as possible when it is lazy. A round that reads nothing is not taken, so the text
that is left bounds their number. -/
def optionalRounds (round : Continuation → Continuation) (greedy : Bool) (k : Continuation) :
    Text → Option Nat → Continuation
  | [], _, t => k t
  | _ :: left, max, t =>
    if max = some 0 then k t
    else if greedy then
      match round (fun u => if u.place.index = t.place.index then none
          else optionalRounds round greedy k left (max.map (· - 1)) u) t with
      | some u => some u
      | none => k t
    else
      match k t with
      | some u => some u
      | none => round (fun u => if u.place.index = t.place.index then none
          else optionalRounds round greedy k left (max.map (· - 1)) u) t

/-! ## 5. All nodes -/

/-- The first way through a node whose track the continuation accepts. -/
def Node.run : Node → Direction → Continuation → Continuation
  | .empty, _, k, t => k t
  | .atom a, d, k, t =>
    match a.step d t with
    | some u => k u
    | none => none
  | .start lines, _, k, t => if atStart lines t.place then k t else none
  | .stop lines, _, k, t => if atStop lines t.place then k t else none
  | .boundary negated, _, k, t => if atBoundary t.place != negated then k t else none
  | .backref g ignoreCase, d, k, t =>
    match readGroup d g ignoreCase t with
    | some u => k u
    | none => none
  | .seq a b, .forward, k, t =>
    if a.isDirect then
      match a.walk .forward t with
      | some u => b.run .forward k u
      | none => none
    else a.run .forward (b.run .forward k) t
  | .seq a b, .backward, k, t =>
    if b.isDirect then
      match b.walk .backward t with
      | some u => a.run .backward k u
      | none => none
    else b.run .backward (a.run .backward k) t
  | .alt a b, d, k, t =>
    match a.run d k t with
    | some u => some u
    | none => b.run d k t
  | .group i body, d, k, t =>
    body.run d (fun u => k (u.record i (d.span t.place u.place))) t
  | .look behind negated body, _, k, t =>
    match body.run (if behind then .backward else .forward) some t with
    | some u => if negated then none else k { t with groups := u.groups }
    | none => if negated then k t else none
  | .loop body min max greedy groups, d, k, t =>
    requiredRounds (fun k u => body.run d k (u.forget groups))
      (fun u => optionalRounds (fun k u => body.run d k (u.forget groups)) greedy k
        (d.remaining u.place) (max.map (· - min)) u)
      min t

/-- A direct node has one path, and what follows decides on it. -/
theorem Node.run_of_isDirect (n : Node) (d : Direction) (k : Continuation) (t : Track)
    (h : n.isDirect = true) : n.run d k t = (n.walk d t).bind k := by
  induction n generalizing d k t with
  | empty => rfl
  | atom a => simp only [run, walk]; cases a.step d t <;> rfl
  | start lines => simp only [run, walk]; split <;> rfl
  | stop lines => simp only [run, walk]; split <;> rfl
  | boundary negated => simp only [run, walk]; split <;> rfl
  | backref g ignoreCase =>
    simp only [run, walk]; cases readGroup d g ignoreCase t <;> rfl
  | seq a b iha ihb =>
    simp only [isDirect, Bool.and_eq_true] at h
    cases d with
    | forward =>
      simp only [run, walk, h.1, if_true]
      cases a.walk .forward t with
      | none => rfl
      | some u => exact ihb .forward k u h.2
    | backward =>
      simp only [run, walk, h.2, if_true]
      cases b.walk .backward t with
      | none => rfl
      | some u => exact iha .backward k u h.1
  | alt a b => simp [isDirect] at h
  | group i body ih =>
    simp only [run, walk]
    rw [ih d _ t h]
    cases body.walk d t <;> rfl
  | look behind negated body => simp [isDirect] at h
  | loop body min max greedy groups => simp [isDirect] at h

/-- Reading forward, a sequence is its first part followed by its second. -/
theorem Node.run_seq_forward (a b : Node) (k : Continuation) (t : Track) :
    (Node.seq a b).run .forward k t = a.run .forward (b.run .forward k) t := by
  simp only [run]
  split
  · rename_i h
    rw [run_of_isDirect a _ _ _ h]
    cases a.walk .forward t <;> rfl
  · rfl

/-- Reading backward, a sequence is its second part followed by its first. -/
theorem Node.run_seq_backward (a b : Node) (k : Continuation) (t : Track) :
    (Node.seq a b).run .backward k t = b.run .backward (a.run .backward k) t := by
  simp only [run]
  split
  · rename_i h
    rw [run_of_isDirect b _ _ _ h]
    cases b.walk .backward t <;> rfl
  · rfl

/-! ## 6. Searching -/

/-- A match: the span of all of it, and of each group that took part. -/
structure Found where
  whole : Span
  groups : List (Option Span)
  deriving DecidableEq

/-- The groups from `1` to `count`, read off a track. -/
def groupSpans (count : Nat) (groups : List (Nat × Span)) : List (Option Span) :=
  (groups.foldr (fun g spans => spans.setIfInBounds (g.1 - 1) (some g.2))
    (Array.replicate count none)).toList

/-- The match at exactly a place. -/
def Program.matchAt? (p : Program) (place : Place) : Option Found :=
  match p.node.run .forward some ⟨place, []⟩ with
  | some t => some ⟨⟨place, t.place⟩, groupSpans p.groups t.groups⟩
  | none => none

/-- The match at the first place that has one, from a place on. The text ahead bounds the
search. -/
def Program.searchFrom (p : Program) : (left : Text) → Place → Option Found
  | [], place => p.matchAt? place
  | _ :: left, place =>
    match p.matchAt? place with
    | some f => some f
    | none =>
      match place.next? with
      | some (_, next) => searchFrom p left next
      | none => none

/-- The leftmost match that starts at a place or after it. -/
def Program.search? (p : Program) (place : Place) : Option Found :=
  p.searchFrom place.ahead place

end ExtensibleRegex.Native
