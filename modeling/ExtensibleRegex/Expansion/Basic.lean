import ExtensibleRegex.Expansion.Verbatim

/-!
# Expanding patterns

A pattern of a dialect is expanded into a native one in steps. A step looks at one place of the
pattern: the first token that matches there decides, and where no token matches a native token is
copied. What a token writes goes to the output or, if the token says so, back into the pattern in
place of its match, to be read again.

The state of the run holds the pattern as a `Place`, so no step can leave the pattern or cut a
character: what has been read lies behind, what is still to read lies ahead, and a step that
writes back exchanges the text ahead.

At one place at most `maxRounds` steps in a row may write back. A token that writes back can still
make the pattern longer for ever, and such a run has no end: `Run.finish?` is what a run comes to,
if it comes to an end.
-/

namespace ExtensibleRegex

/-! ## 1. Results -/

/-- A native pattern with what is needed to use it. -/
structure Expansion where
  pattern : Text
  flags : NativeFlags
  /-- The names of the groups, when there is a named one. -/
  names : Option GroupNames
  deriving DecidableEq, Repr

/-- How often the handler of each token has been called, by the serial number of the token. -/
abbrev Tally := Array Nat

/-- Counts a call of the token with a serial number: the number of the call, and the new tally. -/
def Tally.count (tally : Tally) (serial : Nat) : Nat × Tally :=
  let call := tally.getD serial 0 + 1
  let padded := if serial < tally.size then tally
    else tally ++ Array.replicate (serial + 1 - tally.size) 0
  (call, padded.setIfInBounds serial call)

/-- What calls of handlers leave for later ones: how many there have been, and the table of
properties with what has been derived from it. -/
structure Memory where
  tally : Tally
  properties : PropertyTable

/-! ## 2. Steps -/

/-- What stays the same during a run. -/
structure RunSetting where
  /-- The tokens, those that go first in front. -/
  tokens : List Token
  flags : Text

/-- How far a run has come. -/
structure Run where
  /-- The place in the pattern. -/
  place : Place
  scope : Scope
  /-- How many steps in a row have written back at this place. -/
  rounds : Nat
  /-- What has been written, latest first. -/
  output : List Text
  ledger : Ledger
  /-- The features that handlers see. -/
  features : Features
  memory : Memory

/-- How many steps in a row may write back at one place. -/
def maxRounds : Nat := 256

/-- What a step leads to. -/
inductive Outcome where
  | running (r : Run)
  | finished (r : Run)
  | failed (e : Error) (memory : Memory)

namespace Run

/-- The start of a run. -/
def initial (pattern : Text) (features : Features) (memory : Memory) : Run :=
  ⟨.first pattern, .pattern, 0, [], .empty, features, memory⟩

/-- Writes a text and goes on at a place. -/
def write (r : Run) (t : Text) (next : Place) : Run :=
  { r with output := t :: r.output, place := next, rounds := 0 }

/-- The scope after a native token: a bracket opens or closes a class. -/
def scopeAfter (scope : Scope) (token : Text) : Scope :=
  match scope, token with
  | .pattern, ['['] => .charClass
  | .charClass, [']'] => .pattern
  | scope, _ => scope

/-- Copies the native token at the place. -/
def copy (r : Run) : Run :=
  let n := verbatimLength r.scope r.place.ahead
  let token := r.place.ahead.take n
  { r.write token (r.place.advance n) with scope := scopeAfter r.scope token }

/-- Takes in what a token's handler wrote for a match. -/
def accept (r : Run) (token : Token) (found : Captures) (written : Text) : Outcome :=
  if token.reparse then
    if r.rounds < maxRounds then
      .running { r with
        place := r.place.withAhead (written ++ found.whole.stop.ahead)
        rounds := r.rounds + 1 }
    else .failed (.unsettled r.place.offset) r.memory
  else
    let next := if found.whole.isEmpty then r.place.advance 1 else found.whole.stop
    .running (r.write written next)

/-- One step. -/
def step (s : RunSetting) (r : Run) : Outcome :=
  if r.rounds = 0 ∧ r.place.atEnd then .finished r
  else
    match firstToken? s.tokens r.place r.scope s.flags with
    | some (token, found) =>
      let (call, tally) := r.memory.tally.count token.serial
      let inv : Invocation :=
        ⟨found, r.scope, s.flags, call, ⟨r.features, r.memory.properties⟩⟩
      let memory : Memory := ⟨tally, token.note inv⟩
      match token.handler inv r.ledger with
      | .ok (written, ledger) =>
        { r with ledger, features := token.switch inv r.ledger, memory }.accept token found written
      | .error e => .failed e memory
    | none => if r.place.atEnd then .finished r else .running r.copy

/-- Up to `limit` steps, and what they lead to. -/
def steps (s : RunSetting) : (limit : Nat) → Run → Outcome
  | 0, r => .running r
  | limit + 1, r =>
    match r.step s with
    | .running r' => steps s limit r'
    | outcome => outcome

/-- All steps, and what they lead to. A run that goes on for ever leads to nothing. -/
def finish? (s : RunSetting) (r : Run) : Option Outcome :=
  match r.step s with
  | .running r' => by
    -- called by a step, for a call written out would carry its place in the file
    apply finish?
    · exact s
    · exact r'
  | outcome => some outcome
partial_fixpoint

/-- What some number of steps leads to is what all of them lead to. -/
theorem finish?_of_steps {s : RunSetting} {o : Outcome} (ho : ∀ r, o ≠ .running r) :
    ∀ (limit : Nat) (r : Run), r.steps s limit = o → r.finish? s = some o
  | 0, r, h => absurd h.symm (ho r)
  | limit + 1, r, h => by
    unfold steps at h
    rw [finish?]
    cases hstep : r.step s with
    | running r' =>
      rw [hstep] at h
      exact finish?_of_steps ho limit r' h
    | finished r' =>
      rw [hstep] at h
      exact congrArg some h
    | failed e memory =>
      rw [hstep] at h
      exact congrArg some h

theorem finish?_of_finished {s : RunSetting} {limit : Nat} {r r' : Run}
    (h : r.steps s limit = .finished r') : r.finish? s = some (.finished r') :=
  finish?_of_steps (fun _ ho => by cases ho) limit r h

theorem finish?_of_failed {s : RunSetting} {limit : Nat} {r : Run} {e : Error} {memory : Memory}
    (h : r.steps s limit = .failed e memory) : r.finish? s = some (.failed e memory) :=
  finish?_of_steps (fun _ ho => by cases ho) limit r h

/-- What all steps lead to is an end of the run, reached after some number of them. -/
theorem exists_steps_of_finish? {s : RunSetting} {r : Run} {o : Outcome} (h : r.finish? s = some o) :
    (∀ r', o ≠ .running r') ∧ ∃ limit, r.steps s limit = o := by
  refine finish?.partial_correctness s
    (fun r o => (∀ r', o ≠ .running r') ∧ ∃ limit, r.steps s limit = o) ?_ r o h
  intro finish ih r o h
  cases hstep : r.step s with
  | running r' =>
    rw [hstep] at h
    obtain ⟨ho, limit, hlimit⟩ := ih r' o h
    refine ⟨ho, limit + 1, ?_⟩
    unfold steps
    rw [hstep]
    exact hlimit
  | finished r' =>
    rw [hstep] at h
    cases h
    refine ⟨nofun, 1, ?_⟩
    unfold steps
    rw [hstep]
  | failed e memory =>
    rw [hstep] at h
    cases h
    refine ⟨nofun, 1, ?_⟩
    unfold steps
    rw [hstep]

/-- The native pattern that a finished run has written. -/
def expansion (flags : Text) (r : Run) : Expansion where
  pattern := mergeEmptyGroups r.output.reverse.flatten
  flags :=
    let f := NativeFlags.ofText flags
    { f with unicode := f.unicode || flags.contains 'A' }
  names := r.ledger.groupNames?

end Run

/-! ## 3. Whole runs -/

/-- Expands a prepared pattern. The memory goes on from one expansion to the next, also from one
that fails. A run without an end is told apart from one that fails. -/
def expand (tokens : List Token) (features : Features) (prepared : Prepared) (memory : Memory) :
    Except Error Expansion × Memory :=
  match Run.finish? ⟨tokens, prepared.flags⟩ (.initial prepared.pattern features memory) with
  | some (.finished r) => (.ok (r.expansion prepared.flags), r.memory)
  | some (.failed e memory) => (.error e, memory)
  | _ => (.error .endless, memory)

end ExtensibleRegex
