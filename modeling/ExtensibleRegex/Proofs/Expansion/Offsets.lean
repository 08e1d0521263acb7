import ExtensibleRegex.Proofs.Expansion.ByteLengths
import ExtensibleRegex.Proofs.Expansion.Ending
import ExtensibleRegex.Proofs.Regex.Iteration
import Mathlib.Tactic

/-!
# Runs by offsets

A run has a place in its pattern, which lies between two characters whatever the run does. Here the same
run is made with nothing but a number for its place, the offset in bytes, and with slices that fail
where they leave the pattern or part a character (`OffsetRun.step?`). Handlers exchange the pattern under
the offset, lengths are measured on bytes, and behind an empty match at the end of the pattern the offset
lies past the end.

* A step by offsets does what a step does (`OffsetRun.follows_step`), so that no slice of a run ever fails
  (`OffsetRun.follows_steps`).
* Every range that is sliced or exchanged lies between boundaries of characters, and what is copied is not
  empty (`OffsetRun.inPattern_atOffset`).
* The offset grows from each round at an offset to the next one (`OffsetRun.pos_of_steps?`).

`OffsetRun.never_leaves_pattern` puts them together.
-/

namespace ExtensibleRegex

/-! ## 1. Steps by offsets -/

/-- How far a run by offsets has come. -/
structure OffsetRun where
  pattern : Text
  /-- The offset in the pattern. -/
  pos : Nat
  scope : Scope
  /-- How many steps in a row have written back at this offset. -/
  rounds : Nat
  /-- What has been written, latest first. -/
  output : List Text
  ledger : Ledger
  features : Features
  memory : Memory

namespace OffsetRun

/-- What a step by offsets leads to. -/
inductive Outcome where
  | running (b : OffsetRun)
  | finished (b : OffsetRun)
  | failed (e : Error) (memory : Memory)

/-- The start of a run by offsets. -/
def initial (pattern : Text) (features : Features) (memory : Memory) : OffsetRun :=
  ⟨pattern, 0, .pattern, 0, [], .empty, features, memory⟩

/-- Whether the pattern has been read. This is asked where no step before has written back. -/
def IsOver (b : OffsetRun) : Prop := b.rounds = 0 ∧ byteLength b.pattern ≤ b.pos

instance (b : OffsetRun) : Decidable b.IsOver := inferInstanceAs (Decidable (_ ∧ _))

/-- The first token with a match at the offset, and the match. -/
def token? (s : RunSetting) (b : OffsetRun) : Option (Option (Token × Captures)) := do
  let rest ← sliceFrom? b.pattern b.pos
  return s.tokens.findSome? fun t =>
    if t.applies (.first rest) b.scope s.flags then
      (t.trigger.searchFrom? b.pattern b.pos true).map fun found => (t, found)
    else none

/-- The length of a match. -/
def matchBytes? (b : OffsetRun) (found : Captures) : Option Nat :=
  (slice? b.pattern found.whole.start.offset found.whole.stop.offset).map byteLength

/-- Takes in what a token's handler wrote for a match. -/
def accept? (b : OffsetRun) (token : Token) (found : Captures) (written : Text) : Option Outcome := do
  let length ← b.matchBytes? found
  if token.reparse then
    if b.rounds < maxRounds then
      let pattern ← replaceRange? b.pattern b.pos (b.pos + length) written
      return .running { b with pattern, rounds := b.rounds + 1 }
    else return .failed (.unsettled b.pos) b.memory
  else
    let width ← if 0 < length then some length else (sliceFrom? b.pattern b.pos).map (firstBytes 1)
    return .running { b with output := written :: b.output, pos := b.pos + width, rounds := 0 }

/-- Copies the native token at the offset. -/
def copy? (b : OffsetRun) : Option OffsetRun := do
  let length ← nativeBytes? b.scope b.pattern b.pos
  let token ← slice? b.pattern b.pos (b.pos + length)
  return { b with
    output := token :: b.output
    pos := b.pos + length
    rounds := 0
    scope := Run.scopeAfter b.scope token }

/-- One step by offsets. It has no outcome where a slice fails. -/
def step? (s : RunSetting) (b : OffsetRun) : Option Outcome :=
  if b.IsOver then some (.finished b)
  else
    match b.token? s with
    | some (some (token, found)) =>
      let (call, tally) := b.memory.tally.count token.serial
      let inv : Invocation :=
        ⟨found, b.scope, s.flags, call, ⟨b.features, b.memory.properties⟩⟩
      let memory : Memory := ⟨tally, token.note inv⟩
      match token.handler inv b.ledger with
      | .ok (written, ledger) =>
        { b with ledger, features := token.switch inv b.ledger, memory }.accept? token found written
      | .error e => some (.failed e memory)
    | some none =>
      if byteLength b.pattern ≤ b.pos then some (.finished b) else b.copy?.map .running
    | none => none

/-- Up to `limit` steps by offsets, and what they lead to. -/
def steps? (s : RunSetting) : (limit : Nat) → OffsetRun → Option Outcome
  | 0, b => some (.running b)
  | limit + 1, b =>
    match b.step? s with
    | some (.running b') => steps? s limit b'
    | outcome => outcome

end OffsetRun

/-! ## 2. Places as offsets -/

namespace Place

variable {p q : Place} {w : Text}

theorem byteLength_text (p : Place) : byteLength p.text = p.offset + byteLength p.ahead := by
  rw [text_eq, byteLength_append, byteLength_reverse, p.offset_eq]

theorem byteLength_le_offset_iff (p : Place) : byteLength p.text ≤ p.offset ↔ p.ahead = [] := by
  rw [byteLength_text]
  constructor
  · intro h
    cases hahead : p.ahead with
    | nil => rfl
    | cons c cs =>
      have hpos := c.utf8Size_pos
      rw [hahead, byteLength_cons] at h
      omega
  · intro h
    rw [h, byteLength_nil, Nat.add_zero]

/-- What is left of a text is a range. -/
theorem isRange_to_end (p : Place) : IsRange p.text p.offset (byteLength p.text) := by
  have hrange := p.stretch_to_end.isRange
  rwa [p.stretch_to_end.offset_eq, ← byteLength_text] at hrange

end Place

namespace Run

/-- A run with its place as an offset. -/
def atOffset (r : Run) : OffsetRun :=
  ⟨r.place.text, r.place.offset, r.scope, r.rounds, r.output, r.ledger, r.features, r.memory⟩

end Run

namespace OffsetRun

/-- A run by offsets has come as far as a run: its offset is that of the place or, where the pattern has
been read, one more. -/
inductive Follows : OffsetRun → Run → Prop
  | placed (r : Run) : Follows r.atOffset r
  | past {r : Run} (rounds : r.rounds = 0) (ahead : r.place.ahead = []) :
      Follows { r.atOffset with pos := r.place.offset + 1 } r

/-- The outcome of a step by offsets is that of a step. -/
inductive Outcome.Follows : Outcome → ExtensibleRegex.Outcome → Prop
  | running {b : OffsetRun} {r : Run} (h : b.Follows r) : Follows (.running b) (.running r)
  | finished {b : OffsetRun} {r : Run} (h : b.Follows r) : Follows (.finished b) (.finished r)
  | failed (e : Error) (memory : Memory) : Follows (.failed e memory) (.failed e memory)

/-- What a step does to the offset unless it ends the run: it writes back, and the offset stays, or the
offset grows. -/
def Outcome.Advances (b : OffsetRun) : Outcome → Prop
  | .running b' => b'.rounds = b.rounds + 1 ∧ b'.pos = b.pos ∨ b'.rounds = 0 ∧ b.pos < b'.pos
  | _ => True

/-! ## 3. One step -/

variable {s : RunSetting} {r : Run}

/-- The token at an offset is the one at the place. -/
theorem token?_atOffset (s : RunSetting) (r : Run) :
    r.atOffset.token? s = some (firstToken? s.tokens r.place r.scope s.flags) := by
  have hrest : sliceFrom? r.atOffset.pattern r.atOffset.pos = some r.place.ahead :=
    r.place.sliceFrom?_offset
  have hsearch (t : Token) : t.trigger.searchFrom? r.atOffset.pattern r.atOffset.pos true =
      t.trigger.searchAt? r.place true := by
    show t.trigger.searchFrom? r.place.text r.place.offset true = _
    rw [Regex.searchFrom?, r.place.atOffset?_offset]
  rw [token?, hrest]
  refine congrArg some (congrArg (List.findSome? · s.tokens) (funext fun t => ?_))
  rw [hsearch]
  show (if t.applies r.place r.scope s.flags then _ else none) = (if _ then _ else none : Option _).map _
  split <;> rfl

/-- A match of a trigger begins at the place. -/
theorem stretch_of_searchAt? {t : Token} {found : Captures}
    (h : t.trigger.searchAt? r.place true = some found) :
    found.whole.start = r.place ∧ r.place.Stretch found.text found.whole.stop := by
  obtain ⟨-, w, hw⟩ := Regex.stretch_of_searchAt? h
  obtain ⟨f, hf, rfl⟩ := Option.map_eq_some_iff.1 h
  have hstart : f.whole.start = r.place := Native.Engine.start_of_searchAt? hf
  have htext : f.whole.text = w := hw.text_span
  refine ⟨hstart, ?_⟩
  show r.place.Stretch f.whole.text f.whole.stop
  rw [htext, ← hstart]
  exact hw

theorem matchBytes?_atOffset {t : Token} {found : Captures}
    (h : t.trigger.searchAt? r.place true = some found) :
    r.atOffset.matchBytes? found = some (byteLength found.text) := by
  obtain ⟨hstart, hw⟩ := stretch_of_searchAt? h
  show (slice? r.place.text found.whole.start.offset found.whole.stop.offset).map byteLength = _
  rw [hstart, hw.slice?]
  rfl

/-- A run that writes and goes on behind a stretch is followed by going on so many bytes. -/
theorem follows_write {w : Text} {q : Place} (h : r.place.Stretch w q) (t : Text) (scope : Scope) :
    Follows ⟨r.place.text, r.place.offset + byteLength w, scope, 0, t :: r.output, r.ledger, r.features,
      r.memory⟩ { r.write t q with scope } := by
  rw [← h.offset_eq, ← h.text_eq]
  exact .placed { r.write t q with scope }

/-- **A match is taken in by offsets** as it is at the place. -/
theorem accept?_atOffset {token : Token} {found : Captures}
    (h : token.trigger.searchAt? r.place true = some found) (written : Text) :
    ∃ o, r.atOffset.accept? token found written = some o ∧ o.Follows (r.accept token found written) ∧
      o.Advances r.atOffset := by
  obtain ⟨hstart, hw⟩ := stretch_of_searchAt? h
  have hstop : r.place.offset + byteLength found.text = found.whole.stop.offset := hw.offset_eq.symm
  rw [accept?, matchBytes?_atOffset h, Run.accept]
  simp only [Run.atOffset, Option.bind_eq_bind, Option.bind_some, Option.pure_def]
  by_cases hreparse : token.reparse = true
  · rw [if_pos hreparse, if_pos hreparse]
    by_cases hrounds : r.rounds < maxRounds
    · simp only [hrounds, if_true, hstop, hw.replaceRange?]
      let back : Run := { r with
        place := r.place.withAhead (written ++ found.whole.stop.ahead)
        rounds := r.rounds + 1 }
      exact ⟨_, rfl, .running (.placed back), .inl ⟨rfl, rfl⟩⟩
    · simp only [hrounds, if_false]
      exact ⟨_, rfl, .failed _ _, trivial⟩
  rw [if_neg hreparse, if_neg hreparse]
  have hempty : found.whole.isEmpty = found.text.isEmpty := by
    have hspan := hw.isEmpty_span
    rw [← hstart] at hspan
    exact hspan
  rw [hempty]
  by_cases hnil : found.text = []
  · -- an empty match: the next character is passed over, or the offset leaves the pattern
    have hnext := r.place.stretch_advance 1
    rw [hnil, byteLength_nil, if_neg (Nat.lt_irrefl 0), if_pos List.isEmpty_nil, r.place.sliceFrom?_offset]
    cases hahead : r.place.ahead with
    | nil =>
      rw [hahead] at hnext
      rw [← hnext.eq_of_nil]
      have hpast : Follows _ (r.write written r.place) := .past rfl hahead
      exact ⟨_, rfl, .running hpast, .inr ⟨rfl, Nat.lt_succ_self _⟩⟩
    | cons c cs =>
      have hgrows := hnext.offset_lt (by rw [hahead]; exact List.cons_ne_nil c [])
      rw [hnext.offset_eq] at hgrows
      rw [Option.map_some, firstBytes_cons, ← hahead]
      exact ⟨_, rfl, .running (follows_write hnext written r.scope), .inr ⟨rfl, hgrows⟩⟩
  · have hgrows := hw.offset_lt hnil
    rw [if_pos (by omega), if_neg (by simpa using hnil)]
    exact ⟨_, rfl, .running (follows_write hw written r.scope), .inr ⟨rfl, hstop ▸ hgrows⟩⟩

/-- The native token at a place is measured on bytes. -/
theorem nativeBytes?_offset (scope : Scope) {p : Place} (hne : p.ahead ≠ []) :
    nativeBytes? scope p.text p.offset = some (byteLength (p.ahead.take (verbatimLength scope p.ahead))) := by
  obtain ⟨c, cs, hahead⟩ := List.exists_cons_of_ne_nil hne
  rw [p.text_eq, p.offset_eq, ← byteLength_reverse, hahead]
  exact nativeBytes?_eq scope p.behind.reverse c cs

/-- A native token is not empty. -/
theorem take_verbatimLength_ne_nil (scope : Scope) {t : Text} (hne : t ≠ []) :
    t.take (verbatimLength scope t) ≠ [] := by
  obtain ⟨c, cs, rfl⟩ := List.exists_cons_of_ne_nil hne
  have hpos := verbatimLength_pos scope c cs
  rw [Ne, List.take_eq_nil_iff]
  rintro (hzero | hnil)
  · omega
  · cases hnil

/-- **A native token is copied by offsets** as it is at the place. -/
theorem copy?_atOffset (hne : r.place.ahead ≠ []) :
    ∃ b, r.atOffset.copy? = some b ∧ b.Follows r.copy ∧ (Outcome.running b).Advances r.atOffset := by
  have htoken := r.place.stretch_advance (verbatimLength r.scope r.place.ahead)
  have hslice := htoken.slice?
  have hgrows := htoken.offset_lt (take_verbatimLength_ne_nil r.scope hne)
  rw [htoken.offset_eq] at hslice hgrows
  unfold copy?
  simp only [Run.atOffset, nativeBytes?_offset r.scope hne, hslice, Option.bind_eq_bind, Option.bind_some]
  exact ⟨_, rfl, follows_write htoken _ _, .inr ⟨rfl, hgrows⟩⟩

theorem isOver_atOffset (r : Run) : r.atOffset.IsOver ↔ r.rounds = 0 ∧ r.place.atEnd = true := by
  rw [Run.atEnd_iff, ← r.place.byteLength_le_offset_iff]
  rfl

/-- **A step by offsets does what a step does**, and no slice fails. -/
theorem follows_step {b : OffsetRun} (s : RunSetting) (h : b.Follows r) :
    ∃ o, b.step? s = some o ∧ o.Follows (r.step s) ∧ o.Advances b := by
  cases h with
  | past rounds ahead =>
    have hover : IsOver { r.atOffset with pos := r.place.offset + 1 } :=
      ⟨rounds, (r.place.byteLength_le_offset_iff.2 ahead).trans (Nat.le_succ _)⟩
    rw [step?, if_pos hover, Run.step, if_pos ⟨rounds, Run.atEnd_iff.2 ahead⟩]
    exact ⟨_, rfl, .finished (.past rounds ahead), trivial⟩
  | placed =>
    unfold step? Run.step
    by_cases hover : r.rounds = 0 ∧ r.place.atEnd = true
    · rw [if_pos hover, if_pos ((isOver_atOffset r).2 hover)]
      exact ⟨_, rfl, .finished (.placed r), trivial⟩
    rw [if_neg hover, if_neg (mt (isOver_atOffset r).1 hover), token?_atOffset]
    cases hfirst : firstToken? s.tokens r.place r.scope s.flags with
    | some entry =>
      obtain ⟨token, found⟩ := entry
      let inv : Invocation := ⟨found, r.scope, s.flags, (r.memory.tally.count token.serial).1,
        ⟨r.features, r.memory.properties⟩⟩
      let features := token.switch inv r.ledger
      let memory : Memory := ⟨(r.memory.tally.count token.serial).2, token.note inv⟩
      show ∃ o, (match token.handler inv r.ledger with
          | .ok (written, ledger) =>
            ({ r with ledger, features, memory } : Run).atOffset.accept? token found written
          | .error e => some (.failed e memory)) = some o ∧
        o.Follows (match token.handler inv r.ledger with
          | .ok (written, ledger) =>
            ({ r with ledger, features, memory } : Run).accept token found written
          | .error e => .failed e memory) ∧ o.Advances r.atOffset
      cases token.handler inv r.ledger with
      | error e => exact ⟨_, rfl, .failed e memory, trivial⟩
      | ok answer =>
        exact accept?_atOffset (r := { r with ledger := answer.2, features, memory })
          (mem_of_firstToken? hfirst).2 answer.1
    | none =>
      have hend : byteLength r.atOffset.pattern ≤ r.atOffset.pos ↔ r.place.atEnd = true := by
        rw [Run.atEnd_iff]
        exact r.place.byteLength_le_offset_iff
      by_cases hatEnd : r.place.atEnd = true
      · simp only [hend.2 hatEnd, hatEnd, if_true]
        exact ⟨_, rfl, .finished (.placed r), trivial⟩
      · obtain ⟨b, hb, hfollows, hadvances⟩ := copy?_atOffset (mt Run.atEnd_iff.2 hatEnd)
        simp only [mt hend.1 hatEnd, hatEnd, if_false, hb]
        exact ⟨_, rfl, .running hfollows, hadvances⟩

/-! ## 4. Ranges -/

/-- What a step slices and exchanges lies in the pattern, between boundaries of characters: what is left
of the pattern, the match of the token that is found, and the native token that is copied where none is
found, which is not empty. -/
structure InPattern (s : RunSetting) (b : OffsetRun) : Prop where
  rest : IsRange b.pattern b.pos (byteLength b.pattern)
  found : ∀ token found, b.token? s = some (some (token, found)) →
    IsRange b.pattern found.whole.start.offset found.whole.stop.offset ∧
    ∃ length, b.matchBytes? found = some length ∧ IsRange b.pattern b.pos (b.pos + length)
  copied : b.pos < byteLength b.pattern → ∃ length, nativeBytes? b.scope b.pattern b.pos = some length ∧
    0 < length ∧ IsRange b.pattern b.pos (b.pos + length)

/-- **The ranges of a run at a place lie in its pattern.** -/
theorem inPattern_atOffset (s : RunSetting) (r : Run) : r.atOffset.InPattern s where
  rest := r.place.isRange_to_end
  found token found h := by
    rw [token?_atOffset] at h
    have hfound := (mem_of_firstToken? (Option.some.inj h)).2
    obtain ⟨hstart, hw⟩ := stretch_of_searchAt? hfound
    have hrange : IsRange r.place.text r.place.offset found.whole.stop.offset := hw.isRange
    refine ⟨?_, byteLength found.text, matchBytes?_atOffset hfound, ?_⟩
    · rw [hstart]
      exact hrange
    · rw [hw.offset_eq] at hrange
      exact hrange
  copied h := by
    have hne : r.place.ahead ≠ [] := fun hnil =>
      absurd (r.place.byteLength_le_offset_iff.2 hnil) (Nat.not_le_of_lt h)
    have htoken := r.place.stretch_advance (verbatimLength r.scope r.place.ahead)
    have hgrows := htoken.offset_lt (take_verbatimLength_ne_nil r.scope hne)
    have hrange := htoken.isRange
    rw [htoken.offset_eq] at hgrows hrange
    exact ⟨_, nativeBytes?_offset r.scope hne, by omega, hrange⟩

/-! ## 5. Runs -/

/-- **A run by offsets does what a run does**: no slice of it fails. -/
theorem follows_steps (s : RunSetting) : ∀ (n : Nat) {b : OffsetRun} {r : Run}, b.Follows r →
    ∃ o, b.steps? s n = some o ∧ o.Follows (r.steps s n)
  | 0, b, r, h => ⟨.running b, rfl, .running h⟩
  | n + 1, b, r, h => by
      obtain ⟨o, ho, hfollows, -⟩ := follows_step s h
      rw [steps?, ho, Run.steps]
      generalize r.step s = o' at hfollows
      cases hfollows with
      | running h => exact follows_steps s n h
      | finished h => exact ⟨_, rfl, .finished h⟩
      | failed e memory => exact ⟨_, rfl, .failed e memory⟩

/-- **The offset never goes back, and it has grown where a round begins.** -/
theorem pos_of_steps? (s : RunSetting) : ∀ (n : Nat) {b b' : OffsetRun} {r : Run}, b.Follows r →
    b.steps? s n = some (.running b') → b.pos ≤ b'.pos ∧ (0 < n → b'.rounds = 0 → b.pos < b'.pos)
  | 0, b, b', _, _, hsteps => by
      cases hsteps
      exact ⟨Nat.le_refl _, fun h => absurd h (Nat.lt_irrefl 0)⟩
  | n + 1, b, b', r, h, hsteps => by
      obtain ⟨o, ho, hfollows, hadvances⟩ := follows_step s h
      rw [steps?, ho] at hsteps
      generalize r.step s = o' at hfollows
      cases hfollows with
      | @running c r' hc =>
        obtain ⟨hle, hlt⟩ := pos_of_steps? s n hc hsteps
        rcases hadvances with ⟨hrounds, hpos⟩ | ⟨-, hpos⟩
        · refine ⟨hpos ▸ hle, fun _ hzero => ?_⟩
          cases n with
          | zero =>
            -- the only step has written back, so that no round begins behind it
            cases hsteps
            omega
          | succ n => exact hpos ▸ hlt (Nat.succ_pos n) hzero
        · exact ⟨hpos.le.trans hle, fun _ _ => hpos.trans_le hle⟩
      | finished h => cases hsteps
      | failed e memory => cases hsteps

theorem initial_follows (pattern : Text) (features : Features) (memory : Memory) :
    (initial pattern features memory).Follows (.initial pattern features memory) :=
  .placed (.initial pattern features memory)

/-- **A run never leaves its pattern**, whatever its tokens match and write. Made by offsets, it comes
after so many steps to what it comes to at places, so that no slice has failed. As long as the pattern has
not been read, all that the next step slices and exchanges lies in the pattern, between boundaries of
characters, also where handlers have left nothing ahead of the offset. And from each round at an offset
to a later one the offset grows. -/
theorem never_leaves_pattern (s : RunSetting) (pattern : Text) (features : Features) (memory : Memory)
    (n : Nat) :
    ∃ o, (initial pattern features memory).steps? s n = some o ∧
      o.Follows ((Run.initial pattern features memory).steps s n) ∧
      ∀ b, o = .running b →
        (¬ b.IsOver → b.InPattern s) ∧
        ∀ (m : Nat) (b' : OffsetRun), 0 < m → b.steps? s m = some (.running b') →
          b.pos ≤ b'.pos ∧ (b'.rounds = 0 → b.pos < b'.pos) := by
  obtain ⟨o, ho, hfollows⟩ := follows_steps s n (initial_follows pattern features memory)
  refine ⟨o, ho, hfollows, ?_⟩
  rintro b rfl
  generalize (Run.initial pattern features memory).steps s n = o' at hfollows
  cases hfollows with
  | @running _ r h =>
    refine ⟨fun hover => ?_, fun m b' hm hsteps => ?_⟩
    · cases h with
      | placed => exact inPattern_atOffset s r
      | past rounds ahead =>
        exact absurd ⟨rounds, (r.place.byteLength_le_offset_iff.2 ahead).trans (Nat.le_succ _)⟩ hover
    · obtain ⟨hle, hlt⟩ := pos_of_steps? s m h hsteps
      exact ⟨hle, hlt hm⟩

end OffsetRun

end ExtensibleRegex
