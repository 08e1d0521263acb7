import ExtensibleRegex.Proofs.Expansion.Precedence
import ExtensibleRegex.Proofs.Native.Paths
import ExtensibleRegex.Proofs.Token.Initial
import Mathlib.Tactic

/-!
# Runs that come to an end

A step that does not end a run goes on in the pattern or writes back (`Run.step_moves`), and at one
place it writes back `maxRounds` times in a row at most. That bounds the steps at one place, not those
of a run:

* a run comes to an end if and only if there is a bound on how often it writes back
  (`Run.finish?_isSome_iff`);
* there is one when what is written back never weighs more than its match, for some weights of the
  characters (`Run.exists_end_of_lightens`);
* `Run.ends_iff` puts both together, with what the end of a run can be, and `Run.endless_echo` is a
  run without an end.
-/

namespace ExtensibleRegex

/-! ## 1. What a step does -/

/-- The ends that a step of a run can come to: the pattern has been read, the handler of the token at
the place refuses, or that token would write back once too often in a row. -/
inductive Outcome.Proper (s : RunSetting) (r : Run) : Outcome → Prop
  | expanded (atEnd : r.place.atEnd = true) : Proper s r (.finished r)
  | refused {token : Token} {inv : Invocation} {e : Error}
      (first : firstToken? s.tokens r.place r.scope s.flags = some (token, inv.found))
      (handler : token.handler inv r.ledger = .error e) (memory : Memory) :
      Proper s r (.failed e memory)
  | unsettled {token : Token} {found : Captures}
      (first : firstToken? s.tokens r.place r.scope s.flags = some (token, found))
      (reparse : token.reparse = true) (rounds : maxRounds ≤ r.rounds) (memory : Memory) :
      Proper s r (.failed (.unsettled r.place.offset) memory)

namespace Run

variable {s : RunSetting} {r r' : Run}

/-- What a step does that does not end the run. -/
inductive Moves (s : RunSetting) (r r' : Run) : Prop
  /-- The handler of a token has written, and its text stands in the pattern in place of the match. -/
  | back {token : Token} (mem : token ∈ s.tokens) (reparse : token.reparse = true) {inv : Invocation}
      {written : Text} {ledger : Ledger} (handler : token.handler inv r.ledger = .ok (written, ledger))
      (skipped rest : Text) (ahead : r.place.ahead = skipped ++ inv.found.text ++ rest)
      (ahead_after : r'.place.ahead = written ++ rest) (settles : r.rounds < maxRounds)
      (rounds : r'.rounds = r.rounds + 1) : Moves s r r'
  /-- A part of the pattern has been read. -/
  | on (read : Text) (ne_nil : read ≠ []) (ahead : r.place.ahead = read ++ r'.place.ahead)
      (rounds : r'.rounds = 0) : Moves s r r'
  /-- Behind the pattern, where the step before has written back, a token matches nothing. -/
  | stay (rounds_before : r.rounds ≠ 0) (atEnd : r'.place.atEnd = true) (rounds : r'.rounds = 0) :
      Moves s r r'

theorem atEnd_iff {p : Place} : p.atEnd = true ↔ p.ahead = [] := List.isEmpty_iff

theorem moves_accept (hgoes : ¬(r.rounds = 0 ∧ r.place.atEnd = true)) {token : Token}
    (mem : token ∈ s.tokens) {inv : Invocation} {written : Text} {ledger : Ledger}
    (hfound : token.trigger.searchAt? r.place true = some inv.found)
    (handler : token.handler inv r.ledger = .ok (written, ledger)) {features : Features}
    {memory : Memory}
    (h : { r with ledger, features, memory }.accept token inv.found written = .running r') :
    Moves s r r' := by
  obtain ⟨⟨v, hv⟩, ⟨w, hw⟩⟩ := Regex.stretch_of_searchAt? hfound
  have hmatch : inv.found.text = w := hw.text_span
  have hahead : r.place.ahead = v ++ w ++ inv.found.whole.stop.ahead := by
    rw [hv.ahead, hw.ahead, List.append_assoc]
  unfold accept at h
  split at h
  · rename_i hreparse
    split at h
    · rename_i hrounds
      cases h
      refine .back mem hreparse handler v _ ?_ rfl hrounds rfl
      rw [hmatch, hahead]
    · cases h
  · cases h
    have hempty : inv.found.whole.isEmpty = w.isEmpty := hw.isEmpty_span
    simp only [write, hempty]
    cases w with
    | cons c w =>
      exact .on (v ++ c :: w) (by simp) (by rw [hahead]; rfl) rfl
    | nil =>
      -- an empty match: the next character is passed over, if there is one
      cases hnext : r.place.ahead with
      | nil =>
        exact .stay (fun h0 => hgoes ⟨h0, atEnd_iff.2 hnext⟩) (atEnd_iff.2 (by simp [hnext])) rfl
      | cons c cs =>
        refine .on [c] (List.cons_ne_nil c []) ?_ rfl
        show r.place.ahead = c :: (r.place.advance 1).ahead
        rw [Place.ahead_advance, hnext]
        rfl

/-- **A step that does not end a run** writes back or goes on. -/
theorem step_moves (h : r.step s = .running r') : Moves s r r' := by
  unfold step at h
  split at h
  · cases h
  · rename_i hgoes
    split at h
    · rename_i token found hfirst
      obtain ⟨hmem, hfound⟩ := mem_of_firstToken? hfirst
      simp only at h
      split at h
      · rename_i written ledger hhandler
        exact moves_accept hgoes hmem hfound hhandler h
      · cases h
    · split at h
      · cases h
      · rename_i hend
        cases h
        have hne : r.place.ahead ≠ [] := fun hnil => hend (atEnd_iff.2 hnil)
        obtain ⟨c, cs, hahead⟩ := List.exists_cons_of_ne_nil hne
        refine .on (r.place.ahead.take (verbatimLength r.scope r.place.ahead)) ?_ ?_ rfl
        · rw [hahead]
          have hpos := verbatimLength_pos r.scope c cs
          exact List.ne_nil_of_length_pos (by
            rw [List.length_take, List.length_cons]
            omega)
        · show _ = _ ++ (r.place.advance _).ahead
          rw [Place.ahead_advance, List.take_append_drop]

/-- **A step that ends a run** comes to a proper end. -/
theorem step_proper {o : Outcome} (h : r.step s = o) (ho : ∀ r', o ≠ .running r') :
    o.Proper s r := by
  subst h
  unfold step at ho ⊢
  split
  · rename_i hend
    exact .expanded hend.2
  · rename_i hgoes
    rw [if_neg hgoes] at ho
    split
    · rename_i token found hfirst
      simp only [hfirst] at ho ⊢
      split
      · rename_i written ledger hhandler
        simp only [hhandler] at ho
        unfold accept at ho ⊢
        split at ho
        · split at ho
          · exact absurd rfl (ho _)
          · rename_i hreparse hrounds
            rw [if_pos hreparse, if_neg hrounds]
            exact .unsettled hfirst hreparse (Nat.le_of_not_lt hrounds) _
        · exact absurd rfl (ho _)
      · rename_i e hhandler
        exact .refused hfirst hhandler _
    · rename_i hnone
      simp only [hnone] at ho
      split
      · rename_i hend
        exact .expanded hend
      · rename_i hend
        rw [if_neg hend] at ho
        exact absurd rfl (ho _)

/-! ## 2. Ends of runs -/

theorem steps_succ_of_running (h : r.step s = .running r') (limit : Nat) :
    r.steps s (limit + 1) = r'.steps s limit := by
  rw [steps, h]

theorem steps_succ_of_ended {o : Outcome} (h : r.step s = o) (ho : ∀ r', o ≠ .running r')
    (limit : Nat) : r.steps s (limit + 1) = o := by
  subst h
  unfold steps
  split
  · rename_i r' hrunning
    exact absurd hrunning (ho r')
  · rfl

/-- An end is proper for the run as it stands before the last step. -/
theorem steps_proper : ∀ (limit : Nat) {r : Run} {o : Outcome}, r.steps s limit = o →
    (∀ r', o ≠ .running r') → ∃ before r', r.steps s before = .running r' ∧ o.Proper s r'
  | 0, r, _, h, ho => absurd h.symm (ho r)
  | limit + 1, r, o, h, ho => by
      cases hstep : r.step s with
      | running r' =>
        rw [steps_succ_of_running hstep] at h
        obtain ⟨before, last, hlast, hproper⟩ := steps_proper limit h ho
        exact ⟨before + 1, last, (steps_succ_of_running hstep before).trans hlast, hproper⟩
      | finished r' =>
        rw [steps_succ_of_ended hstep (by simp)] at h
        exact ⟨0, r, rfl, step_proper (hstep.trans h) ho⟩
      | failed e memory =>
        rw [steps_succ_of_ended hstep (by simp)] at h
        exact ⟨0, r, rfl, step_proper (hstep.trans h) ho⟩

/-! ## 3. Writing back -/

/-- How many of the first `limit` steps write back. -/
def writeBacks (s : RunSetting) : (limit : Nat) → Run → Nat
  | 0, _ => 0
  | limit + 1, r =>
    match r.step s with
    | .running r' => (if r'.rounds = 0 then 0 else 1) + writeBacks s limit r'
    | _ => 0

theorem writeBacks_succ_of_running (h : r.step s = .running r') (limit : Nat) :
    writeBacks s (limit + 1) r = (if r'.rounds = 0 then 0 else 1) + writeBacks s limit r' := by
  rw [writeBacks, h]

/-- A run that ends writes back no more often than it has steps. -/
theorem writeBacks_le_of_steps : ∀ {limit : Nat} {r : Run} {o : Outcome}, r.steps s limit = o →
    (∀ r', o ≠ .running r') → ∀ n, writeBacks s n r ≤ limit
  | 0, r, _, h, ho, _ => absurd h.symm (ho r)
  | _ + 1, _, _, _, _, 0 => Nat.zero_le _
  | limit + 1, r, o, h, ho, n + 1 => by
      cases hstep : r.step s with
      | running r' =>
        rw [steps_succ_of_running hstep] at h
        have hrest := writeBacks_le_of_steps h ho n
        rw [writeBacks_succ_of_running hstep]
        split <;> omega
      | finished r' => simp [writeBacks, hstep]
      | failed e memory => simp [writeBacks, hstep]

/-- What is left to read, in steps of a run that never writes back. -/
def left (r : Run) : Nat := 2 * r.place.ahead.length + if r.rounds = 0 then 0 else 1

theorem finish?_of_running (h : r.step s = .running r') : r.finish? s = r'.finish? s := by
  rw [finish?, h]

theorem finish?_of_ended {o : Outcome} (h : r.step s = o) (ho : ∀ r', o ≠ .running r') :
    r.finish? s = some o :=
  finish?_of_steps ho 1 r (steps_succ_of_ended h ho 0)

/-- A run that writes back no more often than some bound comes to an end: between two steps that
write back, what is left to read gets less. -/
theorem exists_finish?_of_writeBacks (bound : Nat) (r : Run) (h : ∀ n, writeBacks s n r ≤ bound) :
    ∃ o, r.finish? s = some o := by
  cases hstep : r.step s with
  | finished r' => exact ⟨_, finish?_of_ended hstep (by simp)⟩
  | failed e memory => exact ⟨_, finish?_of_ended hstep (by simp)⟩
  | running r' =>
    rw [finish?_of_running hstep]
    have hrest (n : Nat) := writeBacks_succ_of_running hstep n ▸ h (n + 1)
    cases step_moves hstep with
    | back _ _ _ _ _ _ _ _ hrounds =>
      simp only [hrounds, Nat.add_eq_zero_iff, one_ne_zero, and_false, if_false] at hrest
      have hlower : bound - 1 < bound := by
        have := hrest 0
        omega
      exact exists_finish?_of_writeBacks (bound - 1) r' (fun n => by have := hrest n; omega)
    | on _ hne hahead hrounds =>
      simp only [hrounds, if_true, Nat.zero_add] at hrest
      have hless : r'.left < r.left := by
        have := List.length_pos_iff.2 hne
        simp only [left, hrounds, hahead, List.length_append, if_true]
        omega
      exact exists_finish?_of_writeBacks bound r' hrest
    | stay hbefore hend hrounds =>
      simp only [hrounds, if_true, Nat.zero_add] at hrest
      have hless : r'.left < r.left := by
        simp only [left, hrounds, atEnd_iff.1 hend, List.length_nil, if_true, if_neg hbefore]
        omega
      exact exists_finish?_of_writeBacks bound r' hrest
termination_by (bound, r.left)

/-- **A run comes to an end** if and only if there is a bound on how often it writes back. -/
theorem exists_finish?_iff :
    (∃ o, r.finish? s = some o) ↔ ∃ bound, ∀ n, writeBacks s n r ≤ bound := by
  constructor
  · rintro ⟨o, h⟩
    obtain ⟨ho, limit, hlimit⟩ := exists_steps_of_finish? h
    exact ⟨limit, writeBacks_le_of_steps hlimit ho⟩
  · rintro ⟨bound, h⟩
    exact exists_finish?_of_writeBacks bound r h

end Run

/-! ## 4. Weights -/

/-- The weight of a text, for weights of its characters. -/
def weigh (weight : Char → Nat) (t : Text) : Nat := (t.map weight).sum

theorem weigh_append (weight : Char → Nat) (v w : Text) :
    weigh weight (v ++ w) = weigh weight v + weigh weight w := by
  simp [weigh]

theorem weigh_pos {weight : Char → Nat} (hpos : ∀ c, 0 < weight c) {t : Text} (h : t ≠ []) :
    0 < weigh weight t := by
  obtain ⟨c, cs, rfl⟩ := List.exists_cons_of_ne_nil h
  have := hpos c
  simp only [weigh, List.map_cons, List.sum_cons]
  omega

/-- What the handler of a token writes is never heavier than the match it is written for. -/
def Token.Lightens (weight : Char → Nat) (token : Token) : Prop :=
  ∀ inv ledger written ledger', token.handler inv ledger = .ok (written, ledger') →
    weigh weight written ≤ weigh weight inv.found.text

namespace Run

variable {s : RunSetting} {r r' : Run} {weight : Char → Nat}

/-- How many steps a run has left at most, when no text is written back that is heavier than what it
stands for: at each place up to `maxRounds` steps write back, then something is read. -/
def budget (weight : Char → Nat) (r : Run) : Nat :=
  if r.rounds = 0 ∧ r.place.atEnd = true then 0
  else (maxRounds + 1) * weigh weight r.place.ahead + (maxRounds - r.rounds) + 1

theorem budget_le (weight : Char → Nat) (r : Run) :
    r.budget weight ≤ (maxRounds + 1) * weigh weight r.place.ahead + (maxRounds - r.rounds) + 1 := by
  unfold budget
  split <;> omega

theorem budget_lt_of_step (hpos : ∀ c, 0 < weight c)
    (hlight : ∀ t ∈ s.tokens, t.reparse = true → t.Lightens weight) (h : r.step s = .running r') :
    r'.budget weight < r.budget weight := by
  have hgoes : ¬(r.rounds = 0 ∧ r.place.atEnd = true) := by
    intro hend
    rw [step, if_pos hend] at h
    cases h
  have hbudget : r.budget weight =
      (maxRounds + 1) * weigh weight r.place.ahead + (maxRounds - r.rounds) + 1 := if_neg hgoes
  have hafter := budget_le weight r'
  cases step_moves h with
  | back mem reparse handler _ _ ahead ahead_after settles rounds =>
    have hlighter := hlight _ mem reparse _ _ _ _ handler
    have hweigh : weigh weight r'.place.ahead ≤ weigh weight r.place.ahead := by
      simp only [ahead, ahead_after, weigh_append]
      omega
    have := Nat.mul_le_mul_left (maxRounds + 1) hweigh
    omega
  | on read ne_nil ahead rounds =>
    have hread := weigh_pos hpos ne_nil
    have hweigh : weigh weight r'.place.ahead + 1 ≤ weigh weight r.place.ahead := by
      rw [ahead, weigh_append]
      omega
    have hmul := Nat.mul_le_mul_left (maxRounds + 1) hweigh
    rw [Nat.mul_add, Nat.mul_one] at hmul
    omega
  | stay _ atEnd rounds =>
    have hnone : r'.budget weight = 0 := if_pos ⟨rounds, atEnd⟩
    omega

theorem exists_end_of_budget (hpos : ∀ c, 0 < weight c)
    (hlight : ∀ t ∈ s.tokens, t.reparse = true → t.Lightens weight) :
    ∀ (limit : Nat) (r : Run), r.budget weight < limit →
      ∃ o, r.steps s limit = o ∧ ∀ r', o ≠ .running r'
  | limit + 1, r, h => by
      cases hstep : r.step s with
      | running r' =>
        have hless := budget_lt_of_step hpos hlight hstep
        rw [steps_succ_of_running hstep]
        exact exists_end_of_budget hpos hlight limit r' (by omega)
      | finished r' => exact ⟨_, steps_succ_of_ended hstep (by simp) limit, by simp⟩
      | failed e memory => exact ⟨_, steps_succ_of_ended hstep (by simp) limit, by simp⟩

/-- **What runs come to.** A run comes to an end if and only if there is a bound on how often it
writes back. An end is that the pattern has been read, that a handler refuses, or that a token would
write back more than `maxRounds` times in a row. When no handler that writes back makes the pattern
heavier, for some weights of the characters, the run ends, after so many steps at most. -/
theorem ends (s : RunSetting) (pattern : Text) (features : Features) (memory : Memory) :
    ((∃ o, (initial pattern features memory).finish? s = some o) ↔
      ∃ bound, ∀ n, writeBacks s n (initial pattern features memory) ≤ bound) ∧
    (∀ o, (initial pattern features memory).finish? s = some o →
      ∃ n r, (initial pattern features memory).steps s n = .running r ∧ o.Proper s r) ∧
    ∀ weight : Char → Nat, (∀ c, 0 < weight c) →
      (∀ t ∈ s.tokens, t.reparse = true → t.Lightens weight) →
      ∃ o, (initial pattern features memory).finish? s = some o ∧
        (initial pattern features memory).steps s
          ((maxRounds + 1) * (weigh weight pattern + 1) + 1) = o := by
  refine ⟨exists_finish?_iff, fun o h => ?_, fun weight hpos hlight => ?_⟩
  · obtain ⟨ho, limit, hlimit⟩ := exists_steps_of_finish? h
    exact steps_proper limit hlimit ho
  · have hbudget := budget_le weight (initial pattern features memory)
    have hstart : (initial pattern features memory).place.ahead = pattern := rfl
    have hrounds : (initial pattern features memory).rounds = 0 := rfl
    rw [hstart, hrounds, Nat.sub_zero] at hbudget
    obtain ⟨o, hsteps, ho⟩ := exists_end_of_budget hpos hlight
      ((maxRounds + 1) * (weigh weight pattern + 1) + 1) (initial pattern features memory) (by
        rw [Nat.mul_add]
        omega)
    exact ⟨o, finish?_of_steps ho _ _ hsteps, hsteps⟩

/-! ## 5. A tilde for a token -/

/-- A token for a tilde that writes a text back. -/
def tildeSpec (written : Text) : TokenSpec where
  trigger := ['~']
  reparse := true
  handler := fun _ ledger => .ok (written, ledger)

def tilde : Text → Option Native.Extent
  | '~' :: _ => some ⟨1, none⟩
  | _ => none

open Native Native.Node in
theorem tildeSpec_finds (written : Text) : (tildeSpec written).Finds tilde where
  flags := nofun
  program := by
    refine ⟨chars ['~'] .empty, 0, (by decide +kernel : Program.ofSource? ['~'] _ = _),
      runs_chars (fun p cs _ => rfl) (fun t ht => ?_), fun t e h => ?_⟩
    · unfold tilde
      split
      · rename_i cs
        exact absurd rfl (ht cs)
      · rfl
    · unfold tilde at h
      split at h <;> cases h
      rfl

/-- The tokens of the fresh dialect with a token for a tilde. -/
theorem exists_tilde (written : Text) :
    ∃ d, Dialect.initial.addToken (tildeSpec written) = .ok d ∧
      ∃ token : Token, token.Works (tildeSpec written) tilde ∧
        d.tokens = token :: Dialect.initial.tokens := by
  obtain ⟨d, hd, -, -, htoken⟩ := Dialect.initial.addToken_works (tildeSpec_finds written)
  exact ⟨d, hd, htoken⟩

theorem lightens_of_works {spec : TokenSpec} {find : Text → Option Native.Extent} {token : Token}
    (h : token.Works spec find) (hspec : ∀ inv ledger written ledger',
      spec.handler inv ledger = .ok (written, ledger') →
        weigh weight written ≤ weigh weight inv.found.text) : token.Lightens weight := by
  intro inv ledger written ledger' hwritten
  rw [h.handler] at hwritten
  exact hspec inv ledger written ledger' hwritten

theorem ends_erased_tildes : ∃ d, Dialect.initial.addToken (tildeSpec []) = .ok d ∧
    ∃ o, (initial ['a', '~', '~'] d.features ⟨#[], d.properties⟩).finish? ⟨d.tokens, []⟩ = some o := by
  obtain ⟨d, hd, token, hworks, htokens⟩ := exists_tilde []
  have hlight : ∀ t ∈ d.tokens, t.reparse = true → t.Lightens fun _ => 1 := by
    intro t ht hreparse
    rw [htokens] at ht
    rcases List.mem_cons.1 ht with rfl | ht
    · refine lightens_of_works hworks fun inv ledger written ledger' h => ?_
      cases h
      exact Nat.zero_le _
    · have hfinal : ∀ sf ∈ Builtin.table, sf.1.reparse = false := by decide
      obtain ⟨sf, hsf, hworks⟩ := exists_works_of_mem Dialect.initial_tokens ht
      rw [hworks.reparse, hfinal sf hsf] at hreparse
      cases hreparse
  obtain ⟨o, ho, -⟩ := (ends ⟨d.tokens, []⟩ ['a', '~', '~'] d.features ⟨#[], d.properties⟩).2.2
    (fun _ => 1) (fun _ => Nat.one_pos) hlight
  exact ⟨d, hd, o, ho⟩

/-- The pattern of a run that goes on for ever: a tilde, or a character and a tilde. -/
structure Echoes (r : Run) : Prop where
  scope : r.scope = .pattern
  place : r.place.ahead = ['~'] ∧ r.rounds = 0 ∨ r.place.ahead = ['a', '~']

theorem Echoes.step {tokens : List Token}
    (hworks : List.Forall₂ (fun t (sf : TokenSpec × (Text → Option Native.Extent)) =>
      t.Works sf.1 sf.2) tokens ((tildeSpec ['a', '~'], tilde) :: Builtin.table))
    (h : Echoes r) : ∃ r', r.step ⟨tokens, []⟩ = .running r' ∧ Echoes r' := by
  have hfirst := firstToken?_works hworks r.place .pattern []
  rcases h.place with ⟨hahead, hrounds⟩ | hahead
  · have hatEnd : r.place.atEnd = false := by simp [Place.atEnd, hahead]
    rw [hahead, show firstFound? _ .pattern [] ['~'] = some (tildeSpec ['a', '~'], ⟨1, none⟩) from rfl]
      at hfirst
    obtain ⟨token, htoken, hhandler, hreparse⟩ := hfirst
    unfold Run.step
    simp only [hatEnd, Bool.false_eq_true, and_false, if_false, h.scope, htoken, hhandler, tildeSpec,
      accept, hreparse, if_true, hrounds, maxRounds, Nat.zero_lt_succ]
    refine ⟨_, rfl, rfl, .inr ?_⟩
    show ['a', '~'] ++ (Native.Extent.captures ⟨1, none⟩ r.place).whole.stop.ahead = _
    rw [Native.Extent.stop_captures, hahead]
    rfl
  · have hatEnd : r.place.atEnd = false := by simp [Place.atEnd, hahead]
    rw [hahead, show firstFound? _ .pattern [] ['a', '~'] = none from rfl] at hfirst
    unfold Run.step
    simp only [hatEnd, Bool.false_eq_true, and_false, if_false, h.scope, hfirst]
    have hlength : verbatimLength .pattern ['a', '~'] = 1 := rfl
    refine ⟨_, rfl, ?_, .inl ⟨?_, rfl⟩⟩
    · simp only [copy, h.scope, hahead, hlength]
      rfl
    · simp only [copy, write, Place.ahead_advance, h.scope, hahead, hlength]
      rfl

/-- **A run without an end.** A token that writes itself back behind a character makes the pattern
longer for ever. It writes back once at each place, so the steps in a row never get too many. -/
theorem finish?_echoed_tilde : ∃ d, Dialect.initial.addToken (tildeSpec ['a', '~']) = .ok d ∧
    ∀ memory, (initial ['~'] d.features memory).finish? ⟨d.tokens, []⟩ = none := by
  obtain ⟨d, hd, token, htoken, htokens⟩ := exists_tilde ['a', '~']
  have hworks : List.Forall₂ (fun t (sf : TokenSpec × (Text → Option Native.Extent)) =>
      t.Works sf.1 sf.2) d.tokens ((tildeSpec ['a', '~'], tilde) :: Builtin.table) := by
    rw [htokens]
    exact .cons htoken Dialect.initial_tokens
  have hruns : ∀ (limit : Nat) (r : Run), Echoes r →
      ∃ r', r.steps ⟨d.tokens, []⟩ limit = .running r' := by
    intro limit
    induction limit with
    | zero => exact fun r _ => ⟨r, rfl⟩
    | succ limit ih =>
      intro r h
      obtain ⟨r', hstep, h'⟩ := h.step hworks
      rw [steps_succ_of_running hstep]
      exact ih r' h'
  refine ⟨d, hd, fun memory => ?_⟩
  rw [Option.eq_none_iff_forall_ne_some]
  intro o h
  obtain ⟨ho, limit, hlimit⟩ := exists_steps_of_finish? h
  obtain ⟨r', hr'⟩ := hruns limit (initial ['~'] d.features memory) ⟨rfl, .inl ⟨rfl, rfl⟩⟩
  exact ho r' (hlimit.symm.trans hr')

end Run

end ExtensibleRegex
