import ExtensibleRegex.Proofs.Expansion.Precedence
import ExtensibleRegex.Proofs.Property.Derived

/-!
# Expansions and what handlers leave behind

A run hands its memory from one call of a handler to the next: how often each handler has been
called, and the table of properties with the texts derived so far. For transparent tokens the
memory makes no difference:

* a handler that is a function of its match, scope, flags, features and ledger is transparent
  (`TokenSpec.Pure.transparent`), and so is the handler of property escapes
  (`transparent_propertySpec`);
* two runs that differ in their memory only go the same way (`Run.step_alike`, `Run.steps_alike`),
  and to the same end (`Run.exists_finish?_alike`);
* so an expansion depends on the properties, not on what has been derived from them
  (`expand_alike`).
-/

namespace ExtensibleRegex

open PropertyTable (SoundOver)

/-! ## 1. Transparent handlers -/

/-- Two calls that differ only in their number and in what the tables over the same properties
have kept. -/
structure Invocation.Alike (base : PropertyTable) (a b : Invocation) : Prop where
  found : a.found = b.found
  scope : a.scope = b.scope
  flags : a.flags = b.flags
  features : a.setting.features = b.setting.features
  left : SoundOver base a.setting.properties
  right : SoundOver base b.setting.properties

/-- A declaration whose handler cannot tell such calls apart, and leaves the properties as they
are. -/
structure TokenSpec.Transparent (s : TokenSpec) : Prop where
  handler : ∀ base a b ledger, Invocation.Alike base a b → s.handler a ledger = s.handler b ledger
  switch : ∀ base a b ledger, Invocation.Alike base a b → s.switch a ledger = s.switch b ledger
  note : ∀ base inv, SoundOver base inv.setting.properties → SoundOver base (s.note inv)

/-- A declaration whose handler is a function of the match, the scope, the flags, the features and
the groups opened so far, also in what it makes of the features, and keeps nothing. -/
structure TokenSpec.Pure (s : TokenSpec) : Prop where
  handler : ∃ f : Captures → Scope → Text → Features → Ledger → Except Error (Text × Ledger),
    ∀ inv ledger, s.handler inv ledger =
      f inv.found inv.scope inv.flags inv.setting.features ledger
  switch : ∃ f : Captures → Scope → Text → Features → Ledger → Features,
    ∀ inv ledger, s.switch inv ledger =
      f inv.found inv.scope inv.flags inv.setting.features ledger
  note : ∀ inv, s.note inv = inv.setting.properties

theorem TokenSpec.Pure.transparent {s : TokenSpec} (h : s.Pure) : s.Transparent where
  handler base a b ledger hab := by
    obtain ⟨f, hf⟩ := h.handler
    rw [hf, hf, hab.found, hab.scope, hab.flags, hab.features]
  switch base a b ledger hab := by
    obtain ⟨f, hf⟩ := h.switch
    rw [hf, hf, hab.found, hab.scope, hab.flags, hab.features]
  note base inv hinv := by
    rw [h.note]
    exact hinv

/-- The built-in handlers are functions of the match, the scope, the flags, the features and the
ledger. -/
theorem pure_builtin : ∀ s ∈ Builtin.specs, s.Pure := by
  intro s hs
  refine ⟨?_, ⟨fun _ _ _ features _ => features, ?_⟩, ?_⟩
  · refine ⟨fun found scope flags features ledger =>
      s.handler ⟨found, scope, flags, 0, ⟨features, .empty⟩⟩ ledger, ?_⟩
    intro inv ledger
    simp only [Builtin.specs, List.mem_cons, List.not_mem_nil, or_false] at hs
    rcases hs with rfl | rfl | rfl | rfl | rfl | rfl | rfl | rfl | rfl | rfl | rfl <;> rfl
  · intro inv ledger
    simp only [Builtin.specs, List.mem_cons, List.not_mem_nil, or_false] at hs
    rcases hs with rfl | rfl | rfl | rfl | rfl | rfl | rfl | rfl | rfl | rfl | rfl <;> rfl
  · intro inv
    simp only [Builtin.specs, List.mem_cons, List.not_mem_nil, or_false] at hs
    rcases hs with rfl | rfl | rfl | rfl | rfl | rfl | rfl | rfl | rfl | rfl | rfl <;> rfl

/-- Property escapes write what the properties say, whatever has been kept. -/
theorem transparent_propertySpec : propertySpec.Transparent where
  handler base a b ledger hab := by
    have key (inv : Invocation) (h : SoundOver base inv.setting.properties) :
        propertyHandler inv ledger =
          (propertyText inv.found inv.scope inv.flags base).map fun t => (t, ledger) := by
      have hspec := (expandProperty_of_sound inv h.sound).1
      rw [← propertyText_cleared, h.cleared] at hspec
      rw [← hspec]
      unfold propertyHandler
      cases expandProperty inv <;> rfl
    show propertyHandler a ledger = propertyHandler b ledger
    rw [key a hab.left, key b hab.right, hab.found, hab.scope, hab.flags]
  switch _ _ _ _ hab := hab.features
  note base inv h := by
    have hspec := (expandProperty_of_sound inv h.sound).2
    rw [h.cleared] at hspec
    exact hspec

/-- A token whose declaration is transparent. -/
def Token.Transparent (t : Token) : Prop :=
  ∃ s : TokenSpec, s.Transparent ∧ t.handler = s.handler ∧ t.switch = s.switch ∧ t.note = s.note

theorem Token.transparent_of_ofSpec {s : TokenSpec} {serial : Nat} {t : Token}
    (hs : s.Transparent) (h : Token.ofSpec s serial = .ok t) : t.Transparent := by
  obtain ⟨trigger, -, h⟩ := bind_eq_ok.1 h
  cases h
  exact ⟨s, hs, rfl, rfl, rfl⟩

/-! ## 2. Runs that differ in their memory -/

/-- Two runs that have come equally far, with tables over the same properties. -/
structure Run.Alike (base : PropertyTable) (a b : Run) : Prop where
  place : a.place = b.place
  scope : a.scope = b.scope
  rounds : a.rounds = b.rounds
  output : a.output = b.output
  ledger : a.ledger = b.ledger
  features : a.features = b.features
  left : SoundOver base a.memory.properties
  right : SoundOver base b.memory.properties

/-- Two outcomes of the same kind, with runs that are alike or with the same error. -/
inductive Outcome.Alike (base : PropertyTable) : Outcome → Outcome → Prop where
  | running {a b : Run} (h : a.Alike base b) : Alike base (.running a) (.running b)
  | finished {a b : Run} (h : a.Alike base b) : Alike base (.finished a) (.finished b)
  | failed (e : Error) {m m' : Memory} (left : SoundOver base m.properties)
      (right : SoundOver base m'.properties) : Alike base (.failed e m) (.failed e m')

namespace Run

variable {base : PropertyTable} {s : RunSetting} {a b : Run}

theorem accept_alike (h : a.Alike base b) (token : Token) (found : Captures) (written : Text) :
    (a.accept token found written).Alike base (b.accept token found written) := by
  unfold accept
  rw [← h.rounds, ← h.place]
  by_cases hr : token.reparse = true
  · rw [if_pos hr, if_pos hr]
    by_cases hm : a.rounds < maxRounds
    · rw [if_pos hm, if_pos hm]
      exact .running ⟨rfl, h.scope, rfl, h.output, h.ledger, h.features, h.left, h.right⟩
    · rw [if_neg hm, if_neg hm]
      exact .failed _ h.left h.right
  · rw [if_neg hr, if_neg hr]
    have houtput : written :: a.output = written :: b.output := congrArg (written :: ·) h.output
    exact .running ⟨rfl, h.scope, rfl, houtput, h.ledger, h.features, h.left, h.right⟩

theorem copy_alike (h : a.Alike base b) : a.copy.Alike base b.copy := by
  refine ⟨?_, ?_, rfl, ?_, h.ledger, h.features, h.left, h.right⟩
  · simp only [copy, write, h.scope, h.place]
  · simp only [copy, h.scope, h.place]
  · simp only [copy, write, h.scope, h.place, h.output]

/-- **A step goes the same way with any memory.** -/
theorem step_alike (htokens : ∀ t ∈ s.tokens, t.Transparent) (h : a.Alike base b) :
    (a.step s).Alike base (b.step s) := by
  unfold step
  rw [← h.rounds, ← h.place, ← h.scope, ← h.ledger]
  by_cases hend : a.rounds = 0 ∧ a.place.atEnd = true
  · rw [if_pos hend, if_pos hend]
    exact .finished h
  · rw [if_neg hend, if_neg hend]
    cases hf : firstToken? s.tokens a.place a.scope s.flags with
    | none =>
      simp only
      by_cases he : a.place.atEnd = true
      · rw [if_pos he, if_pos he]
        exact .finished h
      · rw [if_neg he, if_neg he]
        exact .running (copy_alike h)
    | some r =>
      obtain ⟨token, found⟩ := r
      obtain ⟨spec, hspec, hhandler, hswitch, hnote⟩ := htokens token (mem_of_firstToken? hf).1
      simp only [hhandler, hswitch, hnote]
      have hinv : Invocation.Alike base
          ⟨found, a.scope, s.flags, (a.memory.tally.count token.serial).1,
            ⟨a.features, a.memory.properties⟩⟩
          ⟨found, a.scope, s.flags, (b.memory.tally.count token.serial).1,
            ⟨b.features, b.memory.properties⟩⟩ :=
        ⟨rfl, rfl, rfl, h.features, h.left, h.right⟩
      have hleft := hspec.note base _ hinv.left
      have hright := hspec.note base _ hinv.right
      rw [hspec.handler base _ _ a.ledger hinv, hspec.switch base _ _ a.ledger hinv]
      cases spec.handler _ a.ledger with
      | ok r =>
        obtain ⟨written, ledger⟩ := r
        refine accept_alike ?_ token found written
        exact ⟨rfl, rfl, rfl, h.output, rfl, rfl, hleft, hright⟩
      | error e => exact .failed e hleft hright

/-- So do all steps of a run. -/
theorem steps_alike (htokens : ∀ t ∈ s.tokens, t.Transparent) : ∀ (limit : Nat) {a b : Run},
    a.Alike base b → (steps s limit a).Alike base (steps s limit b)
  | 0, _, _, h => .running h
  | limit + 1, a, b, h => by
      have hstep := step_alike htokens h
      unfold steps
      generalize a.step s = x at hstep
      generalize b.step s = y at hstep
      cases hstep with
      | running h => exact steps_alike htokens limit h
      | finished h => exact .finished h
      | failed e left right => exact .failed e left right

theorem Alike.symm (h : a.Alike base b) : b.Alike base a :=
  ⟨h.place.symm, h.scope.symm, h.rounds.symm, h.output.symm, h.ledger.symm, h.features.symm,
    h.right, h.left⟩

/-- A run that comes to an end does so with any memory. -/
theorem exists_finish?_alike (htokens : ∀ t ∈ s.tokens, t.Transparent) (h : a.Alike base b)
    {o : Outcome} (ho : a.finish? s = some o) : ∃ o', b.finish? s = some o' ∧ o.Alike base o' := by
  obtain ⟨hend, limit, rfl⟩ := exists_steps_of_finish? ho
  have hsteps := steps_alike htokens limit h
  refine ⟨_, finish?_of_steps (fun r hr => ?_) limit b rfl, hsteps⟩
  rw [hr] at hsteps
  generalize a.steps s limit = x at hsteps hend
  cases hsteps with
  | running _ => exact hend _ rfl

end Run

/-! ## 3. Expansions -/

/-- **An expansion does not depend on the memory**, which keeps its properties. -/
theorem expand_alike {base : PropertyTable} {tokens : List Token}
    (htokens : ∀ t ∈ tokens, t.Transparent) (features : Features) (prepared : Prepared)
    {m m' : Memory} (hm : SoundOver base m.properties) (hm' : SoundOver base m'.properties) :
    (expand tokens features prepared m).1 = (expand tokens features prepared m').1 ∧
      SoundOver base (expand tokens features prepared m).2.properties := by
  let s : RunSetting := ⟨tokens, prepared.flags⟩
  have hinitial : (Run.initial prepared.pattern features m).Alike base
      (.initial prepared.pattern features m') := ⟨rfl, rfl, rfl, rfl, rfl, rfl, hm, hm'⟩
  unfold expand
  cases ho : (Run.initial prepared.pattern features m).finish? s with
  | none =>
    have hnone : (Run.initial prepared.pattern features m').finish? s = none := by
      cases ho' : (Run.initial prepared.pattern features m').finish? s with
      | none => rfl
      | some o =>
        obtain ⟨_, hsome, -⟩ := Run.exists_finish?_alike (s := s) htokens hinitial.symm ho'
        rw [ho] at hsome
        cases hsome
    rw [hnone]
    exact ⟨rfl, hm⟩
  | some o =>
    obtain ⟨o', ho', hlike⟩ := Run.exists_finish?_alike (s := s) htokens hinitial ho
    rw [ho']
    cases hlike with
    | running _ => exact ⟨rfl, hm⟩
    | finished h => exact ⟨by simp only [Run.expansion, h.output, h.ledger], h.left⟩
    | failed e left right => exact ⟨rfl, left⟩

end ExtensibleRegex
