import ExtensibleRegex.Proofs.Dialect.Registration
import ExtensibleRegex.Proofs.Property.Trigger

/-!
# Refused registrations

A registration makes its changes one by one: flags, then a token, then what property escapes need,
then one property after the other. It is refused by one of its checks, and every check stands
before the first change:

* `Registration.Refused` says which registrations are refused, whatever the context
  (`Registration.answer_error_iff`): a text that is not a flag, a token with such a flag at any
  place of its list or with a trigger that has no regex, properties of which any is unusable;
* **a refused registration leaves the context as it is** (`Registration.answer_of_refused`);
* **it can be struck from any run of acts**: all others answer the same, and the run ends in the
  same context (`Registration.refused_leaves_no_trace`).
-/

namespace ExtensibleRegex

/-! ## 1. Which registrations are refused -/

/-- A property without a name, or without data. -/
def UnicodeProperty.Unusable (p : UnicodeProperty) : Prop :=
  p.name = [] ∨ p.inverseOf = none ∧ p.bmp = none ∧ p.astral = none

/-- A token with a character among its flags that cannot be one, or with a trigger that has no
regex. -/
def TokenSpec.Unusable (s : TokenSpec) : Prop :=
  (∃ f ∈ s.flags, ¬ isNameChar f) ∨ ∃ e, Regex.native s.trigger ['u'] = .error e

/-- The registrations that are refused. -/
def Registration.Refused : Registration → Prop
  | flag t => ¬ ∃ f, t = [f] ∧ isNameChar f
  | token s => s.Unusable
  | properties ps => ∃ p ∈ ps, p.Unusable
  | install _ | uninstall _ | propertyEscapes => False

theorem UnicodeProperty.check_eq_ok {p : UnicodeProperty} : p.check = .ok () ↔ ¬ p.Unusable := by
  obtain ⟨name, otherName, bmp, astral, inverseOf, bmpLast⟩ := p
  unfold check Unusable
  by_cases hname : name = []
  · rw [if_pos hname]
    simp only [reduceCtorEq, hname, true_or, not_true_eq_false]
  · cases inverseOf <;> cases bmp <;> cases astral <;> simp [hname]

theorem Except.exists_error_iff {ε α : Type} {x : Except ε α} :
    (∃ e, x = .error e) ↔ ¬ ∃ a, x = .ok a := by
  cases x <;> simp

/-- A token is added exactly if its flags and its trigger are in order. -/
theorem Dialect.addToken_eq_error_iff (d : Dialect) (s : TokenSpec) :
    (∃ e, d.addToken s = .error e) ↔ s.Unusable := by
  have hflags : (∃ f ∈ s.flags, ¬ isNameChar f) ↔ ¬ ∀ f ∈ s.flags, isNameChar f := by
    simp only [not_forall, exists_prop]
  rw [TokenSpec.Unusable, hflags, Except.exists_error_iff, Except.exists_error_iff,
    ← not_and_or, not_iff_not, ← KnownFlags.forM_singleFlag_eq_ok]
  constructor
  · rintro ⟨_, h⟩
    obtain ⟨_, hchecked, h⟩ := bind_eq_ok.1 h
    obtain ⟨_, htoken, -⟩ := bind_eq_ok.1 h
    obtain ⟨re, htrigger, -⟩ := bind_eq_ok.1 htoken
    exact ⟨hchecked, re, htrigger⟩
  · rintro ⟨hchecked, re, htrigger⟩
    exact ⟨_, bind_eq_ok.2 ⟨(), hchecked,
      bind_eq_ok.2 ⟨_, bind_eq_ok.2 ⟨re, htrigger, rfl⟩, rfl⟩⟩⟩

/-- Property escapes can always be made known. -/
theorem Dialect.exists_ok_enableProperties (d : Dialect) : ∃ r, d.enableProperties = .ok r := by
  unfold enableProperties
  split
  · exact ⟨_, rfl⟩
  · obtain ⟨t, ht, -⟩ := exists_propertyToken d.tokens.length
    have hflags : propertySpec.flags.forM (m := Except Error)
        (fun c => do let _ ← KnownFlags.singleFlag [c]) = .ok () := rfl
    exact ⟨_, bind_eq_ok.2 ⟨_, bind_eq_ok.2 ⟨(), hflags, bind_eq_ok.2 ⟨t, ht, rfl⟩⟩, rfl⟩⟩

/-- Properties are added exactly if all of them are usable. -/
theorem Dialect.addProperties_eq_error_iff (d : Dialect) (ps : List UnicodeProperty) :
    (∃ e, d.addProperties ps = .error e) ↔ ∃ p ∈ ps, p.Unusable := by
  have hps : (∃ p ∈ ps, p.Unusable) ↔ ¬ ∀ p ∈ ps, ¬ p.Unusable := by
    simp only [not_forall, not_not, exists_prop]
  simp only [hps, ← UnicodeProperty.check_eq_ok, Except.exists_error_iff, not_iff_not]
  rw [← forM_eq_ok]
  constructor
  · rintro ⟨_, h⟩
    obtain ⟨_, hchecked, -⟩ := bind_eq_ok.1 h
    exact hchecked
  · intro hchecked
    obtain ⟨r, hr⟩ := d.exists_ok_enableProperties
    exact ⟨_, bind_eq_ok.2 ⟨(), hchecked, bind_eq_ok.2 ⟨r, hr, rfl⟩⟩⟩

namespace Registration

theorem effect_eq_error_iff (r : Registration) (d : Dialect) :
    (∃ e, r.effect d = .error e) ↔ r.Refused := by
  cases r with
  | flag t =>
    have hregister : (∃ d', (flag t).effect d = .ok d') ↔ ∃ f, KnownFlags.singleFlag t = .ok f := by
      simp only [effect, Dialect.registerFlag, KnownFlags.register]
      cases KnownFlags.singleFlag t <;> simp [bind, Except.bind, pure, Except.pure, Except.map]
    simp only [Except.exists_error_iff, hregister, KnownFlags.singleFlag_eq_ok, Refused]
  | token s => exact d.addToken_eq_error_iff s
  | install f => simp only [effect, Refused, reduceCtorEq, exists_false]
  | uninstall f => simp only [effect, Refused, reduceCtorEq, exists_false]
  | propertyEscapes =>
    obtain ⟨r, hr⟩ := d.exists_ok_enableProperties
    simp only [effect, hr, Except.map, Refused, reduceCtorEq, exists_false]
  | properties ps => exact d.addProperties_eq_error_iff ps

/-! ## 2. What a refused registration leaves -/

/-- **A refused registration answers an error and leaves the context as it is.** -/
theorem answer_of_refused {r : Registration} (hr : r.Refused) (c : Context) :
    ∃ e, answer r.task c = (.error e, c) := by
  obtain ⟨e, he⟩ := (r.effect_eq_error_iff c.dialect).2 hr
  have hspec := r.answer_task c
  rw [he] at hspec
  exact ⟨e, hspec⟩

/-- The context has no say in whether a registration is refused. -/
theorem answer_error_iff (r : Registration) (c : Context) :
    (∃ e, (answer r.task c).1 = .error e) ↔ r.Refused := by
  constructor
  · rintro ⟨e, he⟩
    have hspec := r.answer_task c
    refine (r.effect_eq_error_iff c.dialect).1 ?_
    cases heffect : r.effect c.dialect with
    | error e' => exact ⟨e', rfl⟩
    | ok d =>
      rw [heffect] at hspec
      rw [hspec.1] at he
      cases he
  · intro hr
    obtain ⟨e, he⟩ := answer_of_refused hr c
    exact ⟨e, by rw [he]⟩

end Registration

/-! ## 3. Runs of acts -/

/-- What is done in a context: a registration, or any other use of it. -/
inductive Act (α : Type) where
  | register (r : Registration)
  | use (task : ContextM α)

variable {α : Type}

/-- An act in a context. Only a use has something to answer. -/
def Act.perform : Act α → ContextM (Option α)
  | register r => do
    r.task
    return none
  | use task => do return some (← task)

/-- What acts answer, one after the other, and the context after them. -/
def Context.answers : List (Act α) → Context → List (Except Error (Option α)) × Context
  | [], c => ([], c)
  | act :: acts, c =>
    let first := answer act.perform c
    let rest := answers acts first.2
    (first.1 :: rest.1, rest.2)

/-- Later acts start from the context that earlier ones leave. -/
theorem Context.answers_append : ∀ (acts later : List (Act α)) (c : Context),
    answers (acts ++ later) c =
      ((answers acts c).1 ++ (answers later (answers acts c).2).1,
        (answers later (answers acts c).2).2)
  | [], _, _ => rfl
  | act :: acts, later, c => by
      simp only [List.cons_append, answers, answers_append acts later]

theorem Context.length_answers : ∀ (acts : List (Act α)) (c : Context),
    (answers acts c).1.length = acts.length
  | [], _ => rfl
  | _ :: acts, _ => congrArg (· + 1) (length_answers acts _)

/-- A refused registration is an act that answers an error and changes nothing. -/
theorem Act.answer_perform_of_refused {r : Registration} (hr : r.Refused) (c : Context) :
    ∃ e, answer (Act.register r : Act α).perform c = (.error e, c) := by
  obtain ⟨e, he⟩ := Registration.answer_of_refused hr c
  refine ⟨e, ?_⟩
  rw [perform, answer_bind, he]

/-- **A registration that fails leaves no trace.** Which registrations fail does not depend on
the context. One that fails leaves the context as it is, so in every run of acts the others
answer what they answer without it. -/
theorem Registration.refused_leaves_no_trace (r : Registration) :
    (∀ c, (∃ e, (answer r.task c).1 = .error e) ↔ r.Refused) ∧
    (∀ c e, (answer r.task c).1 = .error e → (answer r.task c).2 = c) ∧
    (r.Refused → ∀ (acts later : List (Act α)) (c : Context),
      ∃ answers e answersLater c', answers.length = acts.length ∧
        Context.answers (acts ++ .register r :: later) c =
          (answers ++ .error e :: answersLater, c') ∧
        Context.answers (acts ++ later) c = (answers ++ answersLater, c')) := by
  refine ⟨r.answer_error_iff, ?_, ?_⟩
  · intro c e he
    obtain ⟨e', he'⟩ := answer_of_refused ((r.answer_error_iff c).1 ⟨e, he⟩) c
    rw [he']
  · intro hr acts later c
    obtain ⟨e, he⟩ := Act.answer_perform_of_refused (α := α) hr (Context.answers acts c).2
    refine ⟨_, e, _, _, Context.length_answers acts c, ?_, Context.answers_append acts later c⟩
    rw [Context.answers_append]
    simp only [Context.answers, he]

/-- A property without data at the end of a list takes the property before it along. -/
theorem Registration.refused_leaves_no_trace_dataless :
    let dataless : Registration :=
      .properties [{ name := ['H'], bmp := some ['a', '-', 'f'] }, { name := ['N'] }]
    let acts : List (Act Bool) := [.register (.flag ['A'])]
    let later : List (Act Bool) := [.use do return (← get).dialect.knowsProperties]
    dataless.Refused ∧ ∃ answers e answersLater c', answers.length = acts.length ∧
      Context.answers (acts ++ .register dataless :: later) .initial =
        (answers ++ .error e :: answersLater, c') ∧
      Context.answers (acts ++ later) .initial = (answers ++ answersLater, c') := by
  have hdataless : (Registration.properties
      [{ name := ['H'], bmp := some ['a', '-', 'f'] }, { name := ['N'] }]).Refused :=
    ⟨{ name := ['N'] }, .tail _ (.head _), .inr ⟨rfl, rfl, rfl⟩⟩
  exact ⟨hdataless, (refused_leaves_no_trace _).2.2 hdataless _ _ _⟩

end ExtensibleRegex
