import ExtensibleRegex.Native.Engine

/-!
# Steps that may fail

Compiling is a chain of steps each of which may answer an error. A chain succeeds exactly if each
of its steps does (`bind_eq_ok`), with a state as well (`answer_bind`), and an engine is settled by
the pattern and the mode that it was made from (`Engine.ofSource_eq_ok`).
-/

namespace ExtensibleRegex

/-! ## 1. Chains -/

/-- A chain of two steps succeeds if the first does and the second does on its answer. -/
theorem bind_eq_ok {ε α β : Type} {x : Except ε α} {f : α → Except ε β} {b : β} :
    (x >>= f) = .ok b ↔ ∃ a, x = .ok a ∧ f a = .ok b := by
  cases x with
  | error e =>
    constructor
    · intro h
      cases h
    · rintro ⟨a, ha, -⟩
      cases ha
  | ok a =>
    constructor
    · intro h
      exact ⟨a, rfl, h⟩
    · rintro ⟨a', ha, h⟩
      cases ha
      exact h

/-- A chain of checks succeeds if each of them does. -/
theorem forM_eq_ok {ε α : Type} {check : α → Except ε Unit} : ∀ {xs : List α},
    xs.forM check = .ok () ↔ ∀ x ∈ xs, check x = .ok ()
  | [] => ⟨fun _ _ h => absurd h List.not_mem_nil, fun _ => rfl⟩
  | x :: xs => by
      rw [List.forM_eq_forM, List.forM_cons, bind_eq_ok, List.forall_mem_cons]
      constructor
      · rintro ⟨_, hfirst, hrest⟩
        exact ⟨hfirst, forM_eq_ok.1 hrest⟩
      · rintro ⟨hfirst, hrest⟩
        exact ⟨(), hfirst, forM_eq_ok.2 hrest⟩

theorem eq_ok_of_toOption {ε α : Type} {x : Except ε α} {a : α} (h : x.toOption = some a) :
    x = .ok a := by
  cases x with
  | error e => cases h
  | ok b => exact congrArg Except.ok (Option.some.inj h)

/-! ## 2. Tasks with a state -/

section Tasks

variable {σ α β : Type}

/-- What a task answers in a state, and the state after it. -/
def answer (task : ExceptT Error (StateM σ) α) (s : σ) : Except Error α × σ := task.run.run s

theorem answer_get (s : σ) : answer (get : ExceptT Error (StateM σ) σ) s = (.ok s, s) := rfl

theorem answer_modify (f : σ → σ) (s : σ) :
    answer (modify f : ExceptT Error (StateM σ) Unit) s = (.ok (), f s) := rfl

theorem answer_lift (x : Except Error α) (s : σ) :
    answer (liftM x : ExceptT Error (StateM σ) α) s = (x, s) := by
  cases x <;> rfl

/-- A chain does its first task, and the second one where the first has an answer. -/
theorem answer_bind (task : ExceptT Error (StateM σ) α) (f : α → ExceptT Error (StateM σ) β)
    (s : σ) :
    answer (task >>= f) s = match answer task s with
      | (.ok a, s') => answer (f a) s'
      | (.error e, s') => (.error e, s') := by
  simp only [answer, ExceptT.run_bind, StateT.run_bind]
  rcases StateT.run (ExceptT.run task) s with ⟨r, s'⟩
  cases r <;> rfl

/-- The answer of a chain is that of its second task where the first has left the state. -/
theorem answer_bind_fst (task : ExceptT Error (StateM σ) α) (f : α → ExceptT Error (StateM σ) β)
    (s : σ) :
    (answer (task >>= f) s).1 = (do
      let a ← (answer task s).1
      (answer (f a) (answer task s).2).1) := by
  rw [answer_bind]
  obtain ⟨_ | a, s'⟩ := answer task s <;> rfl

/-- A chain of tasks succeeds if the first does and the second does on its answer. -/
theorem answer_bind_eq_ok {task : ExceptT Error (StateM σ) α}
    {f : α → ExceptT Error (StateM σ) β} {s : σ} {b : β} :
    (answer (task >>= f) s).1 = .ok b ↔
      ∃ a, (answer task s).1 = .ok a ∧ (answer (f a) (answer task s).2).1 = .ok b := by
  rw [answer_bind]
  obtain ⟨_ | a, s'⟩ := answer task s
  · constructor
    · intro h
      cases h
    · rintro ⟨a, ha, -⟩
      cases ha
  · constructor
    · intro h
      exact ⟨a, rfl, h⟩
    · rintro ⟨a', ha, h⟩
      cases ha
      exact h

end Tasks

/-! ## 3. Look-ups -/

/-- What a look-up by key finds is in the list under that key. -/
theorem mem_of_lookup_eq_some {α β : Type} [BEq α] [LawfulBEq α] {l : List (α × β)} {a : α}
    {b : β} (h : l.lookup a = some b) : (a, b) ∈ l := by
  induction l with
  | nil => cases h
  | cons e l ih =>
    rw [List.lookup_cons] at h
    cases hae : a == e.1 with
    | true =>
      rw [hae] at h
      cases h
      rw [eq_of_beq hae]
      exact List.mem_cons_self
    | false =>
      rw [hae] at h
      exact List.mem_cons_of_mem _ (ih h)

/-! ## 4. Engines -/

namespace Native

/-- The parts of an engine follow from its pattern and mode. -/
theorem Engine.ext_of_source {e e' : Engine} (hsource : e.source = e'.source)
    (hmode : e.mode = e'.mode) : e = e' := by
  obtain ⟨source, mode, program, anchored, hprogram, hanchored⟩ := e
  obtain ⟨source', mode', program', anchored', hprogram', hanchored'⟩ := e'
  cases hsource
  cases hmode
  have hp : program = program' := Option.some.inj (hprogram.symm.trans hprogram')
  have ha : anchored = anchored' := hanchored.trans hanchored'.symm
  subst hp
  subst ha
  rfl

/-- **An engine is made from its own pattern and mode only.** -/
theorem Engine.ofSource_eq_ok {source : Text} {mode : Mode} {e : Engine} :
    Engine.ofSource source mode = .ok e ↔ e.source = source ∧ e.mode = mode := by
  constructor
  · intro h
    unfold ofSource at h
    split at h <;> cases h
    exact ⟨rfl, rfl⟩
  · rintro ⟨hsource, hmode⟩
    unfold ofSource
    split
    · exact congrArg Except.ok (ext_of_source hsource.symm hmode.symm)
    · rename_i hnone
      rw [← hsource, ← hmode, e.program_eq] at hnone
      cases hnone

/-- The program of an engine is that of its pattern. -/
theorem Engine.program_of_ofSource {source : Text} {mode : Mode} {e : Engine}
    (h : Engine.ofSource source mode = .ok e) : Program.ofSource? source mode = some e.program := by
  obtain ⟨rfl, rfl⟩ := Engine.ofSource_eq_ok.1 h
  exact e.program_eq

/-- A well-formed pattern has an engine. -/
theorem Engine.ofSource_of_program {source : Text} {mode : Mode} {program : Program}
    (h : Program.ofSource? source mode = some program) :
    ∃ e, Engine.ofSource source mode = .ok e ∧ e.program = program := by
  have hok : Engine.ofSource source mode = .ok ⟨source, mode, program, _, h, rfl⟩ :=
    Engine.ofSource_eq_ok.2 ⟨rfl, rfl⟩
  exact ⟨_, hok, rfl⟩

end Native

end ExtensibleRegex
