import ExtensibleRegex.Proofs.Dialect.Registration
import ExtensibleRegex.Session

/-!
# Whole histories of a context

What has been compiled in a context never shows. A history is a sequence of operations on one
context of a session, with a log of the registrations that succeeded since the last reset. After
it, compiling answers as in a new session where only the log has been replayed:

* each operation leaves the context faithful, with the dialect that the log leads to
  (`History.Faithful`, `History.faithful_step`);
* so does a whole history (`History.faithful_run`), and `compile_eq_replay` follows, since a
  faithful context answers with the meaning of a pattern in its dialect.
-/

namespace ExtensibleRegex

/-! ## 1. Operations -/

/-- What can be done with a context. -/
inductive Operation where
  | register (r : Registration)
  | forgetPatterns
  | forgetRegexes
  | reset
  | compile (pattern flags : Text)
  | regex (pattern flags : Text)
  | cache (pattern flags : Text)
  | union (parts : List Needle) (flags : Text) (conjunction : Conjunction)
  | build (pattern : Text) (subs : List (Text × Subpattern)) (flags : Text)

namespace Operation

/-- Exchanges the context with a name. -/
def exchange (name : Text) (f : Context → Context) : SessionM Unit :=
  modify fun s => s.withContext name (f (s.context name))

/-- Does an operation in the context with a name. -/
def perform (name : Text) : Operation → SessionM Unit
  | register r => Session.inContext name r.task
  | forgetPatterns => exchange name Context.forgetPatterns
  | forgetRegexes => exchange name Context.forgetRegexes
  | reset => exchange name fun _ => .initial
  | compile pattern flags => do
    let _ ← Session.inContext name (Context.expand pattern flags)
  | regex pattern flags => do
    let _ ← Session.inContext name (Context.regex pattern flags)
  | cache pattern flags => do
    let _ ← Session.share name pattern flags
  | union parts flags conjunction => do
    let _ ← Session.inContext name (Context.union parts flags conjunction)
  | build pattern subs flags => do
    let _ ← Session.inContext name (Context.build pattern subs flags)

/-- The tokens that an operation adds have pure handlers. -/
def Pure : Operation → Prop
  | register r => r.Pure
  | _ => True

/-- Whether an operation is neither a registration nor a reset. -/
def IsNeutral : Operation → Prop
  | register _ => False
  | reset => False
  | _ => True

end Operation

/-! ## 2. Histories -/

/-- A session, and the registrations that succeeded since the last reset. -/
structure History where
  session : Session
  log : List Registration

namespace History

/-- Nothing done yet. -/
def initial : History := ⟨.initial, []⟩

/-- One operation. A registration is entered in the log if it succeeds, a reset empties it. -/
def step (name : Text) (h : History) (op : Operation) : History :=
  let r := answer (op.perform name) h.session
  let log := match op with
    | .register registration => if r.1.isOk then h.log ++ [registration] else h.log
    | .reset => []
    | _ => h.log
  ⟨r.2, log⟩

/-- Operations one after another. -/
def run (name : Text) (ops : List Operation) : History := ops.foldl (step name) initial

end History

/-- A new session in which registrations are done one after another, and nothing else. -/
def replay (name : Text) (log : List Registration) : Session :=
  log.foldl (fun s r => (answer (Session.inContext name r.task) s).2) .initial

/-! ## 3. The context of a session -/

theorem context_withContext (s : Session) (name : Text) (c : Context) :
    (s.withContext name c).context name = c := by
  simp [Session.withContext, Session.context]

theorem answer_inContext {α : Type} (name : Text) (task : ContextM α) (s : Session) :
    answer (Session.inContext name task) s =
      ((answer task (s.context name)).1, s.withContext name (answer task (s.context name)).2) := by
  unfold Session.inContext
  simp only [answer_bind, answer_get]
  rcases h : answer task (s.context name) with ⟨r, c⟩
  rw [answer] at h
  simp only [h]
  cases r <;> rfl

theorem keeps_inContext {α : Type} (name : Text) {task : ContextM α} (h : Keeps id task) :
    Keeps (·.context name) (Session.inContext name task) := by
  intro s hs
  have hcontext : (answer (Session.inContext name task) s).2.context name =
      (answer task (s.context name)).2 := by
    rw [answer_inContext, context_withContext]
  simp only [hcontext]
  exact h (s.context name) hs

theorem keeps_takeIn (name : Text) (re : Regex) (cursor : Nat) :
    Keeps (·.context name) (Session.takeIn re cursor) := fun _ h => ⟨h, rfl⟩

/-- A regex is shared without a change to what is expanded. -/
theorem keeps_share (name pattern flags : Text) :
    Keeps (·.context name) (Session.share name pattern flags) := by
  unfold Session.share
  refine keeps_bind keeps_get fun s => ?_
  split
  · exact keeps_pure _
  · refine keeps_bind (keeps_inContext name (Context.keeps_regex pattern flags)) fun re =>
      keeps_bind (keeps_takeIn name re 0) fun id => keeps_bind ?_ fun _ => keeps_pure _
    intro s h
    have hcontext (c : Context) : (s.withContext name c).context name = c :=
      context_withContext s name c
    simp only [answer_modify, hcontext]
    exact ⟨⟨h.dialect, h.kept⟩, trivial⟩

theorem keeps_exchange (name : Text) {f : Context → Context}
    (hf : ∀ c : Context, c.Faithful →
      (f c).Faithful ∧ (f c).dialect.cleared = c.dialect.cleared) :
    Keeps (·.context name) (Operation.exchange name f) := by
  intro s h
  have hcontext : (answer (Operation.exchange name f) s).2.context name = f (s.context name) := by
    rw [Operation.exchange, answer_modify, context_withContext]
  simp only [hcontext]
  exact hf _ h

/-- **What is no registration leaves a context faithful**, with the dialect it had. -/
theorem Operation.keeps_perform (name : Text) {op : Operation} (h : op.IsNeutral) :
    Keeps (·.context name) (op.perform name) := by
  cases op with
  | register r => exact h.elim
  | reset => exact h.elim
  | forgetPatterns =>
    exact keeps_exchange name fun c hc =>
      ⟨⟨hc.dialect, fun _ _ _ hmem => absurd hmem List.not_mem_nil⟩, rfl⟩
  | forgetRegexes => exact keeps_exchange name fun c hc => ⟨⟨hc.dialect, hc.kept⟩, rfl⟩
  | compile pattern flags =>
    exact keeps_bind (keeps_inContext name (Context.keeps_expand pattern flags)) fun _ =>
      keeps_pure _
  | regex pattern flags =>
    exact keeps_bind (keeps_inContext name (Context.keeps_regex pattern flags)) fun _ =>
      keeps_pure _
  | cache pattern flags =>
    exact keeps_bind (keeps_share name pattern flags) fun _ => keeps_pure _
  | union parts flags conjunction =>
    exact keeps_bind (keeps_inContext name (Context.keeps_union parts flags conjunction)) fun _ =>
      keeps_pure _
  | build pattern subs flags =>
    exact keeps_bind (keeps_inContext name (Context.keeps_build pattern subs flags)) fun _ =>
      keeps_pure _

/-! ## 4. The invariant -/

/-- The dialect that registrations lead to, with nothing derived from its properties. -/
def dialectOf (log : List Registration) : Dialect :=
  log.foldl (fun d r => r.after d) Dialect.initial.cleared

/-- The context with a name is faithful, and its dialect is the one that a log leads to. -/
structure Session.Follows (name : Text) (log : List Registration) (s : Session) : Prop where
  faithful : (s.context name).Faithful
  dialect : (s.context name).dialect.cleared = dialectOf log

/-- In a new session no context has been in use. -/
theorem Session.follows_initial (name : Text) : Session.initial.Follows name [] :=
  ⟨faithful_initial, rfl⟩

/-- A registration that succeeds is one more that the dialect follows, one that fails is not. -/
theorem Session.Follows.register {name : Text} {log : List Registration} {s : Session}
    (h : s.Follows name log) {r : Registration} (hr : r.Pure) :
    let a := answer (inContext name r.task) s
    a.2.Follows name (log ++ [r]) ∧ (a.1.isOk = false → a.2.Follows name log) := by
  obtain ⟨hfaithful, hdialect, hok⟩ := Registration.faithful_task hr h.faithful
  rw [h.dialect] at hdialect hok
  simp only [answer_inContext]
  refine ⟨⟨?_, ?_⟩, fun hfailed => ⟨?_, ?_⟩⟩
  · rw [context_withContext]
    exact hfaithful
  · rw [context_withContext, hdialect, dialectOf, dialectOf, List.foldl_append]
    rfl
  · rw [context_withContext]
    exact hfaithful
  · rw [context_withContext, hdialect, Registration.after]
    rw [hfailed] at hok
    split
    · rename_i he
      rw [he] at hok
      cases hok
    · rfl

theorem replay_follows (name : Text) : ∀ (rest log : List Registration) (s : Session),
    s.Follows name log → (∀ r ∈ rest, r.Pure) →
    (rest.foldl (fun s r => (answer (Session.inContext name r.task) s).2) s).Follows name
      (log ++ rest)
  | [], log, s, h, _ => by
      rw [List.append_nil]
      exact h
  | r :: rest, log, s, h, hpure => by
      have hstep := (h.register (hpure r List.mem_cons_self)).1
      have hrest := replay_follows name rest (log ++ [r]) _ hstep
        fun r' h' => hpure r' (List.mem_cons_of_mem _ h')
      rw [List.append_assoc, List.singleton_append] at hrest
      exact hrest

/-- The session follows the log, which holds pure registrations only. -/
structure History.Faithful (name : Text) (h : History) : Prop where
  follows : h.session.Follows name h.log
  pure : ∀ r ∈ h.log, r.Pure

/-- **Each operation keeps the log and the context in step.** -/
theorem History.faithful_step {name : Text} {h : History} (hh : h.Faithful name) {op : Operation}
    (hop : op.Pure) : (h.step name op).Faithful name := by
  by_cases hn : op.IsNeutral
  · have hkeeps := Operation.keeps_perform name hn h.session hh.follows.faithful
    have hlog : (h.step name op).log = h.log := by
      cases op <;> first | rfl | exact hn.elim
    refine ⟨⟨hkeeps.1, ?_⟩, ?_⟩
    · rw [hlog, ← hh.follows.dialect]
      exact hkeeps.2
    · rw [hlog]
      exact hh.pure
  · cases op with
    | reset =>
      have hcontext : (h.step name .reset).session.context name = .initial :=
        context_withContext h.session name .initial
      refine ⟨⟨?_, ?_⟩, fun r hr => absurd hr List.not_mem_nil⟩
      · rw [hcontext]
        exact faithful_initial
      · rw [hcontext]
        rfl
    | register r =>
      obtain ⟨hdone, hfailed⟩ := hh.follows.register (r := r) hop
      have hstep : h.step name (.register r) =
          ⟨(answer (Session.inContext name r.task) h.session).2,
            if (answer (Session.inContext name r.task) h.session).1.isOk then h.log ++ [r]
            else h.log⟩ := rfl
      rw [hstep]
      by_cases hok : (answer (Session.inContext name r.task) h.session).1.isOk = true
      · rw [if_pos hok]
        refine ⟨hdone, ?_⟩
        intro r' hr'
        rcases List.mem_append.1 hr' with hr' | hr'
        · exact hh.pure r' hr'
        · obtain rfl := List.mem_singleton.1 hr'
          exact hop
      · rw [if_neg hok]
        exact ⟨hfailed (Bool.not_eq_true _ ▸ hok), hh.pure⟩
    | _ => exact (hn trivial).elim

/-- So does a whole history. -/
theorem History.faithful_run {name : Text} : ∀ (ops : List Operation) (h : History),
    h.Faithful name → (∀ op ∈ ops, op.Pure) → (ops.foldl (step name) h).Faithful name
  | [], _, hh, _ => hh
  | op :: ops, h, hh, hops =>
      faithful_run ops (h.step name op) (faithful_step hh (hops op List.mem_cons_self))
        fun op' h' => hops op' (List.mem_cons_of_mem _ h')

/-! ## 5. Compiling after a history -/

/-- What is answered for a pattern follows from the log alone. -/
theorem Session.Follows.answer_expand {name : Text} {log : List Registration} {s : Session}
    (h : s.Follows name log) (pattern flags : Text) :
    (answer (Session.inContext name (Context.expand pattern flags)) s).1 =
      (dialectOf log).meaning pattern ((dialectOf log).fullFlags flags) := by
  rw [answer_inContext, ← h.dialect]
  exact h.faithful.answer_expand pattern flags

/-- **Nothing that has been compiled ever shows.** After any operations, a pattern is expanded as
in a new session where only the registrations that succeeded since the last reset have been
done. -/
theorem compile_eq_replay (name : Text) (ops : List Operation) (hops : ∀ op ∈ ops, op.Pure)
    (pattern flags : Text) :
    let h := History.run name ops
    (answer (Session.inContext name (Context.expand pattern flags)) h.session).1 =
      (answer (Session.inContext name (Context.expand pattern flags)) (replay name h.log)).1 := by
  have hinitial : History.initial.Faithful name :=
    ⟨Session.follows_initial name, fun r hr => absurd hr List.not_mem_nil⟩
  have hrun : (History.run name ops).Faithful name := History.faithful_run ops _ hinitial hops
  have hreplay := replay_follows name _ [] _ (Session.follows_initial name) hrun.pure
  show _ = _
  rw [hrun.follows.answer_expand]
  exact (hreplay.answer_expand pattern flags).symm

/-- A pattern that has been expanded before a token and a property come in. -/
theorem compile_eq_replay_after_token :
    let token : TokenSpec := { trigger := ['@'], handler := fun _ ledger => .ok (['x'], ledger) }
    let digits : UnicodeProperty := { name := "Digit".toList, bmp := some "0-9".toList }
    let ops : List Operation :=
      [.compile "@".toList [], .register (.token token), .register (.flag ['k', 'k']),
        .register (.properties [digits]), .compile "[\\P\x7bdigit\x7d]".toList []]
    let h := History.run [] ops
    (∀ op ∈ ops, op.Pure) ∧
      (answer (Session.inContext [] (Context.expand "@".toList [])) h.session).1 =
        (answer (Session.inContext [] (Context.expand "@".toList [])) (replay [] h.log)).1 := by
  intro token digits ops
  have hops : ∀ op ∈ ops, op.Pure := by
    intro op hop
    simp only [ops, List.mem_cons, List.not_mem_nil, or_false] at hop
    rcases hop with rfl | rfl | rfl | rfl | rfl
    · trivial
    · exact ⟨⟨fun _ _ _ _ ledger => .ok (['x'], ledger), fun _ _ => rfl⟩,
        ⟨fun _ _ _ features _ => features, fun _ _ => rfl⟩, fun _ => rfl⟩
    · trivial
    · trivial
    · trivial
  exact ⟨hops, compile_eq_replay [] ops hops _ _⟩

end ExtensibleRegex
