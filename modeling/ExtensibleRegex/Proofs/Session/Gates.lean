import ExtensibleRegex.Proofs.Dialect.Atomicity
import ExtensibleRegex.Proofs.Dialect.Modifiers
import ExtensibleRegex.Proofs.Expansion.Precedence
import ExtensibleRegex.Proofs.Session.Replay
import Mathlib.Tactic

/-!
# Tokens behind a gate

A token may be gated by a flag, and is then not tried where that flag is not in effect. So a gated
token that minds no other flags changes nothing for such patterns, whatever its trigger and its
handler are:

* the flag that it makes known is not asked for when the pattern is prepared (`prepare_insert`);
* the token never goes first, so that each step is the one of before (`firstToken?_gated`);
* hence the dialect expands the pattern as it did (`Dialect.expand_gated`), and so does a context,
  though it has dropped what it kept (`compile_eq_before_gated`).
-/

namespace ExtensibleRegex

/-! ## 1. Flags in effect -/

/-- The flags in effect for a pattern: those given with it, the one that a feature adds, and those
of its mode modifier. -/
def Dialect.flagsInEffect (d : Dialect) (pattern flags : Text) : Text :=
  d.fullFlags flags ++ modifierFlags pattern

/-- The features of a dialect bring no flag but `A` into effect. -/
theorem Dialect.mem_flagsInEffect {d : Dialect} {pattern flags : Text} {q : Char}
    (h : q ∈ d.flagsInEffect pattern flags) : q ∈ flags ∨ q = 'A' ∨ q ∈ modifierFlags pattern := by
  unfold flagsInEffect fullFlags at h
  rcases List.mem_append.1 h with h | h
  · split at h
    · rcases List.mem_append.1 h with h | h
      · exact .inl h
      · exact .inr (.inl (List.mem_singleton.1 h))
    · exact .inl h
  · exact .inr (.inr h)

namespace KnownFlags

variable {k : KnownFlags} {q : Char} {pattern flags : Text}

/-- A flag that does not occur may be known or not. -/
theorem refuseUnknown_insert (hq : q ∉ flags) :
    (k.insert q).refuseUnknown flags = k.refuseUnknown flags := by
  have hfind : flags.find? (fun c => !(k.insert q).knows c) = flags.find? fun c => !k.knows c := by
    induction flags with
    | nil => rfl
    | cons c flags ih =>
      have hc : (c == q) = false := beq_eq_false_iff_ne.2 fun hc => hq (hc ▸ List.mem_cons_self)
      rw [List.find?_cons, List.find?_cons, knows_insert, hc, Bool.false_or,
        ih fun h => hq (List.mem_cons_of_mem _ h)]
  unfold refuseUnknown
  rw [hfind]

/-- **A pattern is prepared as before**, if a flag becomes known that is not in effect. -/
theorem prepare_insert (hq : q ∉ flags ++ modifierFlags pattern) :
    (k.insert q).prepare pattern flags = k.prepare pattern flags := by
  unfold prepare
  cases hmodifier : modeModifier? pattern with
  | none =>
    have hflags : q ∉ flags := fun h => hq (List.mem_append_left _ h)
    simp only [refuseUnknown_insert hflags]
  | some m =>
    have hmerged : q ∉ keepLastFlags (flags ++ m.1) := by
      rw [mem_keepLastFlags]
      unfold modifierFlags at hq
      rwa [hmodifier] at hq
    simp only [refuseUnknown_insert hmerged]

end KnownFlags

/-! ## 2. Expansions in a dialect -/

/-- **A token whose gate is shut never goes first.** -/
theorem firstToken?_gated {t : Token} {q : Char} {flags : Text} (hgate : t.gate = some q)
    (hq : q ∉ flags) (ts : List Token) (p : Place) (scope : Scope) :
    firstToken? (t :: ts) p scope flags = firstToken? ts p scope flags := by
  have happlies : t.applies p scope flags = false := by
    unfold Token.applies
    rw [hgate]
    simp [hq]
  have hnone : t.matchAt? p scope flags = none := by
    unfold Token.matchAt?
    rw [happlies]
    rfl
  unfold firstToken?
  rw [List.findSome?_cons, hnone]
  rfl

/-- What a dialect is after a token has been added. -/
theorem Dialect.addToken_eq_ok {d d' : Dialect} {s : TokenSpec} (h : d.addToken s = .ok d') :
    ∃ t : Token, t.gate = s.gate ∧
      d' = { d with flags := s.flags.foldl KnownFlags.insert d.flags, tokens := t :: d.tokens } := by
  obtain ⟨_, -, h⟩ := bind_eq_ok.1 h
  obtain ⟨t, ht, h⟩ := bind_eq_ok.1 h
  obtain ⟨re, -, ht⟩ := bind_eq_ok.1 ht
  cases ht
  cases h
  exact ⟨_, rfl, rfl⟩

/-- **A dialect expands as before a gated token came in**, where the gate is not in effect. -/
theorem Dialect.expand_gated {d d' : Dialect} {s : TokenSpec} {q : Char} {pattern flags : Text}
    (h : d.addToken s = .ok d') (hgate : s.gate = some q) (hoptional : s.optionalFlags = [])
    (hq : q ∉ flags ++ modifierFlags pattern) (tally : Tally) :
    d'.expand pattern flags tally = d.expand pattern flags tally := by
  obtain ⟨t, ht, hd⟩ := addToken_eq_ok h
  have hknown : d'.flags = d.flags.insert q := by
    rw [hd]
    simp only [TokenSpec.flags, hgate, hoptional]
    rfl
  have htokens : d'.tokens = t :: d.tokens := by rw [hd]
  have hfeatures : d'.features = d.features := by rw [hd]
  have hproperties : d'.properties = d.properties := by rw [hd]
  have hmirrored (prepared : Prepared) (hprepared : d.flags.prepare pattern flags = .ok prepared) :
      RunSetting.MirroredBy id ⟨d.tokens, prepared.flags⟩ ⟨d'.tokens, prepared.flags⟩ := by
    have hshut : q ∉ prepared.flags := fun hmem => hq ((KnownFlags.of_prepare hprepared).2.1 q |>.1 hmem)
    refine ⟨rfl, Token.Replaces.refl, fun p scope => ?_⟩
    simp only [htokens, firstToken?_gated (ht.trans hgate) hshut]
    exact Option.map_id'.symm
  have hprepare : d'.flags.prepare pattern flags = d.flags.prepare pattern flags := by
    rw [hknown]
    exact KnownFlags.prepare_insert hq
  exact expand_mirrored hfeatures hproperties hprepare hmirrored tally

/-! ## 3. Compiling in a context with a history -/

/-- A faithful context answers after a gated token has come in as it did before, where the gate is
not in effect. -/
theorem Context.Faithful.answer_expand_gated {c : Context} (h : c.Faithful) {s : TokenSpec}
    {q : Char} (hgate : s.gate = some q) (hoptional : s.optionalFlags = [])
    (hregistered : (answer (addToken s) c).1 = .ok ()) {pattern flags : Text}
    (hq : q ∉ c.dialect.flagsInEffect pattern flags) :
    (answer (expand pattern flags) (answer (addToken s) c).2).1 =
      (answer (expand pattern flags) c).1 := by
  rw [h.answer_expand, answer_addToken] at *
  cases hadd : c.dialect.addToken s with
  | error e =>
    rw [hadd] at hregistered
    cases hregistered
  | ok d =>
    obtain ⟨t, -, hd⟩ := Dialect.addToken_eq_ok hadd
    -- the features are those of before, and nothing is kept
    have hfull : d.fullFlags flags = c.dialect.fullFlags flags := by rw [hd]; rfl
    simp only [answer_expand_eq]
    show (d.expand pattern (d.fullFlags flags) c.tally).1 = _
    rw [hfull, Dialect.expand_gated hadd hgate hoptional hq]
    exact (Dialect.expand_eq_meaning h.dialect pattern _ c.tally).1

/-- **A token behind a gate changes nothing where its flag is not in effect.** After any operations
with pure handlers, a pattern is compiled before and after the registration of such a token with the
same result, whatever the token does. -/
theorem compile_eq_before_gated (name : Text) (ops : List Operation) (hops : ∀ op ∈ ops, op.Pure)
    (s : TokenSpec) (q : Char) (hgate : s.gate = some q) (hoptional : s.optionalFlags = [])
    (pattern flags : Text) :
    let before := (History.run name ops).session
    let registered := answer (Session.inContext name (Registration.token s).task) before
    let compile := Session.inContext name (Context.expand pattern flags)
    registered.1 = .ok () → q ∉ (before.context name).dialect.flagsInEffect pattern flags →
      (answer compile registered.2).1 = (answer compile before).1 := by
  intro before registered compile hregistered hq
  have hinitial : History.initial.Faithful name :=
    ⟨Session.follows_initial name, fun r hr => absurd hr List.not_mem_nil⟩
  have hfaithful : (before.context name).Faithful :=
    (History.faithful_run ops _ hinitial hops).follows.faithful
  simp only [registered, compile, answer_inContext, context_withContext] at hregistered ⊢
  exact hfaithful.answer_expand_gated hgate hoptional hregistered hq

/-- A token that finds every character, and whose handler fails with the number of its call: it
comes in after another token, and after the flag of a feature. -/
theorem compile_eq_before_gated_failing :
    let sign : TokenSpec := { trigger := ['@'], handler := fun _ ledger => .ok (['x'], ledger) }
    let failing : TokenSpec :=
      { trigger := ['.'], scope := .all, gate := some 'q', reparse := true
        handler := fun inv _ => .error (.internal (decimalText inv.call)) }
    let ops : List Operation :=
      [.register (.token sign), .register (.install ⟨true, false⟩), .compile "(?i)@(a)".toList ['m']]
    let before := (History.run [] ops).session
    let registered := answer (Session.inContext [] (Registration.token failing).task) before
    let compile := Session.inContext [] (Context.expand "(?i)@(a)".toList ['m'])
    (∀ op ∈ ops, op.Pure) ∧ registered.1 = .ok () ∧
      'q' ∉ (before.context []).dialect.flagsInEffect "(?i)@(a)".toList ['m'] ∧
      (answer compile registered.2).1 = (answer compile before).1 := by
  intro sign failing ops before registered compile
  have hops : ∀ op ∈ ops, op.Pure := by
    intro op hop
    simp only [ops, List.mem_cons, List.not_mem_nil, or_false] at hop
    rcases hop with rfl | rfl | rfl
    · exact ⟨⟨fun _ _ _ _ ledger => .ok (['x'], ledger), fun _ _ => rfl⟩,
        ⟨fun _ _ _ features _ => features, fun _ _ => rfl⟩, fun _ => rfl⟩
    · trivial
    · trivial
  have hregistered : registered.1 = .ok () := by
    have husable : ¬ failing.Unusable := by
      rintro (⟨f, hf, hname⟩ | ⟨e, he⟩)
      · obtain rfl := List.mem_singleton.1 hf
        exact hname rfl
      · have hprogram : Native.Program.ofSource? ['.'] ⟨false, false, true⟩ =
            some ⟨.seq (.atom (.any false)) .empty, 0⟩ := by decide +kernel
        obtain ⟨engine, hengine, -⟩ := Native.Engine.ofSource_of_program hprogram
        cases he.symm.trans (bind_eq_ok.2 ⟨(), rfl, bind_eq_ok.2 ⟨engine, hengine, rfl⟩⟩)
    simp only [registered, answer_inContext]
    cases hanswer : (answer (Registration.token failing).task (before.context [])).1 with
    | ok u => rfl
    | error e => exact absurd ((Registration.answer_error_iff _ _).1 ⟨e, hanswer⟩) husable
  have hq : 'q' ∉ (before.context []).dialect.flagsInEffect "(?i)@(a)".toList ['m'] := fun hmem => by
    rcases Dialect.mem_flagsInEffect hmem with h | h | h <;> exact absurd h (by decide)
  exact ⟨hops, hregistered, hq,
    compile_eq_before_gated [] ops hops failing 'q' rfl rfl _ _ hregistered hq⟩

end ExtensibleRegex
