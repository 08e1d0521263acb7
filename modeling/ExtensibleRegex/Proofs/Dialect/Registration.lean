import ExtensibleRegex.Proofs.Dialect.Cache

/-!
# Registrations in a context

A registration changes the dialect of a context, or fails and changes nothing. What it does to the
dialect is its `effect`; the context drops the expansions it keeps, unless the dialect comes out
the same:

* `Registration.answer_task` says what a registration does to a context;
* `Registration.effect_cleared` says that its effect does not depend on what has been derived from
  the properties;
* so a registration leaves a faithful context faithful (`Registration.faithful_task`), and the
  fresh context is faithful (`faithful_initial`).
-/

namespace ExtensibleRegex

/-! ## 1. Registrations -/

/-- What can be registered in a context. -/
inductive Registration where
  | flag (flag : Text)
  | token (s : TokenSpec)
  | install (f : Features)
  | uninstall (f : Features)
  /-- Property escapes. -/
  | propertyEscapes
  | properties (ps : List UnicodeProperty)

namespace Registration

/-- What a registration does in a context. -/
def task : Registration → ContextM Unit
  | flag t => Context.registerFlag t
  | token s => Context.addToken s
  | install f => modify fun c => c.install f
  | uninstall f => modify fun c => c.uninstall f
  | propertyEscapes => Context.enableProperties
  | properties ps => Context.addProperties ps

/-- What a registration does to a dialect. -/
def effect : Registration → Dialect → Except Error Dialect
  | flag t, d => (d.registerFlag t).map Prod.snd
  | token s, d => d.addToken s
  | install f, d => .ok (d.install f)
  | uninstall f, d => .ok (d.uninstall f)
  | propertyEscapes, d => d.enableProperties.map Prod.snd
  | properties ps, d => d.addProperties ps

/-- A token has to have a pure handler. -/
def Pure : Registration → Prop
  | token s => s.Pure
  | _ => True

end Registration

/-! ## 2. Flags that are known already -/

/-- A character of an ordered text has its place there. -/
theorem insertOrdered_of_mem {c : Char} : ∀ {known : Text},
    known.Pairwise (fun a b => a.toNat < b.toNat) → c ∈ known →
    KnownFlags.insertOrdered c known = known
  | [], _, h => absurd h List.not_mem_nil
  | d :: known, hordered, h => by
      obtain ⟨hfirst, hrest⟩ := List.pairwise_cons.1 hordered
      unfold KnownFlags.insertOrdered
      by_cases heq : c = d
      · rw [if_pos heq]
      · have hmem : c ∈ known := (List.mem_cons.1 h).resolve_left heq
        have hlt := hfirst c hmem
        rw [if_neg heq, if_neg (by omega), insertOrdered_of_mem hrest hmem]

/-- To make a flag known that is known already changes nothing. -/
theorem KnownFlags.insert_of_knows {k : KnownFlags} {c : Char} (h : k.knows c = true) :
    k.insert c = k := by
  have hmem : c ∈ k.known := by simpa [knows] using h
  obtain ⟨known, hordered⟩ := k
  unfold insert
  congr 1
  exact insertOrdered_of_mem hordered hmem

/-- A text names a flag if it is one character that may be a flag. -/
theorem KnownFlags.singleFlag_eq_ok {t : Text} {c : Char} :
    singleFlag t = .ok c ↔ t = [c] ∧ isNameChar c := by
  constructor
  · intro h
    unfold singleFlag at h
    split at h
    · split at h
      · cases h
        exact ⟨rfl, ‹_›⟩
      · cases h
    · cases h
  · rintro ⟨rfl, hc⟩
    exact if_pos hc

/-- The flags of a list are in order if each of them may be a flag. -/
theorem KnownFlags.forM_singleFlag_eq_ok {flags : Text} :
    flags.forM (m := Except Error) (fun c => do let _ ← singleFlag [c]) = .ok () ↔
      ∀ c ∈ flags, isNameChar c := by
  rw [forM_eq_ok]
  refine forall₂_congr fun c _ => ?_
  rw [bind_eq_ok]
  constructor
  · rintro ⟨c', hc', -⟩
    obtain ⟨heq, hc⟩ := singleFlag_eq_ok.1 hc'
    cases heq
    exact hc
  · intro hc
    exact ⟨c, singleFlag_eq_ok.2 ⟨rfl, hc⟩, rfl⟩

/-! ## 3. The changes of a registration -/

namespace Context

/-- A text that names a flag is entered as that flag. -/
theorem answer_enterFlag (flag : Text) (c : Context) :
    answer (enterFlag flag) c = match KnownFlags.singleFlag flag with
      | .ok f => (.ok (!c.dialect.flags.knows f),
          c.withDialect { c.dialect with flags := c.dialect.flags.insert f })
      | .error e => (.error e, c) := by
  simp only [enterFlag, answer_bind, answer_get, answer_lift, KnownFlags.register]
  cases KnownFlags.singleFlag flag <;> rfl

/-- All flags are entered if each of them may be one. -/
theorem answer_enterFlags : ∀ (flags : Text) (c : Context), (∀ f ∈ flags, isNameChar f) →
    answer (flags.forM fun f => do let _ ← enterFlag [f]) c =
      (.ok (), c.withDialect
        { c.dialect with flags := flags.foldl KnownFlags.insert c.dialect.flags })
  | [], _, _ => rfl
  | f :: flags, c, h => by
      have hfirst : KnownFlags.singleFlag [f] = .ok f :=
        KnownFlags.singleFlag_eq_ok.2 ⟨rfl, h f List.mem_cons_self⟩
      rw [List.forM_eq_forM, List.forM_cons]
      simp only [answer_bind, answer_enterFlag, hfirst]
      exact answer_enterFlags flags _ fun f' hf' => h f' (List.mem_cons_of_mem _ hf')

/-- A token is entered with its flags or refused as a whole. -/
theorem answer_enterToken (s : TokenSpec) (c : Context) :
    answer (enterToken s) c = match c.dialect.addToken s with
      | .ok d => (.ok (), c.withDialect d)
      | .error e => (.error e, c) := by
  simp only [enterToken, Dialect.addToken, answer_bind, answer_get, answer_lift]
  cases hchecked : s.flags.forM (m := Except Error)
      (fun f => do let _ ← KnownFlags.singleFlag [f]) with
  | error e => rfl
  | ok u =>
    cases htoken : Token.ofSpec s c.dialect.tokens.length with
    | error e =>
      simp only [htoken]
      rfl
    | ok token =>
      have hflags := KnownFlags.forM_singleFlag_eq_ok.1 hchecked
      simp only [htoken, answer_enterFlags s.flags c hflags, answer_modify]
      rfl

theorem answer_addToken (s : TokenSpec) (c : Context) :
    answer (addToken s) c = match c.dialect.addToken s with
      | .ok d => (.ok (), (c.withDialect d).forgetPatterns)
      | .error e => (.error e, c) := by
  rw [addToken, answer_bind, answer_enterToken]
  cases c.dialect.addToken s <;> rfl

theorem answer_enableProperties (c : Context) :
    answer enableProperties c = match c.dialect.enableProperties with
      | .ok (new, d) => (.ok (), if new then (c.withDialect d).forgetPatterns else c)
      | .error e => (.error e, c) := by
  simp only [enableProperties, Dialect.enableProperties, answer_bind, answer_get]
  by_cases hk : c.dialect.knowsProperties = true
  · rw [if_pos hk, if_pos hk]
    rfl
  · rw [if_neg hk, if_neg hk, answer_bind, answer_addToken]
    cases c.dialect.addToken propertySpec <;> rfl

/-- Where property escapes are not new the dialect is left as it is. -/
theorem eq_of_enableProperties {d d' : Dialect} (h : d.enableProperties = .ok (false, d')) :
    d' = d := by
  unfold Dialect.enableProperties at h
  split at h
  · cases h
    rfl
  · obtain ⟨_, -, h⟩ := bind_eq_ok.1 h
    cases h

/-- Properties are entered one by one. -/
theorem answer_enterProperties : ∀ (ps : List UnicodeProperty) (c : Context),
    answer (ps.forM enterProperty) c = (.ok (), c.withDialect
      { c.dialect with properties := ps.foldl PropertyTable.insert c.dialect.properties })
  | [], _ => rfl
  | p :: ps, c => by
      rw [List.forM_eq_forM, List.forM_cons, answer_bind, enterProperty, answer_modify]
      exact answer_enterProperties ps _

/-- Properties are added all together or not at all. -/
theorem answer_addProperties (ps : List UnicodeProperty) (c : Context) :
    answer (addProperties ps) c = match c.dialect.addProperties ps with
      | .ok d => (.ok (), (c.withDialect d).forgetPatterns)
      | .error e => (.error e, c) := by
  simp only [addProperties, Dialect.addProperties, answer_bind, answer_lift]
  cases ps.forM UnicodeProperty.check with
  | error e => rfl
  | ok u =>
    simp only [answer_enableProperties]
    cases hbase : c.dialect.enableProperties with
    | error e => rfl
    | ok r =>
      obtain ⟨new, d⟩ := r
      simp only [answer_enterProperties, answer_modify]
      cases new with
      | false =>
        obtain rfl := eq_of_enableProperties hbase
        rfl
      | true => rfl

end Context

/-! ## 4. What a registration does -/

namespace Registration

/-- A context after a registration: it has the new dialect, and keeps its expansions only if the
dialect is the old one. -/
structure Done (d : Dialect) (c c' : Context) : Prop where
  dialect : c'.dialect = d
  kept : c'.kept = [] ∨ c'.kept = c.kept ∧ d = c.dialect

/-- **A registration has its effect on the dialect**, or fails and leaves the context as it is. -/
theorem answer_task (r : Registration) (c : Context) :
    match r.effect c.dialect with
    | .ok d => (answer r.task c).1 = .ok () ∧ Done d c (answer r.task c).2
    | .error e => answer r.task c = (.error e, c) := by
  cases r with
  | flag t =>
    simp only [task, effect, Context.registerFlag, answer_bind, Context.answer_enterFlag]
    unfold Dialect.registerFlag KnownFlags.register
    cases KnownFlags.singleFlag t with
    | error e => rfl
    | ok f =>
      by_cases hk : c.dialect.flags.knows f = true
      · have hsame := KnownFlags.insert_of_knows hk
        simp only [bind, Except.bind, pure, Except.pure, Except.map, hk, hsame]
        exact ⟨rfl, rfl, .inr ⟨rfl, rfl⟩⟩
      · have hnew := Bool.not_eq_true _ ▸ hk
        simp only [bind, Except.bind, pure, Except.pure, Except.map, hnew]
        exact ⟨rfl, rfl, .inl rfl⟩
  | token s =>
    simp only [task, effect, Context.answer_addToken]
    cases c.dialect.addToken s with
    | error e => rfl
    | ok d => exact ⟨rfl, rfl, .inl rfl⟩
  | install f => exact ⟨rfl, rfl, .inl rfl⟩
  | uninstall f => exact ⟨rfl, rfl, .inl rfl⟩
  | propertyEscapes =>
    simp only [task, effect, Context.answer_enableProperties]
    unfold Dialect.enableProperties
    by_cases hk : c.dialect.knowsProperties = true
    · simp only [hk, if_true]
      exact ⟨rfl, rfl, .inr ⟨rfl, rfl⟩⟩
    · simp only [hk]
      cases c.dialect.addToken propertySpec with
      | error e => rfl
      | ok d => exact ⟨rfl, rfl, .inl rfl⟩
  | properties ps =>
    simp only [task, effect, Context.answer_addProperties]
    cases c.dialect.addProperties ps with
    | error e => rfl
    | ok d => exact ⟨rfl, rfl, .inl rfl⟩

theorem addToken_cleared (d : Dialect) (s : TokenSpec) :
    d.cleared.addToken s = (d.addToken s).map Dialect.cleared := by
  unfold Dialect.addToken
  simp only [bind, Except.bind]
  split
  · rfl
  · have htokens : d.cleared.tokens = d.tokens := rfl
    rw [htokens]
    cases Token.ofSpec s d.tokens.length <;> rfl

/-- **The effect of a registration does not depend on what has been derived.** -/
theorem effect_cleared (r : Registration) (d : Dialect) :
    r.effect d.cleared = (r.effect d).map Dialect.cleared := by
  have hescapes : d.cleared.enableProperties =
      d.enableProperties.map fun r => (r.1, r.2.cleared) := by
    unfold Dialect.enableProperties
    rw [addToken_cleared]
    by_cases hk : d.knowsProperties = true
    · have hk' : d.cleared.knowsProperties = true := hk
      rw [if_pos hk, if_pos hk']
      rfl
    · have hk' : ¬ d.cleared.knowsProperties = true := hk
      rw [if_neg hk, if_neg hk']
      cases d.addToken propertySpec <;> rfl
  cases r with
  | flag t =>
    simp only [effect, Dialect.registerFlag]
    show Except.map _ (d.flags.register t >>= _) = _
    cases d.flags.register t <;> rfl
  | token s => exact addToken_cleared d s
  | install f => rfl
  | uninstall f => rfl
  | propertyEscapes =>
    simp only [effect, hescapes]
    cases d.enableProperties <;> rfl
  | properties ps =>
    simp only [effect, Dialect.addProperties, hescapes]
    cases ps.forM UnicodeProperty.check with
    | error e => rfl
    | ok u =>
      cases d.enableProperties with
      | error e => rfl
      | ok r =>
        simp only [bind, Except.bind, Except.map, pure, Except.pure]
        exact congrArg Except.ok (congrArg _ (PropertyTable.foldl_insert_cleared ps _))

/-! ## 5. Registrations and kept expansions -/

theorem transparent_addToken {d d' : Dialect} (hd : d.Transparent) {s : TokenSpec}
    (hs : s.Transparent) (h : d.addToken s = .ok d') : d'.Transparent := by
  obtain ⟨-, -, h⟩ := bind_eq_ok.1 h
  obtain ⟨token, htoken, h⟩ := bind_eq_ok.1 h
  cases h
  refine ⟨fun t ht => ?_, hd.sound⟩
  rcases List.mem_cons.1 ht with rfl | ht
  · exact Token.transparent_of_ofSpec hs htoken
  · exact hd.tokens t ht

theorem transparent_enableProperties {d : Dialect} (hd : d.Transparent) {r : Bool × Dialect}
    (h : d.enableProperties = .ok r) : r.2.Transparent := by
  unfold Dialect.enableProperties at h
  split at h
  · cases h
    exact hd
  · obtain ⟨d', hd', h⟩ := bind_eq_ok.1 h
    cases h
    have ht := transparent_addToken hd transparent_propertySpec hd'
    exact ⟨ht.tokens, ht.sound⟩

/-- A pure registration leaves a dialect transparent. -/
theorem transparent_effect {r : Registration} (hr : r.Pure) {d d' : Dialect}
    (hd : d.Transparent) (h : r.effect d = .ok d') : d'.Transparent := by
  cases r with
  | flag t =>
    simp only [effect, Dialect.registerFlag] at h
    cases hf : d.flags.register t with
    | error e => rw [hf] at h; cases h
    | ok f =>
      rw [hf] at h
      cases h
      exact ⟨hd.tokens, hd.sound⟩
  | token s => exact transparent_addToken hd (TokenSpec.Pure.transparent hr) h
  | install f => cases h; exact ⟨hd.tokens, hd.sound⟩
  | uninstall f => cases h; exact ⟨hd.tokens, hd.sound⟩
  | propertyEscapes =>
    simp only [effect] at h
    cases hp : d.enableProperties with
    | error e => rw [hp] at h; cases h
    | ok r =>
      rw [hp] at h
      cases h
      exact transparent_enableProperties hd hp
  | properties ps =>
    obtain ⟨-, -, h⟩ := bind_eq_ok.1 h
    obtain ⟨r, hr, h⟩ := bind_eq_ok.1 h
    cases h
    have ht := transparent_enableProperties hd hr
    exact ⟨ht.tokens, PropertyTable.sound_foldl_insert ps _ ht.sound⟩

/-- The dialect that a registration leads to, which stays the same when it fails. -/
def after (r : Registration) (d : Dialect) : Dialect :=
  match r.effect d with
  | .ok d' => d'
  | .error _ => d

/-- **A registration leaves a faithful context faithful**, and its effect shows in what the
dialect means. -/
theorem faithful_task {r : Registration} (hr : r.Pure) {c : Context} (hc : c.Faithful) :
    (answer r.task c).2.Faithful ∧
      (answer r.task c).2.dialect.cleared = r.after c.dialect.cleared ∧
      (answer r.task c).1.isOk = (r.effect c.dialect.cleared).isOk := by
  have hspec := answer_task r c
  unfold after
  rw [effect_cleared]
  cases he : r.effect c.dialect with
  | error e =>
    rw [he] at hspec
    simp only at hspec
    rw [hspec]
    exact ⟨hc, rfl, rfl⟩
  | ok d =>
    rw [he] at hspec
    obtain ⟨hanswer, hdone⟩ := hspec
    have hd := transparent_effect hr hc.dialect he
    refine ⟨⟨?_, ?_⟩, ?_, ?_⟩
    · rw [hdone.dialect]
      exact hd
    · intro pattern flags t ht
      rcases hdone.kept with hnone | ⟨hsame, hdialect⟩
      · rw [hnone] at ht
        exact absurd ht List.not_mem_nil
      · rw [hsame] at ht
        rw [hdone.dialect, hdialect]
        exact hc.kept pattern flags t ht
    · rw [hdone.dialect]
      rfl
    · rw [hanswer]
      rfl

end Registration

/-- The built-in tokens make a transparent dialect. -/
theorem transparent_addTokens : ∀ (specs : List TokenSpec) (d : Dialect),
    (∀ s ∈ specs, s.Pure) → d.Transparent → (d.addTokens specs).Transparent
  | [], _, _, hd => hd
  | s :: specs, d, hs, hd => by
      have hrest : ∀ s ∈ specs, s.Pure := fun s' h => hs s' (List.mem_cons_of_mem _ h)
      unfold Dialect.addTokens
      rw [List.foldl_cons]
      refine transparent_addTokens specs _ hrest ?_
      split
      · rename_i d' hd'
        exact Registration.transparent_addToken hd (hs s List.mem_cons_self).transparent hd'
      · exact hd

/-- A fresh context keeps nothing, and so nothing that is out of date. -/
theorem faithful_initial : Context.initial.Faithful where
  dialect := transparent_addTokens Builtin.specs .bare pure_builtin
    ⟨fun _ h => absurd h List.not_mem_nil, PropertyTable.sound_cleared .empty⟩
  kept _ _ _ h := absurd h List.not_mem_nil

end ExtensibleRegex
