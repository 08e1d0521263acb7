import ExtensibleRegex.Combine.Build
import ExtensibleRegex.Proofs.Expansion.Memory

/-!
# The expansions that a context keeps

A context keeps the expansions it has made, and its dialect keeps what has been derived from the
properties. This file shows that a context answers as its dialect alone says:

* `Dialect.meaning` is the expansion of a pattern with nothing kept and nothing called before;
* `Context.Faithful` says that every kept expansion is the meaning of its pattern and flags. It
  holds of a fresh context, and everything that expands patterns keeps it (`Keeps`);
* a registration does to a faithful context what it does to its dialect (`Registration.effect`),
  and drops the kept expansions unless the dialect stays the same;
* a faithful context answers with the meaning of the pattern (`answer_expand`).
-/

namespace ExtensibleRegex

open PropertyTable (SoundOver)

/-! ## 1. The meaning of a pattern -/

namespace Dialect

/-- The dialect with nothing derived from its properties. -/
def cleared (d : Dialect) : Dialect := { d with properties := d.properties.cleared }

/-- What a pattern with its full flags is expanded to. -/
def meaning (d : Dialect) (pattern flags : Text) : Except Error Expansion :=
  (d.cleared.expand pattern flags #[]).1

/-- The tokens of a dialect are transparent, and what has been derived from its properties is
right. -/
structure Transparent (d : Dialect) : Prop where
  tokens : ∀ t ∈ d.tokens, t.Transparent
  sound : d.properties.Sound

theorem Transparent.cleared {d : Dialect} (h : d.Transparent) : d.cleared.Transparent :=
  ⟨h.tokens, PropertyTable.sound_cleared _⟩

theorem meaning_cleared (d : Dialect) : d.cleared.meaning = d.meaning := rfl

section Prepare

variable {d : Dialect} {pattern flags : Text}

/-- A pattern that is prepared is expanded by the tokens. -/
theorem expand_of_prepare {prepared : Prepared} (h : d.flags.prepare pattern flags = .ok prepared)
    (tally : Tally) : d.expand pattern flags tally =
      ExtensibleRegex.expand d.tokens d.features prepared ⟨tally, d.properties⟩ := by
  unfold expand
  rw [h]

theorem expand_of_refused {e : Error} (h : d.flags.prepare pattern flags = .error e)
    (tally : Tally) : d.expand pattern flags tally = (.error e, ⟨tally, d.properties⟩) := by
  unfold expand
  rw [h]

end Prepare

/-- **The expansion of a pattern is its meaning**, whatever has been called and derived before. -/
theorem expand_eq_meaning {d : Dialect} (h : d.Transparent) (pattern flags : Text)
    (tally : Tally) :
    (d.expand pattern flags tally).1 = d.meaning pattern flags ∧
      SoundOver d.properties.cleared (d.expand pattern flags tally).2.properties := by
  have hsound : SoundOver d.properties.cleared d.properties := ⟨h.sound, rfl⟩
  have hcleared : SoundOver d.properties.cleared d.cleared.properties :=
    ⟨PropertyTable.sound_cleared _, rfl⟩
  unfold meaning
  cases hprepare : d.flags.prepare pattern flags with
  | error e =>
    rw [expand_of_refused hprepare, expand_of_refused (d := d.cleared) hprepare]
    exact ⟨rfl, hsound⟩
  | ok prepared =>
    rw [expand_of_prepare hprepare, expand_of_prepare (d := d.cleared) hprepare]
    exact expand_alike h.tokens d.features prepared hsound hcleared

end Dialect

/-! ## 2. Expanding in a context -/

namespace Context

/-- A context after an expansion that it did not keep yet. -/
def afterExpand (c : Context) (key : Text × Text) (r : Except Error Expansion × Memory) :
    Context :=
  match r.1 with
  | .ok t => { c.withMemory r.2 with kept := (key, t) :: c.kept }
  | .error _ => c.withMemory r.2

theorem answer_expand_eq (pattern flags : Text) (c : Context) :
    answer (expand pattern flags) c =
      match c.kept.lookup (pattern, c.dialect.fullFlags flags) with
      | some t => (.ok t, c)
      | none =>
        let r := c.dialect.expand pattern (c.dialect.fullFlags flags) c.tally
        (r.1, c.afterExpand (pattern, c.dialect.fullFlags flags) r) := by
  unfold expand
  rw [answer_bind, answer_get]
  simp only
  cases c.kept.lookup (pattern, c.dialect.fullFlags flags) with
  | some t => rfl
  | none =>
    simp only [answer_bind, answer_modify, answer_lift, afterExpand]
    cases (c.dialect.expand pattern (c.dialect.fullFlags flags) c.tally).1 <;> rfl

/-- The dialect is transparent, and each kept expansion is what its pattern means. -/
structure Faithful (c : Context) : Prop where
  dialect : c.dialect.Transparent
  kept : ∀ pattern flags t, ((pattern, flags), t) ∈ c.kept →
    c.dialect.meaning pattern flags = .ok t

variable {c : Context}

/-- A memory over the properties of a dialect changes nothing that the dialect means. -/
theorem cleared_withMemory {m : Memory} (h : SoundOver c.dialect.properties.cleared m.properties) :
    (c.withMemory m).dialect.cleared = c.dialect.cleared := by
  simp only [withMemory, Dialect.cleared, h.cleared]

theorem Faithful.withMemory (h : c.Faithful) {m : Memory}
    (hm : SoundOver c.dialect.properties.cleared m.properties) : (c.withMemory m).Faithful where
  dialect := ⟨h.dialect.tokens, hm.sound⟩
  kept pattern flags t ht := by
    rw [← Dialect.meaning_cleared, cleared_withMemory hm]
    exact h.kept pattern flags t ht

/-- **A faithful context answers with the meaning of the pattern.** -/
theorem Faithful.answer_expand (h : c.Faithful) (pattern flags : Text) :
    (answer (expand pattern flags) c).1 =
      c.dialect.meaning pattern (c.dialect.fullFlags flags) := by
  rw [answer_expand_eq]
  cases hl : c.kept.lookup (pattern, c.dialect.fullFlags flags) with
  | some t => exact (h.kept _ _ t (mem_of_lookup_eq_some hl)).symm
  | none => exact (Dialect.expand_eq_meaning h.dialect pattern _ c.tally).1

/-- **The regex of a pattern in a faithful context** is made of the meaning of the pattern. -/
theorem Faithful.answer_regex (h : c.Faithful) (pattern flags : Text) :
    (answer (regex pattern flags) c).1 = (do
      let t ← c.dialect.meaning pattern (c.dialect.fullFlags flags)
      let engine ← Native.Engine.ofSource t.pattern t.flags.mode
      return { engine
               global := t.flags.global
               sticky := t.flags.sticky
               names := t.names
               source := some pattern
               flags := some (orderFlags (c.dialect.fullFlags flags))
               namespaced := c.dialect.features.namespacing }) := by
  have hexpand := h.answer_expand pattern flags
  unfold regex
  simp only [answer_bind, answer_get]
  generalize answer (expand pattern flags) c = result at hexpand
  obtain ⟨result, c'⟩ := result
  simp only at hexpand
  rw [hexpand]
  cases c.dialect.meaning pattern (c.dialect.fullFlags flags) with
  | error e => rfl
  | ok t =>
    simp only [answer_lift]
    show _ = (Native.Engine.ofSource t.pattern t.flags.mode).bind _
    cases Native.Engine.ofSource t.pattern t.flags.mode <;> rfl

end Context

/-! ## 3. What keeps a context faithful -/

/-- A task that leaves the context of a state faithful, with the same dialect up to what has been
derived from its properties. -/
def Keeps {σ α : Type} (context : σ → Context) (task : ExceptT Error (StateM σ) α) : Prop :=
  ∀ s, (context s).Faithful → (context (answer task s).2).Faithful ∧
    (context (answer task s).2).dialect.cleared = (context s).dialect.cleared

section Keeps

variable {σ : Type} {context : σ → Context}

theorem keeps_pure {α : Type} (a : α) : Keeps context (pure a) := fun _ h => ⟨h, rfl⟩

theorem keeps_throw {α : Type} (e : Error) :
    Keeps context (throw e : ExceptT Error (StateM σ) α) := fun _ h => ⟨h, rfl⟩

theorem keeps_get : Keeps context get := fun _ h => ⟨h, rfl⟩

theorem keeps_lift {α : Type} (x : Except Error α) :
    Keeps context (liftM x : ExceptT Error (StateM σ) α) := by
  intro s h
  rw [answer_lift]
  exact ⟨h, rfl⟩

theorem keeps_bind {α β : Type} {task : ExceptT Error (StateM σ) α}
    {f : α → ExceptT Error (StateM σ) β} (htask : Keeps context task)
    (hf : ∀ a, Keeps context (f a)) : Keeps context (task >>= f) := by
  intro s h
  have hkept := htask s h
  rw [answer_bind]
  generalize answer task s = x at hkept
  obtain ⟨r, s'⟩ := x
  cases r with
  | error e => exact hkept
  | ok a =>
    obtain ⟨h1, h2⟩ := hf a s' hkept.1
    exact ⟨h1, h2.trans hkept.2⟩

theorem keeps_mapM {α β : Type} {f : α → ExceptT Error (StateM σ) β}
    (hf : ∀ a, Keeps context (f a)) : ∀ l : List α, Keeps context (l.mapM f)
  | [] => by
      rw [List.mapM_nil]
      exact keeps_pure []
  | a :: l => by
      rw [List.mapM_cons]
      exact keeps_bind (hf a) fun b => keeps_bind (keeps_mapM hf l) fun bs => keeps_pure (b :: bs)

end Keeps

namespace Context

/-- An expansion keeps what it answers, which is the meaning of its pattern. -/
theorem keeps_expand (pattern flags : Text) : Keeps id (expand pattern flags) := by
  intro c h
  change c.Faithful at h
  change (answer (expand pattern flags) c).2.Faithful ∧
    (answer (expand pattern flags) c).2.dialect.cleared = c.dialect.cleared
  rw [answer_expand_eq]
  cases hl : c.kept.lookup (pattern, c.dialect.fullFlags flags) with
  | some t => exact ⟨h, rfl⟩
  | none =>
    obtain ⟨hmeaning, hmemory⟩ :=
      Dialect.expand_eq_meaning h.dialect pattern (c.dialect.fullFlags flags) c.tally
    simp only
    unfold afterExpand
    split
    · rename_i t ht
      rw [ht] at hmeaning
      have hm := h.withMemory hmemory
      refine ⟨⟨hm.dialect, ?_⟩, cleared_withMemory hmemory⟩
      intro pattern' flags' t' hmem
      rcases List.mem_cons.1 hmem with heq | hmem
      · cases heq
        rw [← Dialect.meaning_cleared]
        exact (congrFun (congrFun (congrArg Dialect.meaning (cleared_withMemory hmemory)) _) _).trans
          hmeaning.symm
      · exact hm.kept pattern' flags' t' hmem
    · exact ⟨h.withMemory hmemory, cleared_withMemory hmemory⟩

theorem keeps_regex (pattern flags : Text) : Keeps id (regex pattern flags) :=
  keeps_bind keeps_get fun _ =>
    keeps_bind (keeps_expand pattern flags) fun _ =>
      keeps_bind (keeps_lift _) fun _ => keeps_pure _

theorem keeps_unionPart (prior : Nat) : ∀ part : Needle, Keeps id (unionPart prior part)
  | .literal _ => keeps_pure _
  | .regex _ => keeps_bind (keeps_expand _ _) fun _ => keeps_pure _

theorem keeps_unionParts : ∀ (prior : Nat) (parts : List Needle), Keeps id (unionParts prior parts)
  | _, [] => keeps_pure []
  | prior, part :: parts =>
      keeps_bind (keeps_unionPart prior part) fun r =>
        keeps_bind (keeps_unionParts r.2 parts) fun _ => keeps_pure _

theorem keeps_union (parts : List Needle) (flags : Text) (conjunction : Conjunction) :
    Keeps id (union parts flags conjunction) := by
  have hmerge : Keeps id (unionParts 0 parts >>= fun written =>
      regex (conjunction.separator.intercalate written) flags) :=
    keeps_bind (keeps_unionParts 0 parts) fun _ => keeps_regex _ _
  unfold union
  split
  · exact keeps_bind (keeps_throw _) fun _ => hmerge
  · exact hmerge

theorem keeps_expandedPart (pattern flags : Text) : Keeps id (expandedPart pattern flags) :=
  keeps_bind (keeps_expand pattern flags) fun _ => keeps_pure _

theorem keeps_subpart (flags : Text) : ∀ sub : Subpattern, Keeps id (subpart flags sub)
  | .literal _ => keeps_pure _
  | .pattern _ => keeps_expandedPart _ _
  | .regex re => by
      simp only [subpart]
      split
      · exact keeps_pure _
      · exact keeps_expandedPart _ _

theorem keeps_subparts (flags : Text) (subs : List (Text × Subpattern)) :
    Keeps id (subparts flags subs) :=
  keeps_bind
    (keeps_mapM (fun s => keeps_bind (keeps_subpart flags s.2) fun _ => keeps_pure _) subs)
    fun _ => keeps_pure _

theorem keeps_build (pattern : Text) (subs : List (Text × Subpattern)) (flags : Text) :
    Keeps id (build pattern subs flags) :=
  keeps_bind (keeps_subparts _ subs) fun _ =>
    keeps_bind (keeps_expandedPart pattern _) fun _ =>
      keeps_bind (keeps_lift _) fun _ => keeps_regex _ _

end Context

end ExtensibleRegex
