import ExtensibleRegex.Combine.Build
import ExtensibleRegex.Proofs.Dialect.Fresh
import ExtensibleRegex.Proofs.Dialect.NativeSyntax
import Mathlib.Tactic

/-!
# Builds in fresh contexts

In a fresh context a build is a matter of texts, as a union is: the outer pattern and the subpatterns
are expanded by the reader, their texts are put together (`freshText`), and the regex of that is the one
of a new context. The answer does not depend on the context, which stays fresh (`answers_build`).
-/

namespace ExtensibleRegex

open Native

namespace Context

/-! ## 1. Texts -/

/-- A pattern that is expanded as a part. -/
def freshPart (pattern flags : Text) : Except Error Part := do
  let t ← Reader.expansion pattern flags
  return ⟨t.pattern, t.names.getD []⟩

/-- A subpattern as a part. -/
def freshSubpart (flags : Text) : Subpattern → Except Error Part
  | .literal t => return ⟨escape t, []⟩
  | .pattern t => freshPart t flags
  | .regex re =>
    match re.names with
    | some names => return ⟨re.nativeSource, names⟩
    | none => freshPart re.nativeSource flags

/-- Named subpatterns as parts without their anchors, the last one first. -/
def freshSubparts (flags : Text) (subs : List (Text × Subpattern)) :
    Except Error (List (Text × Part)) := do
  let parts ← subs.mapM fun s => do
    let part ← freshSubpart flags s.2
    return (s.1, { part with pattern := stripAnchors part.pattern })
  return parts.reverse

/-- The flags for the parts of a build. -/
def partFlags (flags : Text) : Text := if flags.contains 'x' then ['x'] else []

/-- The flags for the whole of a build. -/
def buildFlags (pattern flags : Text) : Text :=
  match modeModifier? pattern with
  | some (modifier, _) => keepLastFlags (flags ++ modifier)
  | none => flags

/-- The text of a pattern with its subpatterns put in. -/
def freshText (pattern : Text) (subs : List (Text × Subpattern)) (flags : Text) :
    Except Error Text := do
  let parts ← freshSubparts (partFlags flags) subs
  let outer ← freshPart pattern (partFlags flags)
  assemble outer parts

/-- The regex that a fresh context builds. -/
def freshBuild (pattern : Text) (subs : List (Text × Subpattern)) (flags : Text) :
    Except Error Regex := do
  let t ← freshText pattern subs flags
  freshRegex t (buildFlags pattern flags)

/-- Each answer of a list of steps is that of one of them. -/
theorem exists_of_mapM_eq_ok {α β : Type} {f : α → Except Error β} {as : List α} {bs : List β}
    (h : as.mapM f = .ok bs) {b : β} (hb : b ∈ bs) : ∃ a ∈ as, f a = .ok b := by
  induction as generalizing bs with
  | nil =>
    cases h
    cases hb
  | cons a as ih =>
    rw [List.mapM_cons] at h
    obtain ⟨first, hfirst, h⟩ := bind_eq_ok.1 h
    obtain ⟨rest, hrest, h⟩ := bind_eq_ok.1 h
    obtain rfl := Except.ok.inj h
    rcases List.mem_cons.1 hb with rfl | hb
    · exact ⟨a, List.mem_cons_self, hfirst⟩
    · obtain ⟨a', ha', hf⟩ := ih hrest hb
      exact ⟨a', List.mem_cons_of_mem a ha', hf⟩

/-! ## 2. Answers -/

/-- A task that every fresh context answers alike, and that leaves it fresh. -/
def Answers {α : Type} (task : ContextM α) (result : Except Error α) : Prop :=
  ∀ c : Context, c.Fresh → (answer task c).1 = result ∧ (answer task c).2.Fresh

section Answers

variable {α β : Type}

theorem answers_pure (a : α) : Answers (pure a) (.ok a) := fun _ h => ⟨rfl, h⟩

theorem answers_lift (result : Except Error α) : Answers (liftM result) result := by
  intro c h
  rw [answer_lift]
  exact ⟨rfl, h⟩

theorem answers_bind {task : ContextM α} {result : Except Error α} {f : α → ContextM β}
    {g : α → Except Error β} (htask : Answers task result) (hf : ∀ a, Answers (f a) (g a)) :
    Answers (task >>= f) (result >>= g) := by
  intro c h
  have hfirst := htask c h
  rw [answer_bind]
  generalize answer task c = x at hfirst
  obtain ⟨r, c'⟩ := x
  obtain ⟨rfl, hfresh⟩ := hfirst
  cases r with
  | error e => exact ⟨rfl, hfresh⟩
  | ok a => exact hf a c' hfresh

theorem answers_mapM {f : α → ContextM β} {g : α → Except Error β} (hf : ∀ a, Answers (f a) (g a)) :
    ∀ as : List α, Answers (as.mapM f) (as.mapM g)
  | [] => by
      rw [List.mapM_nil, List.mapM_nil]
      exact answers_pure []
  | a :: as => by
      rw [List.mapM_cons, List.mapM_cons]
      exact answers_bind (hf a) fun b =>
        answers_bind (answers_mapM hf as) fun bs => answers_pure (b :: bs)

end Answers

theorem answers_expand (pattern flags : Text) :
    Answers (expand pattern flags) (Reader.expansion pattern flags) :=
  fun _ h => ⟨h.answer_expand pattern flags, h.after (keeps_expand pattern flags)⟩

theorem answers_regex (pattern flags : Text) :
    Answers (regex pattern flags) (freshRegex pattern flags) :=
  fun _ h => h.answer_freshRegex pattern flags

theorem answers_expandedPart (pattern flags : Text) :
    Answers (expandedPart pattern flags) (freshPart pattern flags) :=
  answers_bind (answers_expand pattern flags) fun _ => answers_pure _

theorem answers_subpart (flags : Text) : ∀ sub : Subpattern,
    Answers (subpart flags sub) (freshSubpart flags sub)
  | .literal _ => answers_pure _
  | .pattern t => answers_expandedPart t flags
  | .regex re => by
      simp only [subpart, freshSubpart]
      cases re.names with
      | some names => exact answers_pure _
      | none => exact answers_expandedPart re.nativeSource flags

theorem answers_subparts (flags : Text) (subs : List (Text × Subpattern)) :
    Answers (subparts flags subs) (freshSubparts flags subs) :=
  answers_bind (answers_mapM (fun s => answers_bind (answers_subpart flags s.2) fun _ =>
    answers_pure _) subs) fun _ => answers_pure _

/-- **A build in a fresh context** depends on its patterns and flags only. -/
theorem answers_build (pattern : Text) (subs : List (Text × Subpattern)) (flags : Text) :
    Answers (build pattern subs flags) (freshBuild pattern subs flags) := by
  have hbuild : freshBuild pattern subs flags = (do
      let parts ← freshSubparts (partFlags flags) subs
      let outer ← freshPart pattern (partFlags flags)
      let t ← assemble outer parts
      freshRegex t (buildFlags pattern flags)) := by
    unfold freshBuild freshText
    simp only [bind_assoc]
  rw [hbuild]
  exact answers_bind (answers_subparts _ subs) fun _ =>
    answers_bind (answers_expandedPart pattern _) fun _ =>
      answers_bind (answers_lift _) fun _ => answers_regex _ _

/-! ## 3. What is read -/

/-- The expansion of a pattern without a mode modifier, by what is read of it. -/
theorem expansion_of_map {pattern flags native : Text} {names : GroupNames}
    (hmodifier : modeModifier? pattern = none)
    (hflags : flags.Nodup ∧ ∀ f ∈ flags, f ∈ ['g', 'i', 'm', 'n', 's', 'u', 'x', 'y'])
    (hread : ((⟨flags, false⟩ : Reader).read pattern).map (fun pieces =>
      (mergeEmptyGroups (Reader.render pieces), Reader.names pieces)) = .ok (native, names)) :
    Reader.expansion pattern flags = .ok
      { pattern := native
        flags := Reader.nativeFlags flags
        names := if names.any Option.isSome then some names else none } := by
  cases hpieces : (⟨flags, false⟩ : Reader).read pattern with
  | error e =>
    rw [hpieces] at hread
    cases hread
  | ok pieces =>
    rw [hpieces] at hread
    obtain ⟨rfl, rfl⟩ := Prod.mk.inj (Except.ok.inj hread)
    exact Reader.expansion_of_read hmodifier hflags.2 hflags.1 hpieces

/-- A pattern as a part, by what is read of it. -/
theorem freshPart_of_map {pattern native : Text} {names : GroupNames}
    (hmodifier : modeModifier? pattern = none)
    (hread : ((⟨[], false⟩ : Reader).read pattern).map (fun pieces =>
      (mergeEmptyGroups (Reader.render pieces), Reader.names pieces)) = .ok (native, names)) :
    freshPart pattern [] = .ok ⟨native, (if names.any Option.isSome then some names else none).getD []⟩ := by
  unfold freshPart
  rw [expansion_of_map hmodifier ⟨List.nodup_nil, fun _ hf => absurd hf List.not_mem_nil⟩ hread]
  rfl

/-- The regex of a pattern without a mode modifier, by what is read of it. -/
theorem exists_freshRegex_of_map {pattern flags native : Text} {names : GroupNames} {program : Program}
    (hmodifier : modeModifier? pattern = none)
    (hflags : flags.Nodup ∧ ∀ f ∈ flags, f ∈ ['g', 'i', 'm', 'n', 's', 'u', 'x', 'y'])
    (hread : ((⟨flags, false⟩ : Reader).read pattern).map (fun pieces =>
      (mergeEmptyGroups (Reader.render pieces), Reader.names pieces)) = .ok (native, names))
    (hprogram : Program.ofSource? native (Reader.nativeFlags flags).mode = some program) :
    ∃ re, freshRegex pattern flags = .ok re ∧ re.engine.program = program ∧
      re.source = some pattern ∧ re.sticky = (Reader.nativeFlags flags).sticky ∧
      re.nativeSource = native := by
  have hexpansion := expansion_of_map hmodifier hflags hread
  obtain ⟨e, he, hnode⟩ := Engine.ofSource_of_program hprogram
  refine ⟨{ engine := e, global := (Reader.nativeFlags flags).global,
            sticky := (Reader.nativeFlags flags).sticky,
            names := if names.any Option.isSome then some names else none,
            source := some pattern, flags := some (orderFlags flags), namespaced := false }, ?_,
    hnode, rfl, rfl, (Engine.ofSource_eq_ok.1 he).1⟩
  unfold freshRegex
  rw [hexpansion]
  show Engine.ofSource native (Reader.nativeFlags flags).mode >>= _ = _
  rw [he]
  rfl

/-- The pieces that a regex without a mode modifier is made of. -/
theorem read_of_freshRegex {pattern flags : Text} {re : Regex}
    (h : freshRegex pattern flags = .ok re) (hmodifier : modeModifier? pattern = none) :
    ∃ pieces, (⟨flags, false⟩ : Reader).read pattern = .ok pieces ∧
      re.engine.source = mergeEmptyGroups (Reader.render pieces) ∧
      re.engine.mode = (Reader.nativeFlags flags).mode ∧
      re.sticky = (Reader.nativeFlags flags).sticky ∧ re.source = some pattern ∧
      re.names = if (Reader.names pieces).any Option.isSome then some (Reader.names pieces) else none := by
  obtain ⟨t, ht, h⟩ := bind_eq_ok.1 h
  obtain ⟨engine, hengine, h⟩ := bind_eq_ok.1 h
  obtain rfl := Except.ok.inj h
  obtain ⟨prepared, hprepare, ht⟩ := bind_eq_ok.1 ht
  obtain ⟨rfl, -⟩ := KnownFlags.prepare_eq_ok hmodifier hprepare
  obtain ⟨pieces, hread, ht⟩ := bind_eq_ok.1 ht
  obtain rfl := Except.ok.inj ht
  obtain ⟨hsource, hmode⟩ := Engine.ofSource_eq_ok.1 hengine
  exact ⟨pieces, hread, hsource, hmode, rfl, rfl, rfl⟩

/-- What is put together without free spacing, by the parts. -/
theorem freshText_of_parts {pattern flags t : Text} {subs : List (Text × Subpattern)}
    {parts : List (Text × Part)} {outer : Part} (hflags : partFlags flags = [])
    (hsubs : freshSubparts [] subs = .ok parts) (houter : freshPart pattern [] = .ok outer)
    (h : assemble outer parts = .ok t) : freshText pattern subs flags = .ok t := by
  unfold freshText
  rw [hflags, hsubs, houter]
  exact h

/-- What a fresh context builds, by what is put together. -/
theorem answer_build_of_text {pattern flags t : Text} {subs : List (Text × Subpattern)} {re : Regex}
    (ht : freshText pattern subs flags = .ok t)
    (hre : freshRegex t (buildFlags pattern flags) = .ok re) :
    (answer (build pattern subs flags) initial).1 = .ok re := by
  rw [(answers_build pattern subs flags initial fresh_initial).1, freshBuild, ht]
  exact hre

end Context

end ExtensibleRegex
