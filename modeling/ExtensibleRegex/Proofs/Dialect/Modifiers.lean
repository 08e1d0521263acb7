import ExtensibleRegex.Proofs.Dialect.Fresh
import Mathlib.Tactic

/-!
# Mode modifiers

The flags of a pattern may stand in its flag text or in a mode modifier that it opens with, and in
any order. None of that shows in what it is expanded to:

* whatever reads a pattern asks of its flags only whether they occur (`Reader.read_sameFlags`,
  `Reader.nativeFlags_sameFlags`);
* what is prepared is the end of the pattern, with the flags of its flag text and of its mode
  modifier (`KnownFlags.of_prepare`), and a mode modifier is folded in exactly if all of them are
  known (`KnownFlags.prepare_modifier`);
* so a pattern with a mode modifier is compiled exactly if the pattern without it is under all the
  flags, and to the same expansion (`Context.answer_expand_modifier`).
-/

namespace ExtensibleRegex

/-! ## 1. Flag texts with the same flags -/

/-- Flag texts with the same flags, in whatever order and however often. -/
def SameFlags (a b : Text) : Prop := ∀ c, c ∈ a ↔ c ∈ b

theorem SameFlags.contains {a b : Text} (h : SameFlags a b) (c : Char) :
    a.contains c = b.contains c := by
  rw [Bool.eq_iff_iff, List.contains_iff_mem, List.contains_iff_mem]
  exact h c

/-- A flag text keeps its flags when repeated ones are dropped. -/
theorem sameFlags_keepLastFlags (flags : Text) : SameFlags (keepLastFlags flags) flags :=
  fun c => mem_keepLastFlags c flags

/-! ## 2. Readings -/

namespace Reader

variable {a b : Text} (h : SameFlags a b) (namespacing : Bool)

include h

theorem separator_sameFlags (behind ahead : Text) :
    separator behind ahead a = separator behind ahead b := by
  unfold separator quantifierNext
  rw [h.contains]

theorem token?_sameFlags (scope : Scope) (ledger : Ledger) (behind t : Text) :
    (⟨a, namespacing⟩ : Reader).token? scope ledger behind t =
      (⟨b, namespacing⟩ : Reader).token? scope ledger behind t := by
  unfold token? escape parenthesis dot blank
  simp only [h.contains, separator_sameFlags h]

/-- **What a text begins with is read alike** under the same flags. -/
theorem segment_sameFlags (scope : Scope) (ledger : Ledger) (behind t : Text) :
    (⟨a, namespacing⟩ : Reader).segment scope ledger behind t =
      (⟨b, namespacing⟩ : Reader).segment scope ledger behind t := by
  unfold segment
  rw [token?_sameFlags h]

theorem readFrom_sameFlags : ∀ (t : Text) (skip : Nat) (scope : Scope) (ledger : Ledger)
    (behind : Text), (⟨a, namespacing⟩ : Reader).readFrom skip scope ledger behind t =
      (⟨b, namespacing⟩ : Reader).readFrom skip scope ledger behind t
  | [], skip, _, _, _ => by cases skip <;> rfl
  | c :: cs, skip + 1, scope, ledger, behind => by
      unfold readFrom
      exact readFrom_sameFlags cs skip scope ledger (c :: behind)
  | c :: cs, 0, scope, ledger, behind => by
      unfold readFrom
      rw [segment_sameFlags h]
      cases (⟨b, namespacing⟩ : Reader).segment scope ledger behind (c :: cs) with
      | error e => rfl
      | ok x => simp only [readFrom_sameFlags cs (x.2 - 1)]

/-- **A pattern is read alike** under the same flags. -/
theorem read_sameFlags (t : Text) :
    (⟨a, namespacing⟩ : Reader).read t = (⟨b, namespacing⟩ : Reader).read t :=
  readFrom_sameFlags h namespacing t 0 _ _ _

/-- The same flags have the same native flags among them. -/
theorem nativeFlags_sameFlags : nativeFlags a = nativeFlags b := by
  unfold nativeFlags NativeFlags.ofText
  simp only [h.contains]

end Reader

/-! ## 3. Mode modifiers -/

/-- The flags of a mode modifier that a pattern opens with, none if it opens with none. -/
def modifierFlags (pattern : Text) : Text := ((modeModifier? pattern).map (·.1)).getD []

/-- A pattern after a mode modifier. -/
def withModifier (modifier pattern : Text) : Text := '(' :: '?' :: (modifier ++ ')' :: pattern)

theorem modeModifier?_withModifier {modifier : Text} (hne : modifier ≠ [])
    (hname : ∀ c ∈ modifier, isNameChar c = true) (pattern : Text) :
    modeModifier? (withModifier modifier pattern) = some (modifier, pattern) := by
  have hclose : isNameChar ')' = false := by decide
  have htake : (modifier ++ ')' :: pattern).takeWhile isNameChar = modifier := by
    rw [List.takeWhile_append_of_pos hname, List.takeWhile_cons_of_neg (by simp [hclose]),
      List.append_nil]
  have hdrop : (modifier ++ ')' :: pattern).dropWhile isNameChar = ')' :: pattern := by
    rw [List.dropWhile_append_of_pos hname, List.dropWhile_cons_of_neg (by simp [hclose])]
  obtain ⟨c, cs, rfl⟩ := List.exists_cons_of_ne_nil hne
  unfold withModifier modeModifier?
  simp only [htake, hdrop]

/-- What follows a mode modifier is the end of the pattern. -/
theorem suffix_of_modeModifier? {pattern modifier body : Text}
    (h : modeModifier? pattern = some (modifier, body)) : body <:+ pattern := by
  unfold modeModifier? at h
  split at h
  · rename_i rest
    split at h
    · rename_i c flags body' htake hdrop
      cases h
      have hbody : ')' :: body <:+ rest := hdrop ▸ List.dropWhile_suffix _
      have hrest : rest <:+ '(' :: '?' :: rest := List.suffix_append ['(', '?'] rest
      exact (List.suffix_cons ')' body).trans (hbody.trans hrest)
    · cases h
  · cases h

/-! ## 4. Preparing -/

namespace KnownFlags

variable {k : KnownFlags}

theorem refuseUnknown_eq_ok {flags : Text} :
    k.refuseUnknown flags = .ok () ↔ ∀ c ∈ flags, k.knows c = true := by
  unfold refuseUnknown
  cases hfind : flags.find? fun c => !k.knows c with
  | none =>
    rw [List.find?_eq_none] at hfind
    simpa using hfind
  | some c =>
    have hmem := List.mem_of_find?_eq_some hfind
    have hunknown := List.find?_some hfind
    simp only [reduceCtorEq, false_iff, not_forall]
    exact ⟨c, hmem, by simpa using hunknown⟩

/-- **What a pattern is prepared to**: the end of it, with the flags of its flag text and of its mode
modifier, which are all known. -/
theorem of_prepare {pattern flags : Text} {prepared : Prepared}
    (h : k.prepare pattern flags = .ok prepared) :
    prepared.pattern <:+ pattern ∧ SameFlags prepared.flags (flags ++ modifierFlags pattern) ∧
      ∀ c ∈ prepared.flags, k.knows c = true := by
  unfold prepare at h
  unfold modifierFlags
  obtain ⟨_, -, h⟩ := bind_eq_ok.1 h
  cases hmodifier : modeModifier? pattern with
  | none =>
    rw [hmodifier] at h
    obtain ⟨_, hknown, h⟩ := bind_eq_ok.1 h
    cases h
    refine ⟨List.suffix_refl _, fun c => ?_, refuseUnknown_eq_ok.1 hknown⟩
    simp
  | some m =>
    obtain ⟨modifier, body⟩ := m
    rw [hmodifier] at h
    simp only at h
    split at h
    · cases h
    · obtain ⟨_, hknown, h⟩ := bind_eq_ok.1 h
      cases h
      exact ⟨suffix_of_modeModifier? hmodifier, sameFlags_keepLastFlags _, refuseUnknown_eq_ok.1 hknown⟩

theorem refuseRepeats_of_nodup {flags : Text} (h : flags.Nodup) : refuseRepeats flags = .ok () := by
  unfold refuseRepeats
  rw [repeatedFlag?_eq_none_iff.2 h]

/-- A pattern that opens with no mode modifier is prepared with its flags, if all are known. -/
theorem prepare_plain {pattern flags : Text} (hpattern : modeModifier? pattern = none)
    (hnodup : flags.Nodup) {prepared : Prepared} :
    k.prepare pattern flags = .ok prepared ↔
      (∀ c ∈ flags, k.knows c = true) ∧ prepared = ⟨pattern, flags⟩ := by
  unfold prepare
  rw [refuseRepeats_of_nodup hnodup, hpattern, ← refuseUnknown_eq_ok]
  cases k.refuseUnknown flags with
  | error e => simp [bind, Except.bind]
  | ok u => simp [bind, Except.bind, pure, Except.pure, eq_comm]

/-- **A mode modifier is folded into the flags**, if all are known. -/
theorem prepare_modifier {pattern flags modifier : Text} (hne : modifier ≠ [])
    (hname : ∀ c ∈ modifier, isNameChar c = true) (hreserved : 'g' ∉ modifier ∧ 'y' ∉ modifier)
    (hnodup : flags.Nodup) {prepared : Prepared} :
    k.prepare (withModifier modifier pattern) flags = .ok prepared ↔
      (∀ c ∈ flags ++ modifier, k.knows c = true) ∧
        prepared = ⟨pattern, keepLastFlags (flags ++ modifier)⟩ := by
  have hallowed : (modifier.contains 'g' || modifier.contains 'y') = false := by
    simp [hreserved.1, hreserved.2]
  have hknown : (∀ c ∈ flags ++ modifier, k.knows c = true) ↔
      ∀ c ∈ keepLastFlags (flags ++ modifier), k.knows c = true :=
    forall_congr' fun c => by rw [mem_keepLastFlags]
  unfold prepare
  rw [refuseRepeats_of_nodup hnodup, modeModifier?_withModifier hne hname, hknown,
    ← refuseUnknown_eq_ok]
  simp only [hallowed]
  cases k.refuseUnknown (keepLastFlags (flags ++ modifier)) with
  | error e => simp [bind, Except.bind]
  | ok u => simp [bind, Except.bind, pure, Except.pure, eq_comm]

end KnownFlags

/-! ## 5. Expansions -/

namespace Reader

/-- An expansion that succeeds, by what is prepared and how it is read. -/
theorem expansion_eq_ok {pattern flags : Text} {t : Expansion} :
    expansion pattern flags = .ok t ↔ ∃ prepared pieces,
      Dialect.initial.flags.prepare pattern flags = .ok prepared ∧
        (⟨prepared.flags, false⟩ : Reader).read prepared.pattern = .ok pieces ∧
        t = ⟨mergeEmptyGroups (render pieces), nativeFlags prepared.flags,
          if (names pieces).any Option.isSome then some (names pieces) else none⟩ := by
  unfold expansion
  constructor
  · intro h
    obtain ⟨prepared, hprepared, h⟩ := bind_eq_ok.1 h
    obtain ⟨pieces, hpieces, h⟩ := bind_eq_ok.1 h
    exact ⟨prepared, pieces, hprepared, hpieces, (Except.ok.inj h).symm⟩
  · rintro ⟨prepared, pieces, hprepared, hpieces, rfl⟩
    exact bind_eq_ok.2 ⟨prepared, hprepared, bind_eq_ok.2 ⟨pieces, hpieces, rfl⟩⟩

end Reader

namespace Context

/-- **Where the flags of a pattern stand does not matter.** A pattern after a mode modifier is
compiled exactly if the pattern alone is, under a flag text with the flags of both, and to the same
expansion. -/
theorem answer_expand_modifier {c : Context} (h : c.Fresh) {pattern flags modifier all : Text}
    (hpattern : modeModifier? pattern = none) (hflags : flags.Nodup) (hne : modifier ≠ [])
    (hname : ∀ d ∈ modifier, isNameChar d = true) (hreserved : 'g' ∉ modifier ∧ 'y' ∉ modifier)
    (hall : all.Nodup) (hmem : ∀ d, d ∈ all ↔ d ∈ flags ∨ d ∈ modifier) (t : Expansion) :
    (answer (expand (withModifier modifier pattern) flags) c).1 = .ok t ↔
      (answer (expand pattern all) c).1 = .ok t := by
  have hsame : SameFlags (keepLastFlags (flags ++ modifier)) all := fun d => by
    rw [sameFlags_keepLastFlags, List.mem_append, hmem]
  have hknown (k : KnownFlags) : (∀ d ∈ flags ++ modifier, k.knows d = true) ↔
      ∀ d ∈ all, k.knows d = true :=
    forall_congr' fun d => by rw [List.mem_append, hmem]
  rw [h.answer_expand, h.answer_expand, Reader.expansion_eq_ok, Reader.expansion_eq_ok]
  simp only [KnownFlags.prepare_modifier hne hname hreserved hflags,
    KnownFlags.prepare_plain hpattern hall, hknown]
  constructor
  · rintro ⟨_, pieces, ⟨hk, rfl⟩, hread, rfl⟩
    refine ⟨_, pieces, ⟨hk, rfl⟩, (Reader.read_sameFlags hsame false _).symm.trans hread, ?_⟩
    rw [Reader.nativeFlags_sameFlags hsame]
  · rintro ⟨_, pieces, ⟨hk, rfl⟩, hread, rfl⟩
    refine ⟨_, pieces, ⟨hk, rfl⟩, (Reader.read_sameFlags hsame false _).trans hread, ?_⟩
    rw [Reader.nativeFlags_sameFlags hsame]

/-- A mode modifier that repeats a flag, and has one that the flag text has too. -/
theorem answer_expand_modifier_spaced :
    let pattern := "(a) . # any".toList
    let modifier := "xiis".toList
    let all := ['g', 'i', 's', 'x']
    modeModifier? pattern = none ∧ all.Nodup ∧
      (∀ d, d ∈ all ↔ d ∈ ['s', 'g'] ∨ d ∈ modifier) ∧
      ∀ t, (answer (expand (withModifier modifier pattern) ['s', 'g']) initial).1 = .ok t ↔
        (answer (expand pattern all) initial).1 = .ok t := by
  intro pattern modifier all
  have hpattern : modeModifier? pattern = none := by decide
  have hall : all.Nodup := by decide
  have hmem (d : Char) : d ∈ all ↔ d ∈ ['s', 'g'] ∨ d ∈ modifier := by
    simp [all, modifier]
    tauto
  exact ⟨hpattern, hall, hmem, answer_expand_modifier fresh_initial hpattern (by decide) (by decide)
    (List.all_eq_true.1 (by decide)) (by decide) hall hmem⟩

end Context

end ExtensibleRegex
