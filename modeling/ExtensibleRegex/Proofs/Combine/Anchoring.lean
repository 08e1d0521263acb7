import ExtensibleRegex.Proofs.Combine.Anchors
import ExtensibleRegex.Proofs.Expansion.Seams
import ExtensibleRegex.Proofs.Native.Leading
import Mathlib.Tactic

/-!
# What a pattern matches without its anchors

The anchors that a subpattern begins and ends with are taken off, and where it is put in it stands in a
group. Put between anchors again, that group is to match what the subpattern did.

* The empty groups around the anchors make no difference (`meaning_emptyGroups_append`,
  `meaning_append_emptyGroups`), and what is left between the anchors ends outside of classes and escapes
  (`after_stripAnchors`).
* **What the group between anchors finds the pattern finds somewhere, and a pattern without a bar outside
  of its groups finds just the same** (`search?_of_stripAnchors`). With such a bar the anchors belonged
  to the first and to the last alternative only, and the group finds less
  (`stripAnchors_of_alternatives`).
-/

namespace ExtensibleRegex

open Native

/-! ## 1. Empty groups around the anchors -/

section EmptyGroups

variable {mode : Mode} {t : Text}

theorem meaning_emptyGroups_append (h : leastRounds? t = none) :
    ∀ m : Nat, meaning mode (emptyGroups m ++ t) = meaning mode t
  | 0 => rfl
  | m + 1 => by
      have hnext : leastRounds? (emptyGroups m ++ t) = none := by
        cases m with
        | zero => exact h
        | succ m => rfl
      rw [emptyGroups_succ, List.append_assoc, ← meaning_emptyGroups_append h m]
      exact (meaning_apart (a := []) (.inl rfl) rfl hnext).symm

theorem meaning_append_emptyGroups (h : Spot.outside.after t = .outside) :
    ∀ n : Nat, meaning mode (t ++ emptyGroups n) = meaning mode t
  | 0 => by rw [show emptyGroups 0 = [] from rfl, List.append_nil]
  | n + 1 => by
      have hapart : Apart t (emptyGroups n) ∧ leastRounds? (emptyGroups n) = none := by
        cases n with
        | zero => exact ⟨.inr (.inl rfl), rfl⟩
        | succ n => exact ⟨.inr (.inr (.inr rfl)), rfl⟩
      rw [emptyGroups_succ, ← meaning_append_emptyGroups h n]
      exact (meaning_apart hapart.1 h hapart.2).symm

end EmptyGroups

/-! ## 2. What is left between the anchors -/

/-- A well-formed pattern ends outside of classes and escapes. -/
theorem Native.Program.Reads.after {w : Text} {mode : Mode} {ls : List Lexeme} {r : Progress}
    (h : Program.Reads w mode ls r) : Spot.outside.after w = .outside := by
  have hlexed := h.lexed
  unfold lexemes? at hlexed
  cases hw : lexAll? mode.unicode mode.unicode 0 w [] with
  | none => rw [hw] at hlexed; cases hlexed
  | some ms => exact after_of_lexAll? _ _ _ _ (Nat.le_refl _) hw

section Strip

variable {mode : Mode} {p : Text}

/-- **A well-formed pattern between its anchors**, apart from the empty groups around them: what is left
ends outside of classes and escapes, since the dollar is not escaped and the class would stay open. -/
theorem stripAnchors_meaning {program : Program} (h : Program.ofSource? p mode = some program)
    (hstrip : stripAnchors p ≠ p) : Spot.outside.after (stripAnchors p) = .outside ∧
      meaning mode (betweenAnchors (stripAnchors p)) = meaning mode p := by
  obtain heq | ⟨m, n, heq, heven⟩ := stripAnchors_eq p
  · exact absurd heq hstrip
  generalize stripAnchors p = d at heq heven
  obtain ⟨ls, r, hreads, -⟩ := Program.ofSource?_eq_some_iff.1 h
  have hd : Spot.outside.after d = .outside := by
    have hunescaped : (Spot.outside.after d).escaped = false := by
      rw [Spot.escaped_after, heven]
      rfl
    have hafter := hreads.after
    rw [heq, Spot.after_append, after_emptyGroups] at hafter
    change Spot.outside.after (d ++ '$' :: emptyGroups n) = .outside at hafter
    rw [Spot.after_append, Spot.after_cons] at hafter
    generalize Spot.outside.after d = s at hafter hunescaped
    obtain ⟨inClass, escaped⟩ := s
    cases hunescaped
    have hdollar : Spot.next ⟨inClass, false⟩ '$' = ⟨inClass, false⟩ := by cases inClass <;> rfl
    rw [hdollar, after_emptyGroups] at hafter
    exact hafter
  refine ⟨hd, ?_⟩
  have hbetween : Spot.outside.after (betweenAnchors d) = .outside := by
    show Spot.outside.after (d ++ ['$']) = .outside
    rw [Spot.after_append, hd]
    rfl
  have hp : p = emptyGroups m ++ (betweenAnchors d ++ emptyGroups n) := by
    rw [heq]
    simp [betweenAnchors]
  rw [hp, meaning_emptyGroups_append rfl, meaning_append_emptyGroups hbetween]

/-! ## 3. The pattern and the group between anchors -/

variable {e : Engine}

/-- **What the group between anchors finds, the pattern finds somewhere**, and without a bar outside of
the groups both find the same from every place. -/
theorem search?_of_stripAnchors (hmode : mode.multiline = false) (h : Engine.ofSource p mode = .ok e)
    (hstrip : stripAnchors p ≠ p) : ∃ e', Engine.ofSource (enclosed (stripAnchors p)) mode = .ok e' ∧
      (∀ place, (e'.search? place).isSome = true → (e.search? place).isSome = true) ∧
      (Undivided mode (stripAnchors p) → ∀ place, e'.search? place = e.search? place) := by
  obtain ⟨hspot, hmeaning⟩ := stripAnchors_meaning (Engine.program_of_ofSource h) hstrip
  obtain ⟨between, hbetween, hsearch⟩ := Engine.exists_of_meaning hmeaning h
  obtain ⟨inner, hinner, hfound, hsame⟩ := exists_program_enclosed hmode hspot
    (Engine.program_of_ofSource hbetween)
  obtain ⟨e', he', rfl⟩ := Engine.ofSource_of_program hinner
  refine ⟨e', he', fun place hplace => ?_, fun hone place => ?_⟩
  · rw [← hsearch]
    exact hfound place hplace
  · rw [← hsearch]
    exact congrFun (hsame hone) place

end Strip

/-- Alternatives within a group, and an empty group before the anchor. -/
theorem search?_of_stripAnchors_group : ∃ e,
    Engine.ofSource "(?:)^a(b|c)$".toList ⟨false, false, false⟩ = .ok e ∧
    stripAnchors "(?:)^a(b|c)$".toList ≠ "(?:)^a(b|c)$".toList ∧
    Undivided ⟨false, false, false⟩ (stripAnchors "(?:)^a(b|c)$".toList) ∧
    ∃ e', Engine.ofSource "^(?:a(b|c))$".toList ⟨false, false, false⟩ = .ok e' ∧
      ∀ place, e'.search? place = e.search? place := by
  obtain ⟨program, hprogram⟩ : ∃ program,
    Program.ofSource? "(?:)^a(b|c)$".toList ⟨false, false, false⟩ = some program := ⟨_, rfl⟩
  obtain ⟨e, he, -⟩ := Engine.ofSource_of_program hprogram
  have hstrip : stripAnchors "(?:)^a(b|c)$".toList = "a(b|c)".toList := by decide +kernel
  have hchanged : stripAnchors "(?:)^a(b|c)$".toList ≠ "(?:)^a(b|c)$".toList := by
    rw [hstrip]
    decide
  have hone : Undivided ⟨false, false, false⟩ (stripAnchors "(?:)^a(b|c)$".toList) := by
    rw [hstrip]
    rintro ls hls
    cases hls
    rfl
  obtain ⟨e', he', -, hsame⟩ := search?_of_stripAnchors rfl he hchanged
  rw [hstrip] at he'
  exact ⟨e, he, hchanged, hone, e', he', hsame hone⟩

/-- **With a bar outside of the groups the anchors did not wrap the whole pattern**: the first one belonged
to the first alternative only, which the pattern finds before other text and the group does not. -/
theorem stripAnchors_of_alternatives : ∃ e e',
    Engine.ofSource "^a|b$".toList ⟨false, false, false⟩ = .ok e ∧
    stripAnchors "^a|b$".toList = "a|b".toList ∧
    Engine.ofSource (enclosed "a|b".toList) ⟨false, false, false⟩ = .ok e' ∧
    (e.search? (.first "ac".toList)).isSome = true ∧ e'.search? (.first "ac".toList) = none := by
  obtain ⟨program, hprogram⟩ : ∃ program,
    Program.ofSource? "^a|b$".toList ⟨false, false, false⟩ = some program := ⟨_, rfl⟩
  obtain ⟨program', hprogram'⟩ : ∃ program,
    Program.ofSource? (enclosed "a|b".toList) ⟨false, false, false⟩ = some program := ⟨_, rfl⟩
  obtain ⟨e, he, heq⟩ := Engine.ofSource_of_program hprogram
  obtain ⟨e', he', heq'⟩ := Engine.ofSource_of_program hprogram'
  cases hprogram
  cases hprogram'
  refine ⟨e, e', he, by decide +kernel, he', ?_, ?_⟩
  · simp only [Engine.search?, heq]
    rfl
  · simp only [Engine.search?, heq']
    rfl

end ExtensibleRegex
