import ExtensibleRegex.Proofs.Combine.Anchors
import ExtensibleRegex.Proofs.Expansion.Seams
import ExtensibleRegex.Proofs.Native.Members
import Mathlib.Tactic

/-!
# Empty groups in a row

Of several empty groups in a row only the first is kept in a native pattern, wherever the four characters
stand. Three kinds of places are to be told apart (`meaning_emptyGroup_again`):

* outside of classes and escapes they are groups, and of two the first one can go;
* in a class they are members, which are there already;
* behind a backslash outside of classes the first parenthesis is a character, a question mark and a colon
  follow, and the last parenthesis closes a group that was opened before. The groups behind it go, and then
  a quantifier that stood behind them takes hold of that group.

A text is `Loose` if no quantifier stands there in the last case. **A loose pattern keeps its meaning**
(`search?_of_mergeEmptyGroups`); one that is not may lose it (`mergeEmptyGroups_of_escaped`).
-/

namespace ExtensibleRegex

open Native

/-! ## 1. Loose texts -/

/-- Where the first of several empty groups in a row has its parenthesis escaped, outside of classes, no
quantifier stands behind the last one. From a spot on. -/
def LooseFrom (s : Spot) (t : Text) : Prop := Everywhere (fun s u => s = ⟨false, true⟩ →
  (emptyGroup ++ emptyGroup).isPrefixOf u = true →
    leastRounds? (dropEmptyGroups u.length u) = none) s t

/-- A text of which that holds everywhere. -/
def Loose (t : Text) : Prop := LooseFrom .outside t

instance (t : Text) : Decidable (Loose t) := inferInstanceAs (Decidable (Everywhere _ _ t))

/-! ## 2. One empty group more -/

section Meaning

variable {mode : Mode}

/-- **An empty group behind another one makes no difference**, unless the first one has its parenthesis
escaped and a quantifier follows. -/
theorem meaning_emptyGroup_again {x y : Text}
    (h : Spot.outside.after x = ⟨false, true⟩ → leastRounds? y = none) :
    meaning mode (x ++ (emptyGroup ++ y)) = meaning mode (x ++ (emptyGroup ++ (emptyGroup ++ y))) := by
  cases hx : Spot.outside.after x with
  | mk inClass escaped =>
    cases inClass with
    | true => exact meaning_emptyGroup_inClass (congrArg Spot.inClass hx) y
    | false =>
      cases escaped with
      | false => exact meaning_emptyGroup_twice hx y
      | true =>
        -- the last parenthesis closes a group, and keeps what follows apart
        have hseam : EndsAtSeam (x ++ emptyGroup) :=
          ⟨x ++ ['(', '?', ':'], [')'], by decide, by simp [emptyGroup]⟩
        have hafter : Spot.outside.after (x ++ emptyGroup) = .outside := by
          rw [Spot.after_append, hx]
          rfl
        have happart := @meaning_apart mode _ _ (.inr (.inr (.inl hseam))) hafter (h hx)
        rw [List.append_assoc, List.append_assoc] at happart
        exact happart

/-- **So do any number of them.** -/
theorem meaning_emptyGroups_again {x u : Text} : ∀ k : Nat,
    (Spot.outside.after x = ⟨false, true⟩ → 0 < k → leastRounds? u = none) →
    meaning mode (x ++ (emptyGroup ++ u)) =
      meaning mode (x ++ (emptyGroup ++ (emptyGroups k ++ u)))
  | 0, _ => rfl
  | k + 1, h => by
      have hnext (hx : Spot.outside.after x = ⟨false, true⟩) :
          leastRounds? (emptyGroups k ++ u) = none := by
        cases k with
        | zero => exact h hx Nat.one_pos
        | succ k => rfl
      rw [meaning_emptyGroups_again k fun hx _ => h hx (Nat.succ_pos k), meaning_emptyGroup_again hnext,
        emptyGroups_succ, List.append_assoc]

end Meaning

/-! ## 3. Whole texts -/

theorem mergedAfter_emptyGroups {u : Text} (h : emptyGroup.isPrefixOf u = false) :
    ∀ k : Nat, mergedAfter (emptyGroups k ++ u) = merged u
  | 0 => by
      cases u with
      | nil => rfl
      | cons c u => exact (mergedAfter_cons h).trans (merged_cons h).symm
  | k + 1 => by
      rw [emptyGroups_succ, List.append_assoc, mergedAfter_emptyGroup]
      exact mergedAfter_emptyGroups h k

section Collapse

variable {mode : Mode}

/-- What is kept of a text, behind a text `x` that has been gone through. The induction is on the runs of
empty groups and on the characters between them. -/
theorem meaning_collapsedFrom : ∀ (limit : Nat) (t x : Text), t.length ≤ limit →
    LooseFrom (Spot.outside.after x) t → meaning mode (x ++ merged t) = meaning mode (x ++ t)
  | _, [], _, _, _ => rfl
  | 0, _ :: _, _, h, _ => absurd h (Nat.not_succ_le_zero _)
  | limit + 1, c :: t, x, hlimit, hloose => by
      cases hempty : emptyGroup.isPrefixOf (c :: t) with
      | false =>
        have hnext : LooseFrom (Spot.outside.after (x ++ [c])) t := by
          rw [Spot.after_append]
          exact hloose.2
        have ih := meaning_collapsedFrom limit t (x ++ [c]) (Nat.le_of_succ_le_succ hlimit) hnext
        rw [merged_cons hempty]
        simpa using ih
      | true =>
        obtain ⟨n, hn⟩ := dropEmptyGroups_eq (c :: t).length (c :: t)
        have hstop := isPrefixOf_dropEmptyGroups (c :: t).length (c :: t) (Nat.le_refl _)
        have hquantifier : Spot.outside.after x = ⟨false, true⟩ →
            (emptyGroup ++ emptyGroup).isPrefixOf (c :: t) = true →
              leastRounds? (dropEmptyGroups (c :: t).length (c :: t)) = none := hloose.1
        generalize dropEmptyGroups (c :: t).length (c :: t) = u at hn hstop hquantifier
        obtain ⟨k, rfl⟩ : ∃ k, n = k + 1 := by
          refine Nat.exists_eq_succ_of_ne_zero fun hzero => ?_
          rw [hzero, show emptyGroups 0 ++ u = u from rfl] at hn
          rw [hn, hstop] at hempty
          cases hempty
        rw [emptyGroups_succ, List.append_assoc] at hn
        rw [hn] at hquantifier hloose ⊢
        have hlength : u.length ≤ limit := by
          have hlengths := congrArg List.length hn
          have hpos : emptyGroup.length = 4 := rfl
          simp only [List.length_cons, List.length_append] at hlengths hlimit
          omega
        have hlooseRest : LooseFrom (Spot.outside.after (x ++ emptyGroup)) u := by
          have hrest := (hloose.of_append emptyGroup).of_append (emptyGroups k)
          have hsame (s : Spot) : (s.after emptyGroup).after (emptyGroups k) = s.after emptyGroup := by
            obtain ⟨_ | _, _ | _⟩ := s <;> exact after_emptyGroups _ k
          rw [hsame] at hrest
          rw [Spot.after_append]
          exact hrest
        have hkept (hx : Spot.outside.after x = ⟨false, true⟩) (hk : 0 < k) : leastRounds? u = none := by
          refine hquantifier hx ?_
          obtain ⟨k, rfl⟩ := Nat.exists_eq_succ_of_ne_zero hk.ne'
          rw [emptyGroups_succ, List.append_assoc, ← List.append_assoc, List.isPrefixOf_iff_prefix]
          exact List.prefix_append _ _
        rw [merged_emptyGroup, mergedAfter_emptyGroups hstop, ← meaning_emptyGroups_again k hkept,
          ← List.append_assoc, ← List.append_assoc]
        exact meaning_collapsedFrom limit u (x ++ emptyGroup) hlength hlooseRest

/-- **A loose text keeps its meaning** when of several empty groups in a row only the first is kept. -/
theorem meaning_mergeEmptyGroups {t : Text} (h : Loose t) :
    meaning mode (mergeEmptyGroups t) = meaning mode t :=
  meaning_collapsedFrom t.length t [] (Nat.le_refl _) h

end Collapse

/-! ## 4. Engines -/

/-- **Where of several empty groups in a row only the first is kept**, a loose pattern is well-formed still
and finds the same from every place, with the same groups. -/
theorem search?_of_mergeEmptyGroups {t : Text} {mode : Mode} {e : Engine} (hloose : Loose t)
    (h : Engine.ofSource t mode = .ok e) : ∃ e', Engine.ofSource (mergeEmptyGroups t) mode = .ok e' ∧
      ∀ place, e'.search? place = e.search? place :=
  Engine.exists_of_meaning (meaning_mergeEmptyGroups hloose) h

/-- Behind an escaped parenthesis in a group, in a class, and quantified. -/
theorem search?_of_mergeEmptyGroups_places : Loose "(\\(?:)(?:)[-(?:)(?:)](?:)(?:)*".toList ∧
    ∃ e, Engine.ofSource "(\\(?:)(?:)[-(?:)(?:)](?:)(?:)*".toList ⟨false, false, false⟩ = .ok e ∧
    ∃ e', Engine.ofSource "(\\(?:)[-(?:)](?:)*".toList ⟨false, false, false⟩ = .ok e' ∧
      ∀ place, e'.search? place = e.search? place := by
  have hloose : Loose "(\\(?:)(?:)[-(?:)(?:)](?:)(?:)*".toList := by decide +kernel
  have hmerged : mergeEmptyGroups "(\\(?:)(?:)[-(?:)(?:)](?:)(?:)*".toList =
      "(\\(?:)[-(?:)](?:)*".toList := by decide +kernel
  obtain ⟨program, hprogram⟩ : ∃ program, Program.ofSource?
    "(\\(?:)(?:)[-(?:)(?:)](?:)(?:)*".toList ⟨false, false, false⟩ = some program := ⟨_, rfl⟩
  obtain ⟨e, he, -⟩ := Engine.ofSource_of_program hprogram
  obtain ⟨e', he', hsame⟩ := search?_of_mergeEmptyGroups hloose he
  rw [hmerged] at he'
  exact ⟨hloose, e, he, e', he', hsame⟩

/-- **A quantifier takes hold of another group** when the empty group before it is left out behind an escaped
parenthesis: the capturing group, which has to match once, need not match any more. -/
theorem mergeEmptyGroups_of_escaped : ∃ e e',
    Engine.ofSource "(\\(?:)(?:)*".toList ⟨false, false, false⟩ = .ok e ∧
    Engine.ofSource (mergeEmptyGroups "(\\(?:)(?:)*".toList) ⟨false, false, false⟩ = .ok e' ∧
    e.search? (.first "x".toList) = none ∧ (e'.search? (.first "x".toList)).isSome = true := by
  have hmerged : mergeEmptyGroups "(\\(?:)(?:)*".toList = "(\\(?:)*".toList := by decide +kernel
  obtain ⟨program, hprogram⟩ : ∃ program,
    Program.ofSource? "(\\(?:)(?:)*".toList ⟨false, false, false⟩ = some program := ⟨_, rfl⟩
  obtain ⟨program', hprogram'⟩ : ∃ program,
    Program.ofSource? "(\\(?:)*".toList ⟨false, false, false⟩ = some program := ⟨_, rfl⟩
  obtain ⟨e, he, heq⟩ := Engine.ofSource_of_program hprogram
  obtain ⟨e', he', heq'⟩ := Engine.ofSource_of_program hprogram'
  cases hprogram
  cases hprogram'
  refine ⟨e, e', he, hmerged ▸ he', ?_, ?_⟩
  · simp only [Engine.search?, heq]
    rfl
  · simp only [Engine.search?, heq']
    rfl

end ExtensibleRegex
