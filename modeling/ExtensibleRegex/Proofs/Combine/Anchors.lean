import ExtensibleRegex.Combine.Build
import ExtensibleRegex.Proofs.Expansion.Items
import Mathlib.Tactic

/-!
# Patterns without their anchors

A subpattern is put in without the anchors that it begins and ends with, and without the empty groups
around them.

* `stripAnchors_eq` says what is taken off: only a dollar that is not escaped.
* `mentions_stripAnchors` says that the groups and the references of the pattern stay.
-/

namespace ExtensibleRegex

open Native

/-! ## 1. What is taken off -/

/-- Empty groups one after another. -/
def emptyGroups (n : Nat) : Text := (List.replicate n emptyGroup).flatten

theorem emptyGroups_succ (n : Nat) : emptyGroups (n + 1) = emptyGroup ++ emptyGroups n := rfl

theorem after_emptyGroups (b : Bool) : ∀ n : Nat, Spot.after ⟨b, false⟩ (emptyGroups n) = ⟨b, false⟩
  | 0 => rfl
  | n + 1 => by
      have honce : Spot.after ⟨b, false⟩ emptyGroup = ⟨b, false⟩ := by cases b <;> rfl
      rw [emptyGroups_succ, Spot.after_append, honce]
      exact after_emptyGroups b n

theorem reverse_flatten_replicate (n : Nat) :
    (List.replicate n emptyGroup.reverse).flatten = (emptyGroups n).reverse := by
  unfold emptyGroups
  rw [List.reverse_flatten, List.map_replicate, List.reverse_replicate]

theorem dropEmptyGroups_eq : ∀ (left : Nat) (t : Text), ∃ n, t = emptyGroups n ++ dropEmptyGroups left t
  | 0, _ => ⟨0, rfl⟩
  | left + 1, t => by
      unfold dropEmptyGroups
      split
      · rename_i rest hrest
        obtain ⟨n, hn⟩ := dropEmptyGroups_eq left rest
        refine ⟨n + 1, ?_⟩
        rw [emptyGroups_succ, List.append_assoc, ← hn]
        exact ((after?_eq_some_iff _ _ _).1 hrest)
      · exact ⟨0, rfl⟩

theorem isPrefixOf_dropEmptyGroups : ∀ (left : Nat) (t : Text), t.length ≤ left →
    emptyGroup.isPrefixOf (dropEmptyGroups left t) = false
  | _, [], _ => by
      rename_i left
      cases left <;> rfl
  | 0, _ :: _, h => absurd h (Nat.not_succ_le_zero _)
  | left + 1, c :: t, h => by
      unfold dropEmptyGroups
      cases hrest : after? emptyGroup (c :: t) with
      | some rest =>
        refine isPrefixOf_dropEmptyGroups left rest ?_
        have hlengths := congrArg List.length ((after?_eq_some_iff _ _ _).1 hrest)
        simp only [List.length_append, List.length_cons] at hlengths h
        have hpos : emptyGroup.length = 4 := rfl
        omega
      | none =>
        rw [← Bool.not_eq_true, List.isPrefixOf_iff_prefix]
        rintro ⟨rest, heq⟩
        rw [(after?_eq_some_iff _ _ _).2 heq.symm] at hrest
        cases hrest

theorem dropEmptyGroupsReversed_eq : ∀ (left : Nat) (t : Text),
    ∃ n, t = (List.replicate n emptyGroup.reverse).flatten ++ dropEmptyGroupsReversed left t
  | 0, _ => ⟨0, rfl⟩
  | left + 1, t => by
      unfold dropEmptyGroupsReversed
      split
      · rename_i rest hrest
        obtain ⟨n, hn⟩ := dropEmptyGroupsReversed_eq left rest
        refine ⟨n + 1, ?_⟩
        rw [List.replicate_succ, List.flatten_cons, List.append_assoc, ← hn]
        exact ((after?_eq_some_iff _ _ _).1 hrest)
      · exact ⟨0, rfl⟩

/-- **What is taken off a pattern**: nothing, or both anchors with empty groups around them, the dollar
behind an even number of backslashes. -/
theorem stripAnchors_eq (t : Text) : stripAnchors t = t ∨ ∃ m n,
    t = emptyGroups m ++ '^' :: (stripAnchors t ++ '$' :: emptyGroups n) ∧
      ((stripAnchors t).reverse.takeWhile (· == '\\')).length % 2 = 0 := by
  obtain ⟨m, hm⟩ := dropEmptyGroups_eq t.length t
  unfold stripAnchors
  split
  · rename_i body hbody
    obtain ⟨n, hn⟩ := dropEmptyGroupsReversed_eq body.length body.reverse
    split
    · rename_i inner hinner
      split
      · exact .inl rfl
      · rename_i heven
        right
        refine ⟨m, n, ?_, by rw [List.reverse_reverse]; omega⟩
        have hreversed := congrArg List.reverse hn
        rw [hinner, reverse_flatten_replicate, List.reverse_append, List.reverse_reverse,
          List.reverse_reverse, List.reverse_cons, List.append_assoc] at hreversed
        rw [hbody, hreversed] at hm
        exact hm
    · exact .inl rfl
  · exact .inl rfl

/-! ## 2. Groups and references -/

section Mentions

variable {c : Char} {t : Text} {s : Spot}

theorem opensCapture_append (t u : Text) : opensCapture (t ++ '$' :: u) = opensCapture t := by
  match t with
  | [] => rfl
  | [c] =>
    by_cases hc : c = '?'
    · subst hc
      rfl
    · simp [opensCapture, hc]
  | [c, d] =>
    by_cases hc : c = '?'
    · subst hc
      by_cases hd : d = '<'
      · subst hd
        rfl
      · simp [opensCapture, hd]
    · simp [opensCapture, hc]
  | c :: d :: e :: t =>
    by_cases hc : c = '?'
    · subst hc
      by_cases hd : d = '<'
      · subst hd
        by_cases hequal : e = '='
        · subst hequal
          rfl
        by_cases hnot : e = '!'
        · subst hnot
          rfl
        · simp [opensCapture, hequal, hnot]
      · simp [opensCapture, hd]
    · simp [opensCapture, hc]

/-- What is mentioned where a text begins does not depend on an anchor behind it. -/
theorem mention?_append (u : Text) (h : c = '\\' → t ≠ []) :
    mention? (c :: (t ++ '$' :: u)) = mention? (c :: t) := by
  by_cases hparen : c = '('
  · subst hparen
    have hhead : ((t ++ '$' :: u).head? == some '?') = (t.head? == some '?') := by cases t <;> rfl
    simp only [mention?, opensCapture_append, hhead]
  by_cases hescape : c = '\\'
  · subst hescape
    obtain ⟨d, t, rfl⟩ := List.exists_cons_of_ne_nil (h rfl)
    have hdigits : (t ++ '$' :: u).takeWhile Char.isDigit = t.takeWhile Char.isDigit := by
      induction t with
      | nil => rfl
      | cons e t ih => rw [List.cons_append, List.takeWhile_cons, List.takeWhile_cons, ih (by simp)]
    simp only [List.cons_append, mention?, hdigits]
  · rw [mention?_other hparen hescape, mention?_other hparen hescape]

theorem mentions_emptyGroups (b : Bool) : ∀ (n : Nat) (t : Text),
    mentions ⟨b, false⟩ (emptyGroups n ++ t) = mentions ⟨b, false⟩ t
  | 0, _ => rfl
  | n + 1, t => by
      rw [emptyGroups_succ, List.append_assoc, mentions_emptyGroup]
      exact mentions_emptyGroups b n t

/-- An anchor and empty groups behind a text mention nothing. -/
theorem mentions_append_anchor (n : Nat) : ∀ (t : Text) (s : Spot), (s.after t).escaped = false →
    mentions s (t ++ '$' :: emptyGroups n) = mentions s t
  | [], s, h => by
      obtain ⟨b, escaped⟩ := s
      obtain rfl : escaped = false := h
      have hanchor := silent_plain b (w := ['$']) (List.all_eq_true.1 rfl) (emptyGroups n ++ [])
      have hgroups := mentions_emptyGroups b n []
      rw [List.append_nil] at hanchor hgroups
      exact hanchor.trans hgroups
  | c :: t, s, h => by
      have ih := mentions_append_anchor n t (s.next c) h
      by_cases hs : s = .outside
      · subst hs
        have hmention := mention?_append (c := c) (t := t) (emptyGroups n) (by
          rintro rfl rfl
          cases h)
        rw [List.cons_append, mentions_cons, mentions_cons, ih, hmention]
      · rw [List.cons_append, scans_mentions s c _ fun hmark => hs hmark.1,
          scans_mentions s c _ fun hmark => hs hmark.1, ih]

/-- **A pattern keeps its groups and references** when its anchors are taken off. -/
theorem mentions_stripAnchors (t : Text) :
    mentions .outside (stripAnchors t) = mentions .outside t := by
  rcases stripAnchors_eq t with heq | ⟨m, n, heq, heven⟩
  · rw [heq]
  · generalize stripAnchors t = inner at heq heven
    have hclosed : (Spot.outside.after inner).escaped = false := by
      rw [Spot.escaped_after, heven]
      rfl
    have hanchor := silent_plain false (w := ['^']) (List.all_eq_true.1 rfl) (inner ++ '$' :: emptyGroups n)
    have hgroups := mentions_emptyGroups false m ('^' :: (inner ++ '$' :: emptyGroups n))
    rw [heq]
    exact ((hgroups.trans hanchor).trans (mentions_append_anchor n inner .outside hclosed)).symm

end Mentions

end ExtensibleRegex
