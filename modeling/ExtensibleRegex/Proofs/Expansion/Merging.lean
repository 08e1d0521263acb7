import ExtensibleRegex.Expansion.Verbatim
import ExtensibleRegex.Proofs.Native.Marks
import Mathlib.Tactic

/-!
# Empty groups in a row

The native pattern that has been written is gone through once more, and of several empty groups in
a row only the first is kept. This file says what that does to a text, by what comes first in it
(`merged_emptyGroup`, `merged_cons`), and that it changes no capturing group
(`captureMarks_merged`).
-/

namespace ExtensibleRegex

open Native

/-! ## 1. What is left out -/

theorem mergeEmptyFrom_done : ∀ (skip : Nat) (after : Bool) (done t : Text),
    mergeEmptyFrom skip after done t = done.reverse ++ mergeEmptyFrom skip after [] t
  | _, _, done, [] => by simp [mergeEmptyFrom]
  | skip + 1, after, done, _ :: rest => by
      simp only [mergeEmptyFrom]
      exact mergeEmptyFrom_done skip after done rest
  | 0, after, done, c :: rest => by
      simp only [mergeEmptyFrom]
      split
      · rw [mergeEmptyFrom_done 3 true, mergeEmptyFrom_done 3 true (if after = true then [] else _)]
        cases after <;> simp
      · rw [mergeEmptyFrom_done 0 false, mergeEmptyFrom_done 0 false [c]]
        simp

/-- What is written for the text after a character that ends no empty group. -/
def merged (t : Text) : Text := mergeEmptyFrom 0 false [] t

/-- What is written for the text after an empty group. -/
def mergedAfter (t : Text) : Text := mergeEmptyFrom 0 true [] t

theorem mergeEmptyFrom_skip : ∀ (skip : Nat) (after : Bool) (done t : Text),
    mergeEmptyFrom skip after done t = mergeEmptyFrom 0 after done (t.drop skip)
  | 0, _, _, _ => rfl
  | _ + 1, _, _, [] => by simp [mergeEmptyFrom]
  | skip + 1, after, done, _ :: rest => by
      simp only [mergeEmptyFrom, List.drop_succ_cons]
      exact mergeEmptyFrom_skip skip after done rest

theorem merged_emptyGroup (t : Text) : merged (emptyGroup ++ t) = emptyGroup ++ mergedAfter t := by
  unfold merged mergedAfter
  show mergeEmptyFrom 3 true (emptyGroup.reverse ++ []) _ = _
  rw [mergeEmptyFrom_done, mergeEmptyFrom_skip]
  rfl

theorem mergedAfter_emptyGroup (t : Text) : mergedAfter (emptyGroup ++ t) = mergedAfter t := by
  unfold mergedAfter
  show mergeEmptyFrom 3 true [] _ = _
  rw [mergeEmptyFrom_skip]
  rfl

theorem isPrefixOf_emptyGroup_of_ne {c : Char} (hc : c ≠ '(') (t : Text) :
    emptyGroup.isPrefixOf (c :: t) = false := by
  simp [emptyGroup, List.isPrefixOf, hc.symm]

theorem merged_cons {c : Char} {t : Text} (h : emptyGroup.isPrefixOf (c :: t) = false) :
    merged (c :: t) = c :: merged t := by
  unfold merged
  simp only [mergeEmptyFrom, h, Bool.false_eq_true, if_false]
  rw [mergeEmptyFrom_done]
  rfl

theorem mergedAfter_cons {c : Char} {t : Text} (h : emptyGroup.isPrefixOf (c :: t) = false) :
    mergedAfter (c :: t) = c :: merged t := by
  unfold mergedAfter merged
  simp only [mergeEmptyFrom, h, Bool.false_eq_true, if_false]
  rw [mergeEmptyFrom_done]
  rfl

/-- The first four characters stay, since only an empty group has to go before one is left out. -/
theorem take_merged : ∀ (k : Nat) (t : Text), k ≤ 4 → (merged t).take k = t.take k
  | 0, _, _ => rfl
  | _ + 1, [], _ => rfl
  | k + 1, c :: t, hk => by
      cases h : emptyGroup.isPrefixOf (c :: t) with
      | false =>
        rw [merged_cons h, List.take_succ_cons, List.take_succ_cons, take_merged k t (by omega)]
      | true =>
        obtain ⟨rest, hrest⟩ := List.isPrefixOf_iff_prefix.1 h
        have hlen : k + 1 ≤ emptyGroup.length := hk
        rw [← hrest, merged_emptyGroup, List.take_append_of_le_length hlen,
          List.take_append_of_le_length hlen]

theorem head?_merged (t : Text) : (merged t).head? = t.head? := by
  have h := congrArg List.head? (take_merged 1 t (by decide))
  simpa [List.head?_take] using h

theorem opensCapture_take (t : Text) : opensCapture (t.take 3) = opensCapture t := by
  rcases t with _ | ⟨a, _ | ⟨b, _ | ⟨c, t⟩⟩⟩
  · rfl
  · rfl
  · rfl
  · simp only [List.take_succ_cons, List.take_zero]
    by_cases ha : a = '?'
    · by_cases hb : b = '<'
      · by_cases hc : c = '='
        · simp [opensCapture, ha, hb, hc]
        · by_cases hc' : c = '!'
          · simp [opensCapture, ha, hb, hc']
          · simp [opensCapture, ha, hb, hc, hc']
      · simp [opensCapture, ha, hb]
    · simp [opensCapture, ha]

theorem opensCapture_merged (t : Text) : opensCapture (merged t) = opensCapture t := by
  rw [← opensCapture_take, take_merged 3 t (by decide), opensCapture_take]

/-! ## 2. Texts that stay -/

/-- A text in which no empty group follows another one. -/
def Settled (t : Text) : Prop := ¬(emptyGroup ++ emptyGroup) <:+: t

instance : DecidablePred Settled := fun _ => inferInstanceAs (Decidable (¬_))

theorem settled_nil : Settled [] := fun h => by simp [emptyGroup] at h

theorem Settled.of_infix {s t : Text} (h : Settled t) (hst : s <:+: t) : Settled s :=
  fun hs => h (hs.trans hst)

/-- In a text after an empty group, no empty group follows another one if none begins the text. -/
theorem settled_emptyGroup_append {t : Text} (h : Settled t)
    (hbegin : emptyGroup.isPrefixOf t = false) : Settled (emptyGroup ++ t) := by
  intro htwice
  have hbegin' : ¬emptyGroup <+: t := by
    rw [← List.isPrefixOf_iff_prefix, hbegin]
    exact Bool.false_ne_true
  have hskip {c : Char} {u : Text} (hc : c ≠ '(') (hu : (emptyGroup ++ emptyGroup) <:+: c :: u) :
      (emptyGroup ++ emptyGroup) <:+: u := by
    rcases List.infix_cons_iff.1 hu with ⟨rest, hrest⟩ | hu
    · exact absurd (List.cons.inj hrest).1.symm hc
    · exact hu
  rcases List.infix_cons_iff.1 (show (emptyGroup ++ emptyGroup) <:+: '(' :: (['?', ':', ')'] ++ t)
    from htwice) with ⟨rest, hrest⟩ | hlater
  · have hrest' : emptyGroup ++ (emptyGroup ++ rest) = emptyGroup ++ t := by
      rw [← List.append_assoc]
      exact hrest
    exact hbegin' ⟨rest, List.append_cancel_left hrest'⟩
  · exact h (hskip (by decide) (hskip (by decide) (hskip (by decide) hlater)))

/-- **Where repeated empty groups have been left out there are none.** -/
theorem settled_merged : ∀ (n : Nat) (t : Text), t.length ≤ n → Settled (merged t) ∧
    Settled (mergedAfter t) ∧ emptyGroup.isPrefixOf (mergedAfter t) = false
  | _, [], _ => ⟨settled_nil, settled_nil, rfl⟩
  | 0, _ :: _, h => absurd h (Nat.not_succ_le_zero _)
  | n + 1, c :: t, h => by
      have hlen : t.length ≤ n := by simpa using h
      cases hempty : emptyGroup.isPrefixOf (c :: t) with
      | true =>
        obtain ⟨rest, hrest⟩ := List.isPrefixOf_iff_prefix.1 hempty
        have hshort : rest.length ≤ n := by
          have := congrArg List.length hrest
          simp [emptyGroup] at this h
          omega
        obtain ⟨-, hafter, hbegin⟩ := settled_merged n rest hshort
        rw [← hrest, merged_emptyGroup, mergedAfter_emptyGroup]
        exact ⟨settled_emptyGroup_append hafter hbegin, hafter, hbegin⟩
      | false =>
        obtain ⟨hmerged, -, -⟩ := settled_merged n t hlen
        have hbegin : emptyGroup.isPrefixOf (c :: merged t) = false := by
          have hfour : (c :: merged t).take 4 = (c :: t).take 4 := by
            rw [List.take_succ_cons, List.take_succ_cons, take_merged 3 t (by decide)]
          have hiff (u : Text) : emptyGroup <+: u ↔ u.take 4 = emptyGroup := by
            rw [List.prefix_iff_eq_take]
            exact eq_comm
          rw [← Bool.not_eq_true, List.isPrefixOf_iff_prefix, hiff, hfour, ← hiff,
            ← List.isPrefixOf_iff_prefix, hempty]
          exact Bool.false_ne_true
        have hsettled : Settled (c :: merged t) := by
          intro htwice
          rcases List.infix_cons_iff.1 htwice with ⟨rest, hrest⟩ | hlater
          · rw [← Bool.not_eq_true, List.isPrefixOf_iff_prefix] at hbegin
            exact hbegin ⟨emptyGroup ++ rest, by rw [← List.append_assoc]; exact hrest⟩
          · exact hmerged hlater
        rw [merged_cons hempty, mergedAfter_cons hempty]
        exact ⟨hsettled, hsettled, hbegin⟩

/-- **Nothing is left out where no empty group follows another one.** -/
theorem merged_of_settled : ∀ (n : Nat) (t : Text), t.length ≤ n → Settled t → merged t = t ∧
    (emptyGroup.isPrefixOf t = false → mergedAfter t = t)
  | _, [], _, _ => ⟨rfl, fun _ => rfl⟩
  | 0, _ :: _, h, _ => absurd h (Nat.not_succ_le_zero _)
  | n + 1, c :: t, h, hsettled => by
      have hlen : t.length ≤ n := by simpa using h
      cases hempty : emptyGroup.isPrefixOf (c :: t) with
      | true =>
        obtain ⟨rest, hrest⟩ := List.isPrefixOf_iff_prefix.1 hempty
        have hshort : rest.length ≤ n := by
          have := congrArg List.length hrest
          simp [emptyGroup] at this h
          omega
        have hbegin : emptyGroup.isPrefixOf rest = false := by
          rw [← Bool.not_eq_true, List.isPrefixOf_iff_prefix]
          rintro ⟨u, rfl⟩
          exact hsettled ⟨[], u, by rw [← hrest]; simp⟩
        have hrestSettled : Settled rest :=
          hsettled.of_infix ⟨emptyGroup, [], by rw [← hrest]; simp⟩
        obtain ⟨-, hafter⟩ := merged_of_settled n rest hshort hrestSettled
        refine ⟨?_, nofun⟩
        rw [← hrest, merged_emptyGroup, hafter hbegin]
      | false =>
        obtain ⟨hmerged, -⟩ := merged_of_settled n t hlen (hsettled.of_infix (List.suffix_cons c t).isInfix)
        exact ⟨by rw [merged_cons hempty, hmerged], fun _ => by rw [mergedAfter_cons hempty, hmerged]⟩

/-! ## 3. Texts in parts -/

theorem isPrefixOf_append_of_not_mem {c : Char} {t u : Text} (hc : c ∉ emptyGroup) :
    emptyGroup.isPrefixOf (t ++ c :: u) = emptyGroup.isPrefixOf t := by
  rw [Bool.eq_iff_iff, List.isPrefixOf_iff_prefix, List.isPrefixOf_iff_prefix]
  refine ⟨fun h => ?_, fun h => h.trans (List.prefix_append t _)⟩
  have hthrough : t ++ [c] <+: t ++ c :: u := ⟨u, by simp⟩
  rcases List.prefix_or_prefix_of_prefix h hthrough with h | h
  · rcases List.prefix_concat_iff.1 h with h | h
    · exact absurd (h ▸ List.mem_append_right t (List.mem_singleton_self c)) hc
    · exact h
  · exact absurd (h.subset (List.mem_append_right t (List.mem_singleton_self c))) hc

/-- A character that no empty group has parts what is left out before it from what is left out
behind it. -/
theorem merged_append_cons {c : Char} (hc : c ∉ emptyGroup) (u : Text) : ∀ (n : Nat) (t : Text),
    t.length ≤ n → merged (t ++ c :: u) = merged t ++ c :: merged u ∧
      mergedAfter (t ++ c :: u) = mergedAfter t ++ c :: merged u
  | _, [], _ => by
      have hbegin : emptyGroup.isPrefixOf (c :: u) = false := isPrefixOf_append_of_not_mem (t := []) hc
      exact ⟨merged_cons hbegin, mergedAfter_cons hbegin⟩
  | 0, _ :: _, h => absurd h (Nat.not_succ_le_zero _)
  | n + 1, d :: t, h => by
      have hlen : t.length ≤ n := by simpa using h
      have hsame : emptyGroup.isPrefixOf (d :: (t ++ c :: u)) = emptyGroup.isPrefixOf (d :: t) :=
        isPrefixOf_append_of_not_mem (t := d :: t) hc
      cases hempty : emptyGroup.isPrefixOf (d :: t) with
      | true =>
        obtain ⟨rest, hrest⟩ := List.isPrefixOf_iff_prefix.1 hempty
        have hshort : rest.length ≤ n := by
          have := congrArg List.length hrest
          simp [emptyGroup] at this h
          omega
        have ih := (merged_append_cons hc u n rest hshort).2
        rw [← hrest, List.append_assoc, merged_emptyGroup, merged_emptyGroup,
          mergedAfter_emptyGroup, mergedAfter_emptyGroup, ih, List.append_assoc]
        exact ⟨rfl, rfl⟩
      | false =>
        rw [hempty] at hsame
        have ih := (merged_append_cons hc u n t hlen).1
        rw [List.cons_append, merged_cons hsame, mergedAfter_cons hsame, merged_cons hempty,
          mergedAfter_cons hempty, ih]
        exact ⟨rfl, rfl⟩

/-- An empty group that is begun. -/
def openGroup : Text := ['(', '?', ':']

/-- Closing a parenthesis completes no empty group that would be left out, unless the text ends in
an empty group and in one that is begun. -/
theorem merged_append_close : ∀ (n : Nat) (t : Text), t.length ≤ n →
    (¬(emptyGroup ++ openGroup) <:+ t → merged (t ++ [')']) = merged t ++ [')']) ∧
      (¬(emptyGroup ++ openGroup) <:+ emptyGroup ++ t →
        mergedAfter (t ++ [')']) = mergedAfter t ++ [')'])
  | _, [], _ => ⟨fun _ => rfl, fun _ => rfl⟩
  | 0, _ :: _, h => absurd h (Nat.not_succ_le_zero _)
  | n + 1, d :: t, h => by
      have hlen : t.length ≤ n := by simpa using h
      cases hempty : emptyGroup.isPrefixOf (d :: t) with
      | true =>
        obtain ⟨rest, hrest⟩ := List.isPrefixOf_iff_prefix.1 hempty
        have hshort : rest.length ≤ n := by
          have := congrArg List.length hrest
          simp [emptyGroup] at this h
          omega
        have ih := (merged_append_close n rest hshort).2
        rw [← hrest, List.append_assoc, merged_emptyGroup, merged_emptyGroup,
          mergedAfter_emptyGroup, mergedAfter_emptyGroup]
        refine ⟨fun hopen => ?_, fun hopen => ?_⟩
        · rw [ih hopen, List.append_assoc]
        · exact ih fun hsuffix => hopen (hsuffix.trans (List.suffix_append _ _))
      | false =>
        by_cases hopen : d :: t = openGroup
        · rw [hopen]
          refine ⟨fun _ => rfl, fun hsuffix => absurd (List.suffix_refl _) hsuffix⟩
        · have hclosed : emptyGroup.isPrefixOf (d :: (t ++ [')'])) = false := by
            rw [← Bool.not_eq_true, List.isPrefixOf_iff_prefix]
            intro hprefix
            rcases List.prefix_concat_iff.1 (show emptyGroup <+: (d :: t) ++ [')'] from hprefix) with
              heq | hprefix
            · exact hopen (List.append_cancel_right
                (show (d :: t) ++ [')'] = openGroup ++ [')'] from heq.symm))
            · rw [← List.isPrefixOf_iff_prefix, hempty] at hprefix
              cases hprefix
          have ih := (merged_append_close n t hlen).1
          rw [List.cons_append, merged_cons hclosed, mergedAfter_cons hclosed, merged_cons hempty,
            mergedAfter_cons hempty]
          refine ⟨fun hsuffix => ?_, fun hsuffix => ?_⟩
          · rw [ih fun hs => hsuffix (hs.trans (List.suffix_cons d t))]
            rfl
          · rw [ih fun hs => hsuffix ((hs.trans (List.suffix_cons d t)).trans
              (List.suffix_append _ _))]
            rfl

/-! ## 4. Marks -/

theorem captureMarks_emptyGroup (b : Bool) (t : Text) :
    captureMarks b (emptyGroup ++ t) = captureMarks b t := by
  cases b <;> simp [emptyGroup, captureMarks, opensCapture]

/-- **Leaving out repeated empty groups changes no mark.** -/
theorem captureMarks_merged : ∀ (n : Nat) (t : Text), t.length ≤ n →
    (∀ b, captureMarks b (merged t) = captureMarks b t) ∧
      ∀ b, captureMarks b (mergedAfter t) = captureMarks b t
  | _, [], _ => ⟨fun _ => rfl, fun _ => rfl⟩
  | 0, _ :: _, h => absurd h (Nat.not_succ_le_zero _)
  | n + 1, c :: t, h => by
      have hlen : t.length ≤ n := by simpa using h
      cases hempty : emptyGroup.isPrefixOf (c :: t) with
      | true =>
        obtain ⟨rest, hrest⟩ := List.isPrefixOf_iff_prefix.1 hempty
        have hshort : rest.length ≤ n := by
          have := congrArg List.length hrest
          simp [emptyGroup] at this h
          omega
        have ih := captureMarks_merged n rest hshort
        rw [← hrest]
        refine ⟨fun b => ?_, fun b => ?_⟩
        · rw [merged_emptyGroup, captureMarks_emptyGroup, captureMarks_emptyGroup, ih.2]
        · rw [mergedAfter_emptyGroup, captureMarks_emptyGroup, ih.2]
      | false =>
        have hcons (b : Bool) : captureMarks b (c :: merged t) = captureMarks b (c :: t) := by
          have ih := captureMarks_merged n t hlen
          by_cases hc : c = '\\'
          · subst hc
            rw [captureMarks_escape, captureMarks_escape]
            cases t with
            | nil => rfl
            | cons d t =>
              have ih' := captureMarks_merged n t (by simp at hlen; omega)
              cases hd : emptyGroup.isPrefixOf (d :: t) with
              | false =>
                rw [merged_cons hd]
                exact ih'.1 b
              | true =>
                obtain ⟨rest, hrest⟩ := List.isPrefixOf_iff_prefix.1 hd
                have ih'' := captureMarks_merged n rest (by
                  have := congrArg List.length hrest
                  simp [emptyGroup] at this hlen
                  omega)
                rw [← hrest, merged_emptyGroup]
                have hplain (u : Text) : captureMarks b ((emptyGroup ++ u).drop 1) =
                    captureMarks b u := captureMarks_append u (w := ['?', ':', ')'])
                      (List.all_eq_true.1 rfl)
                rw [hplain, hplain]
                exact ih''.2 b
          · simp only [captureMarks, hc, head?_merged, opensCapture_merged, ih.1,
              false_implies, implies_true]
        refine ⟨fun b => ?_, fun b => ?_⟩
        · rw [merged_cons hempty]
          exact hcons b
        · rw [mergedAfter_cons hempty]
          exact hcons b

end ExtensibleRegex
