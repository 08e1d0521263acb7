import ExtensibleRegex.Proofs.Expansion.Merging
import ExtensibleRegex.Proofs.Native.Equivalence
import Mathlib.Logic.Relation
import Mathlib.Tactic

/-!
# Empty groups that are left out

Of several empty groups in a row only the first is kept. That changes nothing in what the pattern
matches, as long as the groups that go are groups: in a class, or with the parenthesis escaped, the
same four characters mean something else. `Tame` excludes that. Then what is kept when one of two
empty groups goes is kept when all do (`relates_merged`): the meaning (`meaning_merged`), and the
lexemes apart from those of the groups that go (`lexAll?_merged`).
-/

namespace ExtensibleRegex

open Native

/-- Where an empty group follows another one, both stand outside of classes and escapes. -/
def Tame (t : Text) : Prop :=
  Everywhere (fun s u => (emptyGroup ++ emptyGroup).isPrefixOf u = true → s = .outside) .outside t

instance (t : Text) : Decidable (Tame t) := inferInstanceAs (Decidable (Everywhere _ _ t))

theorem Tame.after {x y : Text} (h : Tame (x ++ (emptyGroup ++ (emptyGroup ++ y)))) :
    Spot.outside.after x = .outside :=
  Everywhere.at x h rfl

theorem inert_emptyGroup_append (t : Text) :
    Inert (emptyGroup ++ t) ∧ isLandmark (emptyGroup ++ t) = true :=
  ⟨⟨by decide, fun h => absurd h (by decide)⟩, rfl⟩

theorem lexAll?_emptyGroup {strict named : Bool} (t : Text) :
    lexAll? strict named 0 (emptyGroup ++ t) [] =
      (lexAll? strict named 0 t []).map fun ls => .opening (.plain [] []) :: .close :: ls := by
  have hopening : lexeme? strict named '(' ('?' :: ':' :: ')' :: t) =
      some (.opening (.plain [] []), 2) := by
    simp only [lexeme?, opening?_modifiers (c := ':') (by decide) (by decide) (by decide)]
    rfl
  have hclose : lexeme? strict named ')' t = some (.close, 0) := rfl
  show lexAll? strict named 0 ('(' :: '?' :: ':' :: ')' :: t) [] = _
  simp only [lexAll?, hopening, hclose]
  rw [lexAll?_read]
  rfl

theorem after_emptyGroup {s : Spot} (h : s = .outside) : s.after emptyGroup = .outside := by
  subst h
  rfl

/-- An empty group in front of another one makes no difference. -/
theorem meaning_emptyGroup_twice {mode : Mode} {x : Text} (hx : Spot.outside.after x = .outside)
    (y : Text) : meaning mode (x ++ (emptyGroup ++ y)) =
      meaning mode (x ++ (emptyGroup ++ (emptyGroup ++ y))) := by
  refine meaning_exchange hx (inert_emptyGroup_append _) (inert_emptyGroup_append _) fun named => ?_
  rw [lexAll?_emptyGroup (emptyGroup ++ y)]
  cases hy : lexAll? mode.unicode named 0 (emptyGroup ++ y) [] with
  | none => exact .none
  | some ls =>
    refine .some (.plainGroup ?_)
    rw [lexAll?_emptyGroup] at hy
    obtain ⟨ms, -, rfl⟩ := Option.map_eq_some_iff.1 hy
    rfl

section Relations

variable {R : Text → Text → Prop} (refl : ∀ t, R t t) (trans : ∀ {s t u}, R s t → R t u → R s u)
  (once : ∀ {x}, Spot.outside.after x = .outside → ∀ y,
    R (x ++ (emptyGroup ++ y)) (x ++ (emptyGroup ++ (emptyGroup ++ y))))

include refl trans once

/-- The text that is left, after a text `x` that stands for the part `w` gone through already. -/
theorem relates_mergedFrom : ∀ (n : Nat) (w x t : Text), t.length ≤ n →
    Spot.outside.after x = Spot.outside.after w →
    (Tame (w ++ t) → R (x ++ merged t) (x ++ t)) ∧
      (Tame (w ++ (emptyGroup ++ t)) →
        R (x ++ (emptyGroup ++ mergedAfter t)) (x ++ (emptyGroup ++ t)))
  | _, _, _, [], _, _ => ⟨fun _ => refl _, fun _ => refl _⟩
  | 0, _, _, _ :: _, h, _ => absurd h (Nat.not_succ_le_zero _)
  | n + 1, w, x, c :: t, h, hspot => by
      have hlen : t.length ≤ n := by simpa using h
      cases hempty : emptyGroup.isPrefixOf (c :: t) with
      | true =>
        obtain ⟨rest, hrest⟩ := List.isPrefixOf_iff_prefix.1 hempty
        have hshort : rest.length ≤ n := by
          have := congrArg List.length hrest
          simp [emptyGroup] at this h
          omega
        rw [← hrest]
        refine ⟨fun htame => ?_, fun htame => ?_⟩
        · rw [merged_emptyGroup]
          exact (relates_mergedFrom n w x rest hshort hspot).2 htame
        · -- the group that goes stands outside, since the one before it does
          have hw : Spot.outside.after w = .outside := htame.after
          have hspot' : Spot.outside.after x = Spot.outside.after (w ++ emptyGroup) := by
            rw [Spot.after_append, after_emptyGroup hw, hspot, hw]
          rw [mergedAfter_emptyGroup]
          exact trans ((relates_mergedFrom n (w ++ emptyGroup) x rest hshort hspot').2
            (by rw [List.append_assoc]; exact htame)) (once (hspot.trans hw) rest)
      | false =>
        have hnext (v : Text) : v ++ c :: t = (v ++ [c]) ++ t := by simp
        refine ⟨fun htame => ?_, fun htame => ?_⟩
        · have ih := (relates_mergedFrom n (w ++ [c]) (x ++ [c]) t hlen (by
            rw [Spot.after_append, Spot.after_append, hspot])).1 (by rw [← hnext]; exact htame)
          rw [merged_cons hempty]
          simpa using ih
        · have ih := (relates_mergedFrom n (w ++ emptyGroup ++ [c])
            (x ++ emptyGroup ++ [c]) t hlen (by simp only [Spot.after_append, hspot])).1 (by
              rw [← hnext, List.append_assoc]; exact htame)
          rw [mergedAfter_cons hempty]
          simpa using ih

/-- What is kept when an empty group is left out in front of another one is kept when all are, in a
tame text. -/
theorem relates_merged {t : Text} (h : Tame t) : R (mergeEmptyGroups t) t :=
  (relates_mergedFrom refl trans once t.length [] [] t (Nat.le_refl _) rfl).1 h

end Relations

/-- **Leaving out repeated empty groups keeps the meaning of a tame text.** -/
theorem meaning_merged {mode : Mode} {t : Text} (h : Tame t) :
    meaning mode (mergeEmptyGroups t) = meaning mode t :=
  relates_merged (R := fun s t => meaning mode s = meaning mode t) (fun _ => rfl) Eq.trans
    (fun hx y => meaning_emptyGroup_twice hx y) h

/-! ## Lexemes -/

/-- The lexemes of an empty group. -/
def emptyPair : List Lexeme := [.opening (.plain [] []), .close]

/-- An empty group in front of another one is left out. -/
inductive Omits : List Lexeme → List Lexeme → Prop where
  | twice (before after : List Lexeme) :
      Omits (before ++ (emptyPair ++ (emptyPair ++ after))) (before ++ (emptyPair ++ after))

/-- **The lexemes of a tame text without repeated empty groups**: those of the text, some of its empty
groups left out in front of others. -/
theorem lexAll?_merged {strict named : Bool} {t : Text} (h : Tame t) {ls : List Lexeme}
    (hls : lexAll? strict named 0 t [] = some ls) : ∃ ls',
      lexAll? strict named 0 (mergeEmptyGroups t) [] = some ls' ∧ Relation.ReflTransGen Omits ls ls' := by
  refine relates_merged (R := fun s t => ∀ ls, lexAll? strict named 0 t [] = some ls → ∃ ls',
    lexAll? strict named 0 s [] = some ls' ∧ Relation.ReflTransGen Omits ls ls')
    (fun _ ls hls => ⟨ls, hls, .refl⟩) (fun hst htu ls hls => ?_) (fun {x} hx y ls hls => ?_) h ls hls
  · obtain ⟨ms, hms, homits⟩ := htu ls hls
    obtain ⟨ns, hns, homits'⟩ := hst ms hms
    exact ⟨ns, hns, homits.trans homits'⟩
  · obtain ⟨hinert, hmark⟩ := inert_emptyGroup_append y
    obtain ⟨hinert', hmark'⟩ := inert_emptyGroup_append (emptyGroup ++ y)
    rw [lexAll?_split hx hinert' hmark'] at hls
    rw [lexAll?_split hx hinert hmark]
    obtain ⟨before, hbefore, hls⟩ := Option.bind_eq_some_iff.1 hls
    rw [lexAll?_read, lexAll?_emptyGroup, lexAll?_emptyGroup, Option.map_map, Option.map_map] at hls
    obtain ⟨after, hafter, rfl⟩ := Option.map_eq_some_iff.1 hls
    rw [hbefore, Option.bind_some, lexAll?_read, lexAll?_emptyGroup, hafter, List.reverse_reverse]
    refine ⟨before ++ (emptyPair ++ after), rfl, .single ?_⟩
    have homit := Omits.twice before after
    simpa [emptyPair] using homit

theorem captureNames_of_omits {ls ls' : List Lexeme} (h : Relation.ReflTransGen Omits ls ls') :
    captureNames ls' = captureNames ls := by
  induction h with
  | refl => rfl
  | tail _ homit ih =>
    rw [← ih]
    cases homit with
    | twice before after => simp [captureNames, emptyPair]

theorem mem_of_omits {ls ls' : List Lexeme} (h : Relation.ReflTransGen Omits ls ls') {l : Lexeme}
    (hl : l ∈ ls') : l ∈ ls := by
  induction h with
  | refl => exact hl
  | tail _ homit ih =>
    refine ih ?_
    cases homit with
    | twice before after =>
      rcases List.mem_append.1 hl with hl | hl
      · exact List.mem_append_left _ hl
      · exact List.mem_append_right _ (List.mem_append_right _ hl)

end ExtensibleRegex
