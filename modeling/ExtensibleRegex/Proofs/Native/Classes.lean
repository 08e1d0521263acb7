import ExtensibleRegex.Proofs.Native.Cutting
import Mathlib.Tactic

/-!
# Where classes end

A class ends at the first closing bracket that does not stand behind a backslash. `ClassBody` says
that of a text, and `Within` that a text belongs to a class which it does not end, both without a word
about what the escapes mean. No escape in a class reads on into what begins as no escape can go on
(`Within.drop_classEscape`). So both grammars end a class with its text
(`ClassBody.length_of_class?`), a class that is followed by a landmark is cut by itself, and a
class with a caret in front has the same members (`ClassBody.class?_eq`). At last, how the sets of a
class are put together (`Native.assembleClass_cons`).
-/

namespace ExtensibleRegex

open Native

/-! ## 1. The text of a class -/

/-- A part of a class that does not end it, its escapes complete. -/
inductive Within : Text → Prop where
  | nil : Within []
  | escape (c : Char) {w : Text} (rest : Within w) : Within ('\\' :: c :: w)
  | other {c : Char} {w : Text} (ne_close : c ≠ ']') (ne_escape : c ≠ '\\') (rest : Within w) :
      Within (c :: w)

/-- A class behind its opening bracket, up to the closing one. -/
inductive ClassBody : Text → Prop where
  | close : ClassBody [']']
  | escape (c : Char) {cs : Text} (rest : ClassBody cs) : ClassBody ('\\' :: c :: cs)
  | other {c : Char} {cs : Text} (ne_close : c ≠ ']') (ne_escape : c ≠ '\\') (rest : ClassBody cs) :
      ClassBody (c :: cs)

namespace Within

variable {c : Char} {w v : Text}

theorem of_cons (h : Within (c :: w)) (hback : c ≠ '\\') : c ≠ ']' ∧ Within w := by
  cases h with
  | escape => exact absurd rfl hback
  | other hclose _ rest => exact ⟨hclose, rest⟩

/-- A backslash escapes a character. -/
theorem exists_escaped (h : Within ('\\' :: w)) : ∃ d ds, w = d :: ds ∧ Within ds := by
  cases h with
  | escape d rest => exact ⟨d, _, rfl, rest⟩
  | other _ hback => exact absurd rfl hback

theorem append (hw : Within w) (hv : Within v) : Within (w ++ v) := by
  induction hw with
  | nil => exact hv
  | escape c _ ih => exact ih.escape c
  | other hclose hback _ ih => exact ih.other hclose hback

end Within

namespace ClassBody

variable {c : Char} {cs body : Text}

theorem of_cons (h : ClassBody (c :: cs)) (hclose : c ≠ ']') (hback : c ≠ '\\') :
    ClassBody cs := by
  cases h with
  | close => exact absurd rfl hclose
  | escape => exact absurd rfl hback
  | other _ _ rest => exact rest

theorem of_escape (h : ClassBody ('\\' :: c :: cs)) : ClassBody cs := by
  cases h with
  | escape _ rest => exact rest
  | other _ hback => exact absurd rfl hback

theorem of_close (h : ClassBody (']' :: cs)) : cs = [] := by
  cases h with
  | close => rfl
  | other hclose => exact absurd rfl hclose

/-- A backslash escapes a character. -/
theorem exists_escaped (h : ClassBody ('\\' :: cs)) : ∃ d ds, cs = d :: ds ∧ ClassBody ds := by
  cases h with
  | escape d rest => exact ⟨d, _, rfl, rest⟩
  | other _ hback => exact absurd rfl hback

/-- What stands before the closing bracket. -/
theorem exists_within (h : ClassBody body) : ∃ w, body = w ++ [']'] ∧ Within w := by
  induction h with
  | close => exact ⟨[], rfl, .nil⟩
  | escape c _ ih =>
    obtain ⟨w, rfl, hw⟩ := ih
    exact ⟨_, rfl, hw.escape c⟩
  | other hclose hback _ ih =>
    obtain ⟨w, rfl, hw⟩ := ih
    exact ⟨_, rfl, hw.other hclose hback⟩

theorem of_within {w : Text} (h : Within w) : ClassBody (w ++ [']']) := by
  induction h with
  | nil => exact .close
  | escape c _ ih => exact ih.escape c
  | other hclose hback _ ih => exact ih.other hclose hback

/-- After its text a class is over. -/
theorem after (h : ClassBody body) : Spot.inside.after body = .outside := by
  induction h with
  | close => rfl
  | escape c _ ih => exact ih
  | @other c cs hclose hback _ ih =>
    have hnext : Spot.inside.next c = .inside := by simp [Spot.next, hclose, hback]
    rw [Spot.after_cons, hnext]
    exact ih

end ClassBody

/-! ## 2. Escapes of a class -/

/-- A text that begins as no escape goes on. -/
def Stops : Text → Prop
  | [] => True
  | c :: t => isQuiet c = false ∧ (c = '\\' → t.head? ≠ some 'u')

theorem stops_of_isLandmark {t : Text} (h : isLandmark t = true) : Stops t := by
  unfold isLandmark at h
  split at h
  · cases h
  · exact ⟨rfl, fun _ => by simpa using h⟩
  · rename_i c t hback
    simp only [Bool.or_eq_true, beq_iff_eq] at h
    rcases h with ((rfl | rfl) | rfl) | rfl <;> exact ⟨rfl, fun h => absurd h (by decide)⟩

namespace Within

variable {strict named : Bool} {next w : Text}

/-- What is still to come of a class before the text `next`, from a spot in the class. -/
def Rest (next : Text) (s : Spot) (t : Text) : Prop :=
  if s.escaped = true then ∃ c w, t = c :: (w ++ next) ∧ Within w
  else ∃ w, t = w ++ next ∧ Within w

theorem passes_rest (hnext : Stops next) : Passes true (Rest next) where
  quiet {c} hc t := by
    obtain ⟨hback, -, hclose, -⟩ := isQuiet_iff.1 hc
    refine propext ⟨?_, fun ⟨w, heq, h⟩ => ⟨c :: w, congrArg (c :: ·) heq, h.other hclose hback⟩⟩
    rintro ⟨_ | ⟨d, ds⟩, heq, h⟩
    · obtain rfl : c :: t = next := heq
      exact absurd (hnext.1.symm.trans hc) Bool.false_ne_true
    · obtain ⟨rfl, rfl⟩ := List.cons.inj heq
      exact ⟨ds, rfl, (h.of_cons hback).2⟩
  unicode t := by
    refine propext ⟨?_, fun ⟨w, heq, h⟩ => ⟨'\\' :: 'u' :: w,
      congrArg (fun t => '\\' :: 'u' :: t) heq, h.escape 'u'⟩⟩
    rintro ⟨_ | ⟨d, ds⟩, heq, h⟩
    · obtain rfl : '\\' :: 'u' :: t = next := heq
      exact absurd rfl (hnext.2 rfl)
    · obtain ⟨rfl, htail⟩ := List.cons.inj heq
      obtain ⟨e, es, rfl, hes⟩ := h.exists_escaped
      exact ⟨es, (List.cons.inj htail).2, hes⟩
  escaped c t := by
    refine propext ⟨?_, fun ⟨w, heq, h⟩ => ⟨c, w, congrArg (c :: ·) heq, h⟩⟩
    rintro ⟨d, w, heq, h⟩
    exact ⟨w, (List.cons.inj heq).2, h⟩

/-- **An escape takes a part of its class.** -/
theorem drop_classEscape (hnext : Stops next) (h : Within ('\\' :: w)) {r : ClassAtom × Nat}
    (hr : classEscape? strict named (w ++ next) = some r) :
    ∃ v, (w ++ next).drop r.2 = v ++ next ∧ Within v := by
  have hpass : Rest next ⟨true, true⟩ (w ++ next) = Rest next .inside ((w ++ next).drop r.2) :=
    (passes_rest hnext).classEscape hr
  have hrest : Rest next ⟨true, true⟩ (w ++ next) := by
    obtain ⟨d, ds, rfl, hds⟩ := h.exists_escaped
    exact ⟨d, ds, rfl, hds⟩
  rw [hpass] at hrest
  exact hrest

end Within

/-! ## 3. Where the engine ends a class -/

namespace ClassBody

variable {cs body next : Text} {strict named : Bool}

theorem drop_classEscape (h : ClassBody ('\\' :: cs)) {r : ClassAtom × Nat}
    (hr : classEscape? strict named (cs ++ next) = some r) :
    ∃ body, (cs ++ next).drop r.2 = body ++ next ∧ ClassBody body := by
  obtain ⟨w, hw, hwithin⟩ := h.exists_within
  cases w with
  | nil => cases hw
  | cons d w =>
    obtain ⟨rfl, hcs⟩ := List.cons.inj hw
    have hstops : Stops (']' :: next) := ⟨rfl, fun h => absurd h (by decide)⟩
    rw [show cs ++ next = w ++ (']' :: next) by rw [hcs]; simp] at hr ⊢
    obtain ⟨v, hv, hvwithin⟩ := hwithin.drop_classEscape hstops hr
    exact ⟨v ++ [']'], by rw [List.append_assoc]; exact hv, of_within hvwithin⟩

theorem length_of_classAtoms : ∀ (limit : Nat) (body : Text) (taken : Nat)
    (atoms : List ClassAtom) (r : List ClassAtom × Nat), body.length ≤ limit → ClassBody body →
    classAtoms? strict named 0 (body ++ next) taken atoms = some r → r.2 = taken + body.length
  | _, [], _, _, _, _, h, _ => by cases h
  | 0, _ :: _, _, _, _, hlimit, _, _ => absurd hlimit (Nat.not_succ_le_zero _)
  | limit + 1, c :: cs, taken, atoms, r, hlimit, h, hr => by
      have hlength : cs.length ≤ limit := Nat.le_of_succ_le_succ hlimit
      simp only [List.cons_append, classAtoms?] at hr
      by_cases hclose : c = ']'
      · rw [if_pos hclose] at hr
        subst hclose
        cases hr
        rw [h.of_close]
        rfl
      rw [if_neg hclose] at hr
      by_cases hback : c = '\\'
      · rw [if_pos hback] at hr
        subst hback
        cases he : classEscape? strict named (cs ++ next) with
        | none => rw [he] at hr; cases hr
        | some x =>
          rw [he] at hr
          simp only at hr
          obtain ⟨body, hdrop, hbody⟩ := h.drop_classEscape he
          have hsum : x.2 + body.length = cs.length := by
            have hpos : 0 < body.length := by
              cases hbody <;> exact Nat.succ_pos _
            have hlengths := congrArg List.length hdrop
            rw [List.length_drop, List.length_append, List.length_append] at hlengths
            omega
          rw [classAtoms?_skip, hdrop] at hr
          rw [length_of_classAtoms limit body _ _ r (by omega) hbody hr, List.length_cons]
          omega
      · rw [if_neg hback] at hr
        have hbody := h.of_cons hclose hback
        have hnext {atoms : List ClassAtom}
            (hr : classAtoms? strict named 0 (cs ++ next) (taken + 1) atoms = some r) :
            r.2 = taken + (c :: cs).length := by
          rw [length_of_classAtoms limit cs _ _ r hlength hbody hr, List.length_cons]
          omega
        split at hr
        · exact hnext hr
        · exact hnext hr

/-- **A class ends with its text**, whatever stands behind it. -/
theorem length_of_class? (h : ClassBody body) {r : Lexeme × Nat}
    (hr : class? strict named (body ++ next) = some r) : r.2 = body.length := by
  obtain ⟨negated, rest, a, sets, hrest, ha, -, rfl⟩ := class?_eq_some_iff.1 hr
  rcases hrest with ⟨rfl, rfl, -⟩ | ⟨rfl, heq⟩
  · exact (length_of_classAtoms _ _ 0 [] a (Nat.le_refl _) h ha).trans (Nat.zero_add _)
  · cases body with
    | nil => cases h
    | cons c cs =>
      obtain ⟨rfl, rfl⟩ := List.cons.inj heq
      have hlength := length_of_classAtoms _ cs 1 [] a (Nat.le_refl _)
        (h.of_cons (by decide) (by decide)) ha
      rw [List.length_cons, Nat.add_comm]
      exact hlength

/-- What begins with a class in front of an inert text begins with a well-formed class. -/
theorem lexAll?_class_ne_none (h : ClassBody body) (hnext : Inert next) {ls : List Lexeme}
    (hls : lexAll? strict named 0 ('[' :: body ++ next) [] = some ls) :
    lexAll? strict named 0 ('[' :: body) [] ≠ none := by
  simp only [List.cons_append, lexAll?] at hls ⊢
  have hlexeme (cs : Text) : lexeme? strict named '[' cs = class? strict named cs := rfl
  rw [hlexeme] at hls ⊢
  cases hr : class? strict named (body ++ next) with
  | none => rw [hr] at hls; cases hls
  | some r =>
    have hlength := h.length_of_class? hr
    rw [class?_of_append hnext hr (Nat.le_of_eq hlength)]
    simp only
    rw [lexAll?_skip, hlength, List.drop_length]
    exact Option.some_ne_none _

theorem classAtoms?_taken (more : Nat) : ∀ (skip : Nat) (cs : Text) (taken : Nat)
    (atoms : List ClassAtom), classAtoms? strict named skip cs (taken + more) atoms =
      (classAtoms? strict named skip cs taken atoms).map fun r => (r.1, r.2 + more)
  | _, [], _, _ => by simp [classAtoms?]
  | skip + 1, _ :: cs, taken, atoms => by
      simp only [classAtoms?, Nat.add_right_comm taken more 1]
      exact classAtoms?_taken more skip cs (taken + 1) atoms
  | 0, c :: cs, taken, atoms => by
      simp only [classAtoms?, Nat.add_right_comm taken more 1]
      by_cases hclose : c = ']'
      · rw [if_pos hclose, if_pos hclose]
        rfl
      rw [if_neg hclose, if_neg hclose]
      by_cases hback : c = '\\'
      · rw [if_pos hback, if_pos hback]
        cases classEscape? strict named cs with
        | none => rfl
        | some r => exact classAtoms?_taken more r.2 cs (taken + 1) _
      rw [if_neg hback, if_neg hback]
      by_cases hdash : c = '-'
      · rw [if_pos hdash, if_pos hdash]
        exact classAtoms?_taken more 0 cs (taken + 1) _
      · rw [if_neg hdash, if_neg hdash]
        exact classAtoms?_taken more 0 cs (taken + 1) _

/-- The class that a text holds, without a caret and behind one. -/
theorem class?_eq (h : ClassBody body) (hcaret : body.head? ≠ some '^') :
    ∃ found : Option CodeSet,
      class? strict named body = found.map (fun s => (.set false s, body.length)) ∧
      class? strict named ('^' :: body) = found.map fun s => (.set true s, body.length + 1) := by
  have hplain : (body.head? == some '^') = false := by simpa using hcaret
  have hone : classAtoms? strict named 0 body 1 [] =
      (classAtoms? strict named 0 body 0 []).map fun r => (r.1, r.2 + 1) :=
    classAtoms?_taken 1 0 body 0 []
  simp only [class?, hplain, Bool.false_eq_true, if_false, List.head?_cons, beq_self_eq_true,
    if_true, List.drop_succ_cons, List.drop_zero, hone]
  cases hatoms : classAtoms? strict named 0 body 0 [] with
  | none => exact ⟨none, rfl, rfl⟩
  | some r =>
    have hatoms' : classAtoms? strict named 0 (body ++ []) 0 [] = some r := by
      rw [List.append_nil]
      exact hatoms
    have hlength := length_of_classAtoms _ body 0 [] r (Nat.le_refl _) h hatoms'
    rw [Nat.zero_add] at hlength
    refine ⟨(assembleClass strict r.1).map .unionOf, ?_, ?_⟩
    · simp only [Option.map_map, ← hlength]
      rfl
    · simp only [Option.map_some, Option.map_map, ← hlength]
      rfl

theorem lexAll?_of_class? {cs : Text} {l : Lexeme} (h : class? strict named cs = some (l, cs.length)) :
    lexAll? strict named 0 ('[' :: cs) [] = some [l] := by
  have hlexeme : lexeme? strict named '[' cs = some (l, cs.length) := h
  simp only [lexAll?, hlexeme]
  rw [lexAll?_skip, List.drop_length]
  rfl

/-- **A class is cut by itself**, and a caret in front of it exchanges its members for the others. -/
theorem lexAll?_eq (h : ClassBody body) (hcaret : body.head? ≠ some '^') :
    ∃ found : Option CodeSet,
      lexAll? strict named 0 ('[' :: body) [] = found.map (fun s => [.set false s]) ∧
      lexAll? strict named 0 ('[' :: '^' :: body) [] = found.map fun s => [.set true s] := by
  obtain ⟨found, hplain, hnegated⟩ := @class?_eq _ strict named h hcaret
  refine ⟨found, ?_⟩
  cases found with
  | none =>
    have hnone {cs : Text} (hcs : class? strict named cs = none) :
        lexAll? strict named 0 ('[' :: cs) [] = none := by
      have hlexeme : lexeme? strict named '[' cs = none := hcs
      simp only [lexAll?, hlexeme]
    exact ⟨hnone hplain, hnone hnegated⟩
  | some s => exact ⟨lexAll?_of_class? hplain, lexAll?_of_class? hnegated⟩

end ClassBody

/-! ## 4. Putting a class together -/

/-- An atom that begins no range stands for itself. -/
theorem Native.assembleClass_cons {strict : Bool} {a : ClassAtom} {rest : List ClassAtom}
    (h : rest.head? ≠ some .hyphen) :
    assembleClass strict (a :: rest) = (assembleClass strict rest).map ([a.members] ++ ·) := by
  cases rest with
  | nil => rfl
  | cons b rest =>
    cases b with
    | hyphen => exact absurd rfl h
    | point n => rfl
    | set members => rfl

end ExtensibleRegex
