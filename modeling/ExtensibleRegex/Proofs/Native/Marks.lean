import ExtensibleRegex.Proofs.Native.Groups
import ExtensibleRegex.Proofs.Native.Landmarks
import ExtensibleRegex.Native.Engine
import Mathlib.Tactic

/-!
# Capturing groups in the text

The capturing groups of a pattern can be read off its text: a parenthesis captures unless it is
escaped, stands in a class, or opens a group of another kind. `countGroups` counts them so. This
file shows that it counts right:

* `captureMarks` lists the parentheses of a text that capture, each with whether a name follows;
* every lexeme is passed over as a whole (`marks_lexeme?`), so in a well-formed pattern the marks
  are those of its capture names (`marks_of_reads`);
* a well-formed pattern has as many groups as are counted (`Program.groups_eq_countGroups`).
-/

namespace ExtensibleRegex.Native

/-! ## 1. Marks -/

/-- The parentheses of a text that capture, in order: whether each has a name. -/
def captureMarks : (inClass : Bool) → Text → List Bool
  | _, [] => []
  | _, ['\\'] => []
  | inClass, '\\' :: _ :: rest => captureMarks inClass rest
  | inClass, c :: rest =>
    if c = '[' && !inClass then captureMarks true rest
    else if c = ']' && inClass then captureMarks false rest
    else if c = '(' && !inClass && opensCapture rest then
      (rest.head? == some '?') :: captureMarks inClass rest
    else captureMarks inClass rest

theorem countGroupsFrom_eq : ∀ (count : Nat) (inClass : Bool) (t : Text),
    countGroupsFrom count inClass t = count + (captureMarks inClass t).length
  | count, _, [] => by simp [countGroupsFrom, captureMarks]
  | count, inClass, c :: t => by
      by_cases hc : c = '\\'
      · subst hc
        cases t with
        | nil => simp [countGroupsFrom, captureMarks]
        | cons d t =>
          simp only [countGroupsFrom, captureMarks]
          exact countGroupsFrom_eq count inClass t
      · simp only [countGroupsFrom, captureMarks, hc, implies_true, false_implies]
        split
        · exact countGroupsFrom_eq _ _ t
        · split
          · exact countGroupsFrom_eq _ _ t
          · split
            · rw [countGroupsFrom_eq, List.length_cons]
              omega
            · exact countGroupsFrom_eq _ _ t

/-! ## 2. Plain characters -/

/-- A character that neither opens nor closes anything, nor escapes. -/
def isPlain (c : Char) : Bool := c != '\\' && c != '[' && c != ']' && c != '('

theorem captureMarks_escape (b : Bool) (cs : Text) :
    captureMarks b ('\\' :: cs) = captureMarks b (cs.drop 1) := by
  cases cs with
  | nil => simp [captureMarks]
  | cons c cs => simp [captureMarks]

theorem captureMarks_plain {b : Bool} {c : Char} (h : isPlain c = true) (cs : Text) :
    captureMarks b (c :: cs) = captureMarks b cs := by
  simp only [isPlain, Bool.and_eq_true, bne_iff_ne, ne_eq] at h
  obtain ⟨⟨⟨h1, h2⟩, h3⟩, h4⟩ := h
  simp [captureMarks, h1, h2, h3, h4]

theorem captureMarks_append {b : Bool} (cs : Text) : ∀ {w : Text}, (∀ c ∈ w, isPlain c = true) →
    captureMarks b (w ++ cs) = captureMarks b cs
  | [], _ => rfl
  | c :: w, h => by
      rw [List.cons_append, captureMarks_plain (h c List.mem_cons_self)]
      exact captureMarks_append cs fun d hd => h d (List.mem_cons_of_mem _ hd)

/-- Plain characters keep the spot. -/
theorem after_of_isPlain {b : Bool} : ∀ {w : Text}, (∀ c ∈ w, isPlain c = true) →
    Spot.after ⟨b, false⟩ w = ⟨b, false⟩
  | [], _ => rfl
  | c :: w, h => by
      have hc := h c List.mem_cons_self
      simp only [isPlain, Bool.and_eq_true, bne_iff_ne, ne_eq] at hc
      have hnext : Spot.next ⟨b, false⟩ c = ⟨b, false⟩ := by
        cases b <;> simp [Spot.next, hc.1.1.1, hc.1.1.2, hc.1.2]
      rw [Spot.after_cons, hnext]
      exact after_of_isPlain fun d hd => h d (List.mem_cons_of_mem _ hd)

theorem isPlain_of_isQuiet {c : Char} (h : isQuiet c = true) : isPlain c = true := by
  obtain ⟨h1, h2, h3, h4, -, -⟩ := isQuiet_iff.1 h
  simp [isPlain, h1, h2, h3, h4]

theorem isPlain_of_isDigit {c : Char} (h : c.isDigit = true) : isPlain c = true :=
  isPlain_of_isQuiet (isQuiet_of_isDigit h)

theorem isPlain_of_isHexDigit {c : Char} (h : isHexDigit c = true) : isPlain c = true :=
  isPlain_of_isQuiet (isQuiet_of_isHexDigit h)

theorem isPlain_of_isNameChar {c : Char} (h : isNameChar c = true) : isPlain c = true := by
  unfold isPlain
  simp only [Bool.and_eq_true, bne_iff_ne, ne_eq]
  refine ⟨⟨⟨?_, ?_⟩, ?_⟩, ?_⟩ <;>
    · rintro rfl
      cases h

/-- Digits in braces are plain. -/
theorem isPlain_of_braced {w : Text} (h : ∀ c ∈ w, isHexDigit c = true) :
    ∀ c ∈ '\x7b' :: (w ++ ['\x7d']), isPlain c = true := by
  intro c hc
  simp only [List.mem_cons, List.mem_append, List.not_mem_nil, or_false] at hc
  rcases hc with rfl | hc | rfl
  · rfl
  · exact isPlain_of_isHexDigit (h c hc)
  · rfl

theorem isPlain_of_isOctalDigit {c : Char} (h : isOctalDigit c = true) : isPlain c = true :=
  isPlain_of_isQuiet (isQuiet_of_isOctalDigit h)

/-! ## 3. Lexemes -/

/-- The marks from a spot on. -/
def marksFrom (s : Spot) (t : Text) : List Bool :=
  captureMarks s.inClass (if s.escaped then t.drop 1 else t)

/-- The mark of a text's first character, outside of classes. -/
def firstMark (c : Char) (t : Text) : List Bool :=
  if c = '(' && opensCapture t then [t.head? == some '?'] else []

theorem captureMarks_cons (c : Char) (t : Text) :
    captureMarks false (c :: t) = firstMark c t ++ marksFrom (Spot.outside.next c) t := by
  by_cases hescape : c = '\\'
  · subst hescape
    rw [captureMarks_escape]
    rfl
  · by_cases hclass : c = '['
    · subst hclass
      simp [captureMarks, firstMark, marksFrom, Spot.next]
    · have hnext : Spot.outside.next c = .outside := by simp [Spot.next, hescape, hclass]
      rw [hnext]
      by_cases hopens : (c = '(' && opensCapture t) = true
      · simp [captureMarks, firstMark, marksFrom, hescape, hclass, hopens]
      · simp [captureMarks, firstMark, marksFrom, hescape, hclass, hopens]

/-- Marks are made at landmarks only. -/
theorem scans_marksFrom : Scans marksFrom := by
  intro s c t h
  obtain ⟨b, escaped⟩ := s
  cases escaped with
  | true => rfl
  | false =>
    cases b with
    | false =>
      have hmark : isLandmark (c :: t) = false := by simpa [Spot.outside] using h
      have hparen : c ≠ '(' := by rintro rfl; simp [isLandmark] at hmark
      show captureMarks false (c :: t) = _
      rw [captureMarks_cons, firstMark, decide_eq_false hparen]
      rfl
    | true =>
      show captureMarks true (c :: t) = _
      by_cases hescape : c = '\\'
      · subst hescape
        rw [captureMarks_escape]
        rfl
      · by_cases hclose : c = ']'
        · simp [captureMarks, marksFrom, Spot.next, hclose]
        · have hnext : Spot.next ⟨true, false⟩ c = .inside := by simp [Spot.next, hescape, hclose]
          rw [hnext]
          simp [captureMarks, marksFrom, hescape, hclose]

/-- The name of the group that a parenthesis opens, and its mark. -/
theorem firstMark_opening? {cs : Text} {r : Opening × Nat} (h : opening? cs = some r) :
    firstMark '(' cs = (captureNames [.opening r.1]).map Option.isSome := by
  unfold opening? at h
  split at h
  · cases h; rfl
  · cases h; rfl
  · cases h; rfl
  · cases h; rfl
  · rename_i rest hlook hlookNot
    obtain ⟨x, hx, rfl⟩ := Option.map_eq_some_iff.1 h
    have hopens : opensCapture ('?' :: '<' :: rest) = true := by
      cases rest with
      | nil => rfl
      | cons e rest =>
        have he : e ≠ '=' := fun he => hlook rest (by rw [he])
        have he' : e ≠ '!' := fun he => hlookNot rest (by rw [he])
        simp [opensCapture]
    simp [firstMark, hopens, captureNames]
  · rename_i rest _ _ _ _ hname
    obtain ⟨x, hx, rfl⟩ := Option.map_eq_some_iff.1 h
    have hopens : opensCapture ('?' :: rest) = false := by
      cases rest with
      | nil => rfl
      | cons e rest =>
        have he : e ≠ '<' := fun he => hname rest (by rw [he])
        simp [opensCapture]
    have hplain : captureNames [.opening x.1] = [] := by
      unfold modifiers? at hx
      simp only at hx
      split at hx
      · split at hx <;> cases hx
        rfl
      · split at hx <;> cases hx
        rfl
      · cases hx
    simp [firstMark, hopens, hplain]
  · rename_i hq
    cases h
    have hhead : cs.head? ≠ some '?' := by
      intro hhead
      obtain ⟨rest, rfl⟩ := List.head?_eq_some_iff.1 hhead
      exact hq rest rfl
    have hopens : opensCapture cs = true := by
      cases cs with
      | nil => rfl
      | cons c cs =>
        have hc : c ≠ '?' := fun hc => hhead (by rw [hc]; rfl)
        simp [opensCapture]
    simp [firstMark, hopens, hhead, captureNames]

theorem captureNames_quantifier? {min : Nat} {max : Option Nat} {cs : Text} {n : Nat}
    {r : Lexeme × Nat} (h : quantifier? min max cs n = some r) : captureNames [r.1] = [] := by
  unfold quantifier? at h
  split at h
  · split at h <;> cases h <;> rfl
  · cases h

/-- What an escape outside of classes can be. -/
def Lexeme.isEscape : Lexeme → Bool
  | .literal _ => true
  | .set _ _ => true
  | .boundary _ => true
  | .decimal _ => true
  | .namedRef _ => true
  | _ => false

theorem isEscape_escape? {strict named : Bool} {cs : Text} {r : Lexeme × Nat}
    (h : escape? strict named cs = some r) : r.1.isEscape = true := by
  cases cs with
  | nil => cases h
  | cons c cs =>
    simp only [escape?] at h
    split at h
    · obtain ⟨x, -, rfl⟩ := Option.map_eq_some_iff.1 h
      rfl
    split at h
    · cases h; rfl
    split at h
    · cases h; rfl
    split at h
    · split at h
      · split at h
        · cases h; rfl
        · split at h <;> cases h
          rfl
      · split at h <;> cases h
        rfl
    split at h
    · split at h
      · obtain ⟨x, -, rfl⟩ := Option.map_eq_some_iff.1 h
        rfl
      · cases h
    split at h
    · split at h
      · split at h <;> cases h
        rfl
      · cases h; rfl
    split at h
    · cases h; rfl
    · obtain ⟨x, -, rfl⟩ := Option.map_eq_some_iff.1 h
      rfl

theorem captureNames_escape? {strict named : Bool} {cs : Text} {r : Lexeme × Nat}
    (h : escape? strict named cs = some r) : captureNames [r.1] = [] := by
  have hescape := isEscape_escape? h
  obtain ⟨l, n⟩ := r
  cases l with
  | opening kind => cases hescape
  | _ => rfl

/-- A lexeme opens the group that its first character marks. -/
theorem firstMark_lexeme? {strict named : Bool} {c : Char} {cs : Text} {r : Lexeme × Nat}
    (h : lexeme? strict named c cs = some r) :
    firstMark c cs = (captureNames [r.1]).map Option.isSome := by
  unfold lexeme? at h
  split at h
  · cases h; rfl
  · cases h; rfl
  · cases h; rfl
  · cases h; rfl
  · cases h; rfl
  · obtain ⟨x, hx, rfl⟩ := Option.map_eq_some_iff.1 h
    exact firstMark_opening? hx
  · obtain ⟨negated, body, a, sets, -, -, -, rfl⟩ := class?_eq_some_iff.1 h
    rfl
  · rw [captureNames_quantifier? h]; rfl
  · rw [captureNames_quantifier? h]; rfl
  · rw [captureNames_quantifier? h]; rfl
  · split at h
    · rw [captureNames_quantifier? h]; rfl
    · split at h <;> cases h
      rfl
  · split at h <;> cases h
    rfl
  · split at h <;> cases h
    rfl
  · rw [captureNames_escape? h]; rfl
  · rename_i h1 h2 h3 h4 h5 h6 h7 h8 h9 h10 h11 h12 h13 h14
    cases h
    simp [firstMark, show c ≠ '(' from h6, captureNames]

/-- **A lexeme is passed over as a whole**, and marks the group that it opens. -/
theorem marks_lexeme? {strict named : Bool} {c : Char} {cs : Text} {r : Lexeme × Nat}
    (h : lexeme? strict named c cs = some r) :
    captureMarks false (c :: cs) =
      (captureNames [r.1]).map Option.isSome ++ captureMarks false (cs.drop r.2) := by
  rw [captureMarks_cons, firstMark_lexeme? h, scans_marksFrom.lexeme? h]
  rfl

/-! ## 4. Whole patterns -/

theorem marks_lexAll? {strict named : Bool} : ∀ (skip : Nat) (cs : Text) (read ls : List Lexeme),
    lexAll? strict named skip cs read = some ls →
    (captureNames ls).map Option.isSome =
      (captureNames read.reverse).map Option.isSome ++ captureMarks false (cs.drop skip)
  | _, [], read, ls, h => by
      simp only [lexAll?, Option.some.injEq] at h
      simp [← h, captureMarks]
  | skip + 1, _ :: cs, read, ls, h => by
      simp only [lexAll?] at h
      exact marks_lexAll? skip cs read ls h
  | 0, c :: cs, read, ls, h => by
      simp only [lexAll?] at h
      cases hl : lexeme? strict named c cs with
      | none => rw [hl] at h; cases h
      | some r =>
        rw [hl] at h
        have ih := marks_lexAll? r.2 cs (r.1 :: read) ls h
        rw [ih, List.drop_zero, marks_lexeme? hl, List.reverse_cons, captureNames_append,
          List.map_append, List.append_assoc]

/-- **The marks of a text are those of its capture names.** -/
theorem marks_lexemes? {strict : Bool} {source : Text} {ls : List Lexeme}
    (h : lexemes? strict source = some ls) :
    (captureNames ls).map Option.isSome = captureMarks false source := by
  unfold lexemes? at h
  cases hl : lexAll? strict strict 0 source [] with
  | none => rw [hl] at h; cases h
  | some ls' =>
    rw [hl] at h
    simp only at h
    split at h
    · exact marks_lexAll? 0 source [] ls h
    · cases h
      exact marks_lexAll? 0 source [] ls hl

theorem lexemes?_true (source : Text) : lexemes? true source = lexAll? true true 0 source [] := by
  unfold lexemes?
  cases lexAll? true true 0 source [] <;> simp

/-- Whether a pattern names a group does not depend on how `\k` is read, so without a named group
both ways of cutting it agree. -/
theorem lexemes?_eq_some_iff {strict : Bool} {source : Text} {ls : List Lexeme}
    (hnone : ∀ name ∈ captureNames ls, name = none) :
    lexemes? strict source = some ls ↔ lexAll? strict strict 0 source [] = some ls := by
  have hplain {ms : List Lexeme} (h : ∀ b ∈ (captureNames ms).map Option.isSome, b = false) :
      (captureNames ms).any Option.isSome = false := by
    rw [List.any_eq_false]
    intro name hname
    rw [h name.isSome (List.mem_map_of_mem hname)]
    exact Bool.false_ne_true
  have hfalse : ∀ b ∈ (captureNames ls).map Option.isSome, b = false := by
    intro b hb
    obtain ⟨name, hname, rfl⟩ := List.mem_map.1 hb
    rw [hnone name hname]
    rfl
  cases strict with
  | true => rw [lexemes?_true]
  | false =>
    unfold lexemes?
    cases hms : lexAll? false false 0 source [] with
    | none => simp
    | some ms =>
      have hmarks := marks_lexAll? 0 source [] ms hms
      constructor
      · intro h
        simp only [Bool.not_false, Bool.true_and] at h
        split at h
        · rename_i hnamed
          rw [← marks_lexAll? 0 source [] ls h] at hmarks
          rw [hplain (hmarks ▸ hfalse)] at hnamed
          cases hnamed
        · exact h
      · intro h
        obtain rfl := Option.some.inj h
        simp only [hplain hfalse, Bool.and_false, Bool.false_eq_true, if_false]

/-- **A well-formed pattern has as many groups as its text shows.** -/
theorem Program.groups_eq_countGroups {source : Text} {mode : Mode} {program : Program}
    (h : Program.ofSource? source mode = some program) : program.groups = countGroups source := by
  obtain ⟨ls, p, hreads, hprogram⟩ := Program.ofSource?_eq_some_iff.1 h
  have hmarks := congrArg List.length (marks_lexemes? hreads.lexed)
  rw [List.length_map] at hmarks
  rw [countGroups, countGroupsFrom_eq, ← hmarks, hprogram]
  simp

end ExtensibleRegex.Native
