import ExtensibleRegex.Proofs.Expansion.Omission
import ExtensibleRegex.Proofs.Native.Nesting
import ExtensibleRegex.Proofs.Property.Derived
import Mathlib.Tactic

/-!
# The patterns of properties

What a property escape writes is a class, or a pattern for one code point that is put together from
the class and the astral pattern of the property. This file shows what these patterns match:

* leaving out repeated empty groups acts on the class and on the astral pattern one by one
  (`merged_pointPattern`), and turns the data of a property into data of the same kind
  (`UnicodeProperty.Proper.merged`);
* of a pattern and its negation, just one matches each text of one code point (`Opposite`), for
  classes (`opposite_class`) and for point patterns (`UnicodeProperty.Proper.opposite`).
-/

namespace ExtensibleRegex

open Native

/-! ## 1. Leaving out empty groups -/

/-- A class without repeated empty groups is a class. -/
theorem ClassBody.merged : ∀ (n : Nat) (t : Text), t.length ≤ n → ClassBody t →
    ClassBody (merged t) ∧ ClassBody (mergedAfter t)
  | _, [], _, h => by cases h
  | 0, _ :: _, hlen, _ => absurd hlen (Nat.not_succ_le_zero _)
  | n + 1, c :: cs, hlen, h => by
      have hlen' : cs.length ≤ n := by simpa using hlen
      -- the three characters after the parenthesis of an empty group
      have hbuild {t : Text} (ht : ClassBody t) : ClassBody ('?' :: ':' :: ')' :: t) :=
        ((ht.other (by decide) (by decide)).other (by decide) (by decide)).other (by decide)
          (by decide)
      have htake {t : Text} (ht : ClassBody ('?' :: ':' :: ')' :: t)) : ClassBody t :=
        ((ht.of_cons (by decide) (by decide)).of_cons (by decide) (by decide)).of_cons (by decide)
          (by decide)
      cases hempty : emptyGroup.isPrefixOf (c :: cs) with
      | true =>
        obtain ⟨rest, hrest⟩ := List.isPrefixOf_iff_prefix.1 hempty
        have hshort : rest.length ≤ n := by
          have := congrArg List.length hrest
          simp [emptyGroup] at this hlen'
          omega
        rw [← hrest] at h ⊢
        obtain ⟨-, ih⟩ := ClassBody.merged n rest hshort
          (htake (h.of_cons (by decide) (by decide)))
        rw [merged_emptyGroup, mergedAfter_emptyGroup]
        exact ⟨(hbuild ih).other (by decide) (by decide), ih⟩
      | false =>
        rw [merged_cons hempty, mergedAfter_cons hempty, and_self_iff]
        by_cases hclose : c = ']'
        · subst hclose
          rw [h.of_close]
          exact .close
        by_cases hback : c = '\\'
        swap
        · exact (ClassBody.merged n cs hlen' (h.of_cons hclose hback)).1.other hclose hback
        subst hback
        obtain ⟨d, ds, rfl, hds⟩ := h.exists_escaped
        cases hnext : emptyGroup.isPrefixOf (d :: ds) with
        | true =>
          obtain ⟨rest, hrest⟩ := List.isPrefixOf_iff_prefix.1 hnext
          obtain ⟨rfl, rfl⟩ := List.cons.inj (show '(' :: '?' :: ':' :: ')' :: rest = d :: ds from hrest)
          obtain ⟨-, ih⟩ := ClassBody.merged n rest (by simp at hlen'; omega) (htake hds)
          rw [← hrest, merged_emptyGroup]
          exact (hbuild ih).escape '('
        | false =>
          rw [merged_cons hnext]
          exact (ClassBody.merged n ds (by simp at hlen'; omega) hds).1.escape d

/-- Between the two ends of a pattern nothing is left out that is not left out anyway. -/
theorem mergeEmptyGroups_whole (t : Text) :
    mergeEmptyGroups ('^' :: (t ++ ['$'])) = '^' :: (mergeEmptyGroups t ++ ['$']) := by
  have hstart := (merged_append_cons (c := '^') (by decide) (t ++ ['$']) 0 [] (Nat.le_refl _)).1
  have hend := (merged_append_cons (c := '$') (by decide) [] t.length t (Nat.le_refl _)).1
  rw [hend] at hstart
  exact hstart

/-! ## 2. How well-formed patterns begin and end -/

namespace Native.Program.Reads

variable {w : Text} {ls : List Lexeme} {p : Progress}

/-- A well-formed pattern does not begin by closing a group. -/
theorem head?_ne_close (h : Program.Reads w pointMode ls p) : w.head? ≠ some ')' := by
  intro hhead
  obtain ⟨t, rfl⟩ := List.head?_eq_some_iff.1 hhead
  have hlex : lexAll? true true 0 t [.close] = some ls := h.lexAll rfl
  rw [lexAll?_read] at hlex
  obtain ⟨ms, -, rfl⟩ := Option.map_eq_some_iff.1 hlex
  cases h.read

/-- A well-formed pattern does not end in an empty group and in one that is begun. -/
theorem not_open (h : Program.Reads w pointMode ls p) : ¬(emptyGroup ++ openGroup) <:+ w := by
  rintro ⟨x, rfl⟩
  have hlex := h.lexAll rfl
  -- the parenthesis that is left open stands behind another one, so it is not escaped
  have hspot : Spot.outside.after (x ++ emptyGroup) = .outside := by
    have hafter := after_of_lexAll? _ _ _ _ (Nat.le_refl _) hlex
    rw [← List.append_assoc, Spot.after_append] at hafter
    rw [Spot.after_append] at hafter ⊢
    revert hafter
    generalize Spot.outside.after x = s
    obtain ⟨_ | _, _ | _⟩ := s
    · exact fun _ => rfl
    · exact fun _ => rfl
    · exact nofun
    · exact nofun
  have hopen : lexAll? true true 0 openGroup [] = some [.opening (.plain [] [])] := by rfl
  have hinert : Inert openGroup := ⟨rfl, nofun⟩
  rw [← List.append_assoc, lexAll?_split hspot hinert rfl] at hlex
  obtain ⟨ms, -, hms⟩ := Option.bind_eq_some_iff.1 hlex
  rw [lexAll?_read, hopen, List.reverse_reverse] at hms
  cases hms
  have hread := h.read
  rw [Progress.readAll?_bind] at hread
  obtain ⟨q, -, hq⟩ := Option.bind_eq_some_iff.1 hread
  cases hq
  cases h.closed

end Native.Program.Reads

/-! ## 3. Point patterns -/

namespace UnicodeProperty

/-- The data of a property as it has to be: the class holds characters and escapes, and no caret in
front, and the astral pattern matches one code point. -/
structure Proper (p : UnicodeProperty) : Prop where
  classBody : ∀ b, p.bmp = some b → ClassBody (b ++ [']'])
  caret : ∀ b, p.bmp = some b → b.head? ≠ some '^'
  onePoint : ∀ a, p.astral = some a → OnePoint a

/-- A property has a class or an astral pattern. -/
def HasData (p : UnicodeProperty) : Prop := p.bmp.isSome = true ∨ p.astral.isSome = true

/-- The class and the astral pattern of a property as alternatives. -/
def choice (p : UnicodeProperty) : Text :=
  let bmp := p.bmp.map fun b => '[' :: b ++ [']']
  ['|'].intercalate
    (if p.bmpLast then p.astral.toList ++ bmp.toList else bmp.toList ++ p.astral.toList)

theorem pointPattern_false (p : UnicodeProperty) :
    p.pointPattern false = "(?:".toList ++ (p.choice ++ ")".toList) := by
  simp [pointPattern, choice]

theorem pointPattern_true (p : UnicodeProperty) :
    p.pointPattern true =
      "(?:".toList ++ ("(?!".toList ++ (p.choice ++ ")[\\s\\S]".toList) ++ ")".toList) := by
  simp [pointPattern, choice]

/-- What holds of a class, of an astral pattern and of both, in either order, holds of the
alternatives of a property. -/
theorem choice_cases {p : UnicodeProperty} {motive : Text → Prop} (hdata : p.HasData)
    (hclass : ∀ b, p.bmp = some b → motive ('[' :: (b ++ [']'])))
    (hastral : ∀ a, p.astral = some a → motive a)
    (hfirst : ∀ b a, p.bmp = some b → p.astral = some a →
      motive ('[' :: (b ++ [']']) ++ ['|'] ++ a))
    (hlast : ∀ b a, p.bmp = some b → p.astral = some a →
      motive (a ++ ['|'] ++ '[' :: (b ++ [']']))) : motive p.choice := by
  unfold choice
  cases hbmp : p.bmp with
  | none =>
    cases hpoint : p.astral with
    | none => simp [HasData, hbmp, hpoint] at hdata
    | some a =>
      have ha := hastral a hpoint
      cases p.bmpLast <;> simpa [List.intercalate] using ha
  | some b =>
    cases hpoint : p.astral with
    | none =>
      have hb := hclass b hbmp
      cases p.bmpLast <;> simpa [List.intercalate] using hb
    | some a =>
      cases p.bmpLast with
      | false => simpa [List.intercalate] using hfirst b a hbmp hpoint
      | true => simpa [List.intercalate] using hlast b a hbmp hpoint

/-- The data of a property without repeated empty groups. -/
def mergedData (p : UnicodeProperty) : UnicodeProperty :=
  { p with bmp := p.bmp.map mergeEmptyGroups, astral := p.astral.map mergeEmptyGroups }

theorem Proper.mergedData {p : UnicodeProperty} (h : p.Proper)
    (htame : ∀ a, p.astral = some a → Tame a) : p.mergedData.Proper where
  classBody b hb := by
    obtain ⟨b, hbmp, rfl⟩ := Option.map_eq_some_iff.1 hb
    have hmerged := (ClassBody.merged _ _ (Nat.le_refl _) (h.classBody b hbmp)).1
    rwa [(merged_append_cons (c := ']') (by decide) [] _ b (Nat.le_refl _)).1] at hmerged
  caret b hb := by
    obtain ⟨b, hbmp, rfl⟩ := Option.map_eq_some_iff.1 hb
    have hhead : (mergeEmptyGroups b).head? = b.head? := head?_merged b
    rw [hhead]
    exact h.caret b hbmp
  onePoint a ha := by
    obtain ⟨a, hastral, rfl⟩ := Option.map_eq_some_iff.1 ha
    obtain ⟨find, hfind, hone⟩ := h.onePoint a hastral
    exact ⟨find, (meaning_merged (htame a hastral)).trans hfind, hone⟩

variable {p : UnicodeProperty}

/-- The alternatives of a property do not begin by closing a group, and do not end in an empty group
and in one that is begun. -/
theorem Proper.choice_ends (h : p.Proper) (hdata : p.HasData) :
    p.choice.head? ≠ some ')' ∧ ¬(emptyGroup ++ openGroup) <:+ p.choice := by
  have hclosed (u : Text) : ¬(emptyGroup ++ openGroup) <:+ u ++ [']'] := by
    rintro ⟨x, hx⟩
    have hlast := congrArg List.getLast? hx
    rw [List.getLast?_append, List.getLast?_concat] at hlast
    cases hlast
  refine choice_cases
    (motive := fun t => t.head? ≠ some ')' ∧ ¬(emptyGroup ++ openGroup) <:+ t) hdata
    (fun b _ => ⟨nofun, hclosed ('[' :: b)⟩) (fun a ha => ?_) (fun b a _ ha => ?_)
    (fun b a _ ha => ?_)
  · obtain ⟨ls, q, hreads, -⟩ := (h.onePoint a ha).exists_reads
    exact ⟨hreads.head?_ne_close, hreads.not_open⟩
  · obtain ⟨ls, q, hreads, -⟩ := (h.onePoint a ha).exists_reads
    refine ⟨nofun, fun hsuffix => ?_⟩
    have hbar : '|' :: a <:+ '[' :: (b ++ [']']) ++ ['|'] ++ a := ⟨'[' :: (b ++ [']']), by simp⟩
    rcases List.suffix_or_suffix_of_suffix hsuffix hbar with hs | hs
    · rcases List.suffix_cons_iff.1 hs with heq | hs
      · exact absurd (List.cons.inj heq).1 (by decide)
      · exact hreads.not_open hs
    · exact absurd (hs.subset List.mem_cons_self) (by decide)
  · obtain ⟨ls, q, hreads, -⟩ := (h.onePoint a ha).exists_reads
    refine ⟨?_, ?_⟩
    · cases a with
      | nil => exact nofun
      | cons c cs => exact hreads.head?_ne_close
    · have hends := hclosed (a ++ ['|'] ++ '[' :: b)
      rwa [List.append_assoc, List.cons_append] at hends

theorem mergeEmptyGroups_class (b : Text) :
    mergeEmptyGroups ('[' :: (b ++ [']'])) = '[' :: (mergeEmptyGroups b ++ [']']) := by
  have hopen := (merged_append_cons (c := '[') (by decide) (b ++ [']']) 0 [] (Nat.le_refl _)).1
  have hclose := (merged_append_cons (c := ']') (by decide) [] b.length b (Nat.le_refl _)).1
  rw [hclose] at hopen
  exact hopen

theorem mergeEmptyGroups_bar (u v : Text) : mergeEmptyGroups (u ++ ['|'] ++ v) =
    mergeEmptyGroups u ++ ['|'] ++ mergeEmptyGroups v := by
  have hbar := (merged_append_cons (c := '|') (by decide) v u.length u (Nat.le_refl _)).1
  rw [List.append_assoc, List.append_assoc]
  exact hbar

/-- Empty groups are left out of the class and of the astral pattern one by one. -/
theorem choice_mergedData (p : UnicodeProperty) :
    p.mergedData.choice = mergeEmptyGroups p.choice := by
  unfold choice UnicodeProperty.mergedData
  cases p.bmp with
  | none =>
    cases p.astral <;> cases p.bmpLast <;> simp [List.intercalate] <;> rfl
  | some b =>
    have hclass := mergeEmptyGroups_class b
    cases p.astral with
    | none => cases p.bmpLast <;> simpa [List.intercalate] using hclass.symm
    | some a =>
      cases p.bmpLast with
      | false =>
        have hbar := mergeEmptyGroups_bar ('[' :: (b ++ [']'])) a
        rw [hclass] at hbar
        simpa [List.intercalate] using hbar.symm
      | true =>
        have hbar := mergeEmptyGroups_bar a ('[' :: (b ++ [']']))
        rw [hclass] at hbar
        simpa [List.intercalate] using hbar.symm

/-- The opening of a group stays where no parenthesis closes it at once. -/
theorem mergeEmptyGroups_open {t : Text} (h : t.head? ≠ some ')') :
    mergeEmptyGroups ("(?:".toList ++ t) = "(?:".toList ++ mergeEmptyGroups t := by
  have hgroup : emptyGroup.isPrefixOf ('(' :: '?' :: ':' :: t) = false := by
    cases t with
    | nil => rfl
    | cons c t =>
      have hc : c ≠ ')' := fun hc => h (congrArg some hc)
      simp [emptyGroup, List.isPrefixOf, hc.symm]
  show merged ('(' :: '?' :: ':' :: t) = '(' :: '?' :: ':' :: merged t
  rw [merged_cons hgroup, merged_cons rfl, merged_cons rfl]

/-- **What is left out of a point pattern** is left out of the data of the property. -/
theorem Proper.merged_pointPattern (h : p.Proper) (hdata : p.HasData) (negated : Bool) :
    mergeEmptyGroups (p.pointPattern negated) = p.mergedData.pointPattern negated := by
  obtain ⟨hbegin, hend⟩ := h.choice_ends hdata
  have hclose : merged (p.choice ++ [')']) = merged p.choice ++ [')'] :=
    (merged_append_close _ _ (Nat.le_refl _)).1 hend
  have hchoice : p.mergedData.choice = merged p.choice := choice_mergedData p
  cases negated with
  | false =>
    rw [pointPattern_false, pointPattern_false, hchoice]
    by_cases hnil : p.choice = []
    · rw [hnil]
      rfl
    · have hhead : (p.choice ++ [')']).head? ≠ some ')' := by
        rw [List.head?_append_of_ne_nil _ hnil]
        exact hbegin
      exact (mergeEmptyGroups_open hhead).trans (congrArg ("(?:".toList ++ ·) hclose)
  | true =>
    have hform (t : Text) : "(?:".toList ++ ("(?!".toList ++ (t ++ ")[\\s\\S]".toList) ++
        ")".toList) = "(?:(?".toList ++ '!' :: ((t ++ [')']) ++ '[' :: "\\s\\S])".toList) := by
      simp
    have hbang := (merged_append_cons (c := '!') (by decide)
      ((p.choice ++ [')']) ++ '[' :: "\\s\\S])".toList) _ "(?:(?".toList (Nat.le_refl _)).1
    have hset := (merged_append_cons (c := '[') (by decide) "\\s\\S])".toList _ (p.choice ++ [')'])
      (Nat.le_refl _)).1
    rw [pointPattern_true, pointPattern_true, hchoice, hform, hform]
    rw [hset, hclose] at hbang
    exact hbang

end UnicodeProperty

/-! ## 4. Patterns and their negations -/

/-- Of two patterns, just one matches each text of one code point from end to end, and both are
well-formed. -/
structure Opposite (mode : Mode) (v w : Text) : Prop where
  left : ∃ P, Program.ofSource? v mode = some P
  right : ∃ P, Program.ofSource? w mode = some P
  whole : ∃ P Q, Program.ofSource? ('^' :: (v ++ ['$'])) mode = some P ∧
    Program.ofSource? ('^' :: (w ++ ['$'])) mode = some Q ∧
    ∀ c, (P.search? (.first [c])).isSome = !(Q.search? (.first [c])).isSome

theorem Opposite.symm {mode : Mode} {v w : Text} (h : Opposite mode v w) : Opposite mode w v where
  left := h.right
  right := h.left
  whole := by
    obtain ⟨P, Q, hP, hQ, hPQ⟩ := h.whole
    exact ⟨Q, P, hQ, hP, fun c => by rw [hPQ c, Bool.not_not]⟩

/-- What begins with a class, in front of an inert text, has the members of the class. -/
theorem ClassBody.exists_members {strict named : Bool} {b next : Text} (h : ClassBody (b ++ [']']))
    (hcaret : b.head? ≠ some '^') (hnext : Inert next) {read ls : List Lexeme}
    (hls : lexAll? strict named 0 ('[' :: (b ++ [']']) ++ next) read = some ls) :
    ∃ s, lexAll? strict named 0 ('[' :: (b ++ [']'])) [] = some [.set false s] ∧
      lexAll? strict named 0 ('[' :: '^' :: (b ++ [']'])) [] = some [.set true s] := by
  have hcaret' : (b ++ [']']).head? ≠ some '^' := by
    cases b with
    | nil => decide
    | cons c b => exact hcaret
  rw [lexAll?_read] at hls
  obtain ⟨ms, hms, -⟩ := Option.map_eq_some_iff.1 hls
  have hne := h.lexAll?_class_ne_none hnext hms
  obtain ⟨found, hplain, hnegated⟩ := @ClassBody.lexAll?_eq _ strict named h hcaret'
  cases found with
  | none => exact absurd hplain hne
  | some s => exact ⟨s, hplain, hnegated⟩

/-- The program of a class from the start of a text to its end. -/
theorem ofSource?_class_whole {negated : Bool} {s : CodeSet} {cs : Text}
    (h : lexAll? false false 0 ('[' :: cs) [] = some [.set negated s]) :
    Program.ofSource? ('^' :: ('[' :: cs ++ ['$'])) ⟨false, false, false⟩ =
      some ⟨(Node.atom (.set negated s false)).whole, 0⟩ := by
  have hlex : lexAll? false false 0 ('^' :: ('[' :: cs ++ ['$'])) [] =
      some [.lineStart, .set negated s, .lineEnd] := by
    have hinert : Inert ['$'] := ⟨rfl, nofun⟩
    have hclass : lexAll? false false 0 ('[' :: cs) [.lineStart] = some [.lineStart, .set negated s] := by
      rw [lexAll?_read, h]
      rfl
    exact lexAll?_append hinert 0 _ _ _ (Nat.zero_le _) hclass
  exact (Program.reads_of_lexAll? hlex rfl rfl rfl).trans rfl

/-- **A class and its complement.** -/
theorem opposite_class {b : Text} (h : ClassBody (b ++ [']'])) (hcaret : b.head? ≠ some '^')
    {P : Program}
    (hP : Program.ofSource? ('^' :: ('[' :: (b ++ [']']) ++ ['$'])) ⟨false, false, false⟩ = some P) :
    Opposite ⟨false, false, false⟩ ('[' :: (b ++ [']'])) ('[' :: '^' :: (b ++ [']'])) := by
  obtain ⟨ls, p, hreads, -⟩ := Program.ofSource?_eq_some_iff.1 hP
  have hlex : ∃ ms, lexAll? false false 0 ('[' :: (b ++ [']']) ++ ['$']) [.lineStart] = some ms := by
    have hlexed := hreads.lexed
    unfold lexemes? at hlexed
    cases hms : lexAll? false false 0 ('^' :: ('[' :: (b ++ [']']) ++ ['$'])) [] with
    | none => rw [hms] at hlexed; cases hlexed
    | some ms => exact ⟨ms, hms⟩
  obtain ⟨ms, hms⟩ := hlex
  have hend : Inert ['$'] := ⟨rfl, nofun⟩
  obtain ⟨s, hplain, hnegated⟩ := h.exists_members hcaret hend hms
  refine ⟨⟨_, Program.reads_of_lexAll? hplain rfl rfl rfl⟩,
    ⟨_, Program.reads_of_lexAll? hnegated rfl rfl rfl⟩, _, _, ofSource?_class_whole hplain,
    ofSource?_class_whole hnegated, fun c => ?_⟩
  rw [(Node.onePoint_atom _).isSome_search?_whole, (Node.onePoint_atom _).isSome_search?_whole,
    Node.isSome_run_atom, Node.isSome_run_atom]
  show (s.contains c.toNat != false) = !(s.contains c.toNat != true)
  cases s.contains c.toNat <;> rfl

namespace UnicodeProperty

variable {p : UnicodeProperty}

/-- The class of a point pattern is well-formed if the pattern is. -/
theorem Proper.onePoint_choice (h : p.Proper) (hdata : p.HasData) {P : Program}
    (hP : Program.ofSource? ("^(?:".toList ++ (p.choice ++ ")$".toList)) pointMode = some P) :
    OnePoint p.choice := by
  obtain ⟨ls, q, hreads, -⟩ := Program.ofSource?_eq_some_iff.1 hP
  have hlex : lexAll? true true 0 (p.choice ++ ")$".toList)
      [.opening (.plain [] []), .lineStart] = some ls := hreads.lexAll rfl
  have hend : Inert ")$".toList := ⟨rfl, nofun⟩
  revert hlex
  refine choice_cases (motive := fun t => lexAll? true true 0 (t ++ ")$".toList) _ = some ls →
    OnePoint t) hdata (fun b hb hlex => ?_) (fun a ha _ => h.onePoint a ha)
    (fun b a hb ha hlex => ?_) (fun b a hb ha hlex => ?_)
  · obtain ⟨s, hs, -⟩ := (h.classBody b hb).exists_members (h.caret b hb) hend hlex
    exact onePoint_class hs
  · have hnext : Inert ('|' :: (a ++ ")$".toList)) := ⟨rfl, nofun⟩
    rw [List.append_assoc, List.append_assoc] at hlex
    obtain ⟨s, hs, -⟩ := (h.classBody b hb).exists_members (h.caret b hb) hnext hlex
    exact OnePoint.class_or (h.classBody b hb).after hs (h.onePoint a ha)
  · obtain ⟨ms, r, hr, -⟩ := (h.onePoint a ha).exists_reads
    have hnext : Inert ('|' :: ('[' :: (b ++ [']']) ++ ")$".toList)) := ⟨rfl, nofun⟩
    rw [lexAll?_read, List.append_assoc, List.append_assoc] at hlex
    obtain ⟨ns, hns, -⟩ := Option.map_eq_some_iff.1 hlex
    have hcut := lexAll?_append hnext 0 a [] ms (Nat.zero_le _) (hr.lexAll rfl)
    obtain ⟨s, hs, -⟩ := (h.classBody b hb).exists_members (h.caret b hb) hend
      (hcut.symm.trans hns)
    exact OnePoint.or_class hs (h.onePoint a ha)

/-- **A point pattern and its negation.** -/
theorem Proper.opposite (h : p.Proper) (hdata : p.HasData) {P : Program}
    (hP : Program.ofSource? ('^' :: (p.pointPattern false ++ ['$'])) pointMode = some P) :
    Opposite pointMode (p.pointPattern false) (p.pointPattern true) := by
  have hwhole (t : Text) : '^' :: ("(?:".toList ++ (t ++ ")".toList) ++ ['$']) =
      "^(?:".toList ++ (t ++ ")$".toList) := by simp
  rw [pointPattern_false, hwhole] at hP
  obtain ⟨ls, q, hreads, hone⟩ := (h.onePoint_choice hdata hP).exists_reads
  obtain ⟨ms, r, hother, hbody⟩ := hreads.exists_other
  rw [pointPattern_false, pointPattern_true]
  refine ⟨⟨_, hreads.ofSource?_group⟩, ⟨_, hother.ofSource?_group⟩,
    ⟨q.body.whole, (captureNames ls).length⟩, ⟨r.body.whole, (captureNames ms).length⟩, ?_, ?_,
    fun c => ?_⟩
  · rw [hwhole]
    exact hreads.ofSource?_whole
  · rw [hwhole]
    exact hother.ofSource?_whole
  · rw [hbody, hone.isSome_search?_whole, (Node.onePoint_other _ _).isSome_search?_whole,
      Node.isSome_run_other, Bool.not_not]

end UnicodeProperty

end ExtensibleRegex
