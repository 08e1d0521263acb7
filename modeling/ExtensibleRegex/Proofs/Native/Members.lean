import ExtensibleRegex.Proofs.Native.Classes
import ExtensibleRegex.Proofs.Native.Equivalence
import ExtensibleRegex.Expansion.Verbatim
import Mathlib.Tactic

/-!
# Members that stand twice in a class

In a class the four characters of an empty group are members like others. To write them twice in a row
makes no difference there (`meaning_emptyGroup_inClass`), though the first of them may end a range and the
last may begin one: of the two it is then the outer ones that do.

* What stands in a class before a landmark is read by itself (`classAtoms?_within`), so the four members
  are read as such, also when the first one is escaped.
* A range takes in the member that it ends or begins with, so the sets that are put together have the
  same members (`assembleClass_twice`).
* Classes with the same members are read alike (`Interchange.members`).
-/

namespace ExtensibleRegex.Native

variable {strict named : Bool}

/-! ## 1. Places in a class -/

/-- A place in a class has its bracket before it, and a part of the class in between, with a backslash
behind that if the place is escaped. -/
theorem exists_within (x : Text) (h : (Spot.outside.after x).inClass = true) : ∃ y w,
    Spot.outside.after y = .outside ∧ Within w ∧
      x = y ++ '[' :: (w ++ if (Spot.outside.after x).escaped = true then ['\\'] else []) := by
  induction x using List.reverseRecOn with
  | nil => cases h
  | append_singleton x c ih =>
    rw [Spot.after_append] at h ⊢
    generalize hs : Spot.outside.after x = s at h ih ⊢
    obtain ⟨inClass, escaped⟩ := s
    change (Spot.next ⟨inClass, escaped⟩ c).inClass = true at h
    show ∃ y w, _ ∧ _ ∧
      x ++ [c] = y ++ '[' :: (w ++ if (Spot.next ⟨inClass, escaped⟩ c).escaped = true then _ else _)
    cases inClass with
    | false =>
      cases escaped with
      | true => cases h
      | false =>
        -- the class begins here
        by_cases hback : c = '\\'
        · subst hback
          cases h
        · simp only [Spot.next, hback, Bool.false_eq_true, if_false, beq_iff_eq] at h
          subst h
          exact ⟨x, [], hs, .nil, rfl⟩
    | true =>
      obtain ⟨y, w, hy, hw, heq⟩ := ih rfl
      cases escaped with
      | true =>
        refine ⟨y, w ++ ['\\', c], hy, hw.append (.escape c .nil), ?_⟩
        rw [heq]
        simp [Spot.next]
      | false =>
        by_cases hback : c = '\\'
        · subst hback
          refine ⟨y, w, hy, hw, ?_⟩
          rw [heq]
          simp [Spot.next]
        · have hclose : c ≠ ']' := by
            rintro rfl
            cases h
          refine ⟨y, w ++ [c], hy, hw.append (.other hclose hback .nil), ?_⟩
          rw [heq]
          simp [Spot.next, hback]

/-! ## 2. The atoms of a class in parts -/

theorem classAtoms?_read : ∀ (skip : Nat) (cs : Text) (taken : Nat) (atoms : List ClassAtom),
    classAtoms? strict named skip cs taken atoms =
      (classAtoms? strict named skip cs taken []).map fun r => (atoms.reverse ++ r.1, r.2)
  | _, [], _, _ => by simp [classAtoms?]
  | skip + 1, _ :: cs, taken, atoms => by
      simp only [classAtoms?]
      exact classAtoms?_read skip cs (taken + 1) atoms
  | 0, c :: cs, taken, atoms => by
      have hmore (skip : Nat) (a : ClassAtom) :
          classAtoms? strict named skip cs (taken + 1) (a :: atoms) =
            (classAtoms? strict named skip cs (taken + 1) [a]).map
              fun r => (atoms.reverse ++ r.1, r.2) := by
        rw [classAtoms?_read skip cs (taken + 1) (a :: atoms),
          classAtoms?_read skip cs (taken + 1) [a], Option.map_map]
        simp [Function.comp_def]
      simp only [classAtoms?]
      split_ifs
      · simp
      · cases classEscape? strict named cs with
        | none => rfl
        | some r => exact hmore r.2 r.1
      · exact hmore 0 _
      · exact hmore 0 _

/-- An escape in a class is read without the landmark behind the part that it stands in. -/
theorem classEscape?_within {w T : Text} (h : Within ('\\' :: w)) (hT : Inert T)
    (hmark : isLandmark T = true) :
    classEscape? strict named (w ++ T) = classEscape? strict named w := by
  cases hr : classEscape? strict named (w ++ T) with
  | some r =>
    obtain ⟨v, hv, -⟩ := h.drop_classEscape (stops_of_isLandmark hmark) hr
    have hpos : 0 < T.length := by
      cases T with
      | nil => cases hmark
      | cons => exact Nat.succ_pos _
    have hlengths := congrArg List.length hv
    rw [List.length_drop, List.length_append, List.length_append] at hlengths
    rw [classEscape?_of_append hT hr (by omega)]
  | none =>
    cases hw : classEscape? strict named w with
    | none => rfl
    | some r => rw [(classEscape?_append hT hw).1] at hr; cases hr

/-- It leaves a part of the class. -/
theorem within_drop_classEscape {w : Text} (h : Within ('\\' :: w)) {r : ClassAtom × Nat}
    (hr : classEscape? strict named w = some r) : r.2 ≤ w.length ∧ Within (w.drop r.2) := by
  have hnothing : Stops ([] : Text) := trivial
  have hr' : classEscape? strict named (w ++ []) = some r := by
    rw [List.append_nil]
    exact hr
  obtain ⟨v, hv, hwithin⟩ := h.drop_classEscape hnothing hr'
  rw [List.append_nil, List.append_nil] at hv
  exact ⟨(classEscape?_append (T := []) trivial hr).2, hv ▸ hwithin⟩

/-- **A part of a class before a landmark is read by itself.** -/
theorem classAtoms?_within : ∀ (limit : Nat) (w : Text) (taken : Nat) (atoms : List ClassAtom),
    w.length ≤ limit → Within w → ∃ found : Option (List ClassAtom),
      ∀ T, Inert T → isLandmark T = true → classAtoms? strict named 0 (w ++ T) taken atoms =
        found.bind fun as => classAtoms? strict named 0 T (taken + w.length) as
  | _, [], taken, atoms, _, _ => ⟨some atoms, fun T _ _ => rfl⟩
  | 0, _ :: _, _, _, hlimit, _ => absurd hlimit (Nat.not_succ_le_zero _)
  | limit + 1, c :: w, taken, atoms, hlimit, h => by
      have hlength : w.length ≤ limit := Nat.le_of_succ_le_succ hlimit
      by_cases hback : c = '\\'
      · subst hback
        cases hr : classEscape? strict named w with
        | none =>
          refine ⟨none, fun T hT hmark => ?_⟩
          simp only [List.cons_append, classAtoms?, classEscape?_within h hT hmark, hr]
          rfl
        | some r =>
          obtain ⟨hle, hwithin⟩ := within_drop_classEscape h hr
          have htaken : taken + 1 + r.2 + (w.drop r.2).length = taken + ('\\' :: w).length := by
            rw [List.length_drop, List.length_cons]
            omega
          obtain ⟨found, hfound⟩ := classAtoms?_within limit (w.drop r.2) (taken + 1 + r.2)
            (r.1 :: atoms) (by rw [List.length_drop]; omega) hwithin
          rw [htaken] at hfound
          refine ⟨found, fun T hT hmark => ?_⟩
          simp only [List.cons_append, classAtoms?, classEscape?_within h hT hmark, hr]
          rw [classAtoms?_skip, List.drop_append_of_le_length hle]
          exact hfound T hT hmark
      · obtain ⟨hclose, hrest⟩ := h.of_cons hback
        have hnext (a : ClassAtom) := classAtoms?_within limit w (taken + 1) (a :: atoms) hlength hrest
        have htaken : taken + 1 + w.length = taken + (c :: w).length := by
          rw [List.length_cons]
          omega
        rw [htaken] at hnext
        by_cases hdash : c = '-'
        · obtain ⟨found, hfound⟩ := hnext .hyphen
          refine ⟨found, fun T hT hmark => ?_⟩
          rw [← hfound T hT hmark]
          simp only [List.cons_append, classAtoms?, if_neg hclose, if_neg hback, if_pos hdash]
        · obtain ⟨found, hfound⟩ := hnext (.point c.toNat)
          refine ⟨found, fun T hT hmark => ?_⟩
          rw [← hfound T hT hmark]
          simp only [List.cons_append, classAtoms?, if_neg hclose, if_neg hback, if_neg hdash]

/-- The members that an empty group stands for in a class: the code points 40, 63, 58 and 41. -/
def groupAtoms : List ClassAtom := emptyGroup.map fun c => .point c.toNat

/-- The members behind the first one. -/
def laterAtoms : List ClassAtom := groupAtoms.tail

/-- A backslash in front of the four members, or none. -/
def slash (escaped : Bool) : Text := if escaped = true then ['\\'] else []

theorem inert_slash_append (escaped : Bool) (y : Text) :
    Inert (slash escaped ++ (emptyGroup ++ y)) ∧
      isLandmark (slash escaped ++ (emptyGroup ++ y)) = true := by
  cases escaped with
  | false => exact ⟨⟨by decide, fun h => absurd h (by decide)⟩, rfl⟩
  | true => exact ⟨⟨by decide, fun _ => by simp [emptyGroup]⟩, rfl⟩

/-- The four members are read as such, and what stands behind them by itself. -/
theorem classAtoms?_emptyGroup (escaped : Bool) (y : Text) (taken : Nat) (atoms : List ClassAtom) :
    classAtoms? strict named 0 (slash escaped ++ (emptyGroup ++ y)) taken atoms =
      (classAtoms? strict named 0 y 0 []).map fun r => (atoms.reverse ++ (groupAtoms ++ r.1),
        r.2 + (taken + (slash escaped ++ emptyGroup).length)) := by
  have hread : classAtoms? strict named 0 (slash escaped ++ (emptyGroup ++ y)) taken atoms =
      classAtoms? strict named 0 y (0 + (taken + (slash escaped ++ emptyGroup).length))
        (groupAtoms.reverse ++ atoms) := by
    rw [Nat.zero_add]
    cases escaped with
    | false => rfl
    | true =>
      have hparen : classEscape? strict named ('(' :: '?' :: ':' :: ')' :: y) = some (.point 40, 1) := by
        cases strict <;> rfl
      show classAtoms? strict named 0 ('\\' :: '(' :: '?' :: ':' :: ')' :: y) taken atoms = _
      simp only [classAtoms?, hparen]
      rfl
  rw [hread, classAtoms?_read, ClassBody.classAtoms?_taken, Option.map_map]
  simp [Function.comp_def]

/-! ## 3. The sets of a class -/

/-- Sets that hold the same code points between them. -/
def SameMembers (as bs : List CodeSet) : Prop := ∀ n, as.any (·.contains n) = bs.any (·.contains n)

theorem SameMembers.append_left {as bs : List CodeSet} (h : SameMembers as bs) (before : List CodeSet) :
    SameMembers (before ++ as) (before ++ bs) := fun n => by
  rw [List.any_append, List.any_append, h n]

/-- What two atoms with a hyphen between them stand for. -/
def rangeSets? (strict : Bool) (a b : ClassAtom) : Option (List CodeSet) :=
  match a.point?, b.point? with
  | some lo, some hi => if lo ≤ hi then some [.ranges [(lo, hi)]] else none
  | _, _ => if strict then none else some [a.members, .single 45, b.members]

theorem assembleClass_range (a b : ClassAtom) (rest : List ClassAtom) :
    assembleClass strict (a :: .hyphen :: b :: rest) =
      (rangeSets? strict a b).bind fun sets => (assembleClass strict rest).map (sets ++ ·) := by
  simp only [assembleClass, rangeSets?]
  cases a.point? with
  | none => cases strict <;> rfl
  | some lo =>
    cases b.point? with
    | none => cases strict <;> rfl
    | some hi =>
      by_cases hle : lo ≤ hi
      · simp only [if_pos hle]
        rfl
      · simp only [if_neg hle]
        rfl

/-- A range takes in the code points that it begins and ends with. -/
theorem contains_of_rangeSets? {a b : ClassAtom} {sets : List CodeSet}
    (h : rangeSets? strict a b = some sets) {n : Nat} (hn : a = .point n ∨ b = .point n) :
    sets.any (·.contains n) = true := by
  unfold rangeSets? at h
  split at h
  · rename_i lo hi hlo hhi
    split at h
    · rename_i hle
      cases h
      have hbounds : lo ≤ n ∧ n ≤ hi := by
        rcases hn with rfl | rfl
        · obtain rfl : n = lo := Option.some.inj hlo
          exact ⟨Nat.le_refl _, hle⟩
        · obtain rfl : n = hi := Option.some.inj hhi
          exact ⟨hle, Nat.le_refl _⟩
      simpa [inRanges] using hbounds
    · cases h
  · split at h
    · cases h
    · cases h
      have hpoint : (ClassAtom.point n).members.contains n = true := by
        rw [ClassAtom.members, CodeSet.contains_single, beq_self_eq_true]
      rcases hn with rfl | rfl
      · rw [List.any_cons, hpoint, Bool.true_or]
      · rw [List.any_cons, List.any_cons, List.any_cons, hpoint, Bool.true_or, Bool.or_true, Bool.or_true]

/-- The sets of a class hold the code point that it begins with. -/
theorem contains_of_assembleClass {n : Nat} {rest : List ClassAtom} {sets : List CodeSet}
    (h : assembleClass strict (.point n :: rest) = some sets) : sets.any (·.contains n) = true := by
  have hfront {front : List CodeSet} {found : Option (List CodeSet)}
      (hfront : front.any (·.contains n) = true) (hsets : found.map (front ++ ·) = some sets) :
      sets.any (·.contains n) = true := by
    obtain ⟨more, -, rfl⟩ := Option.map_eq_some_iff.1 hsets
    rw [List.any_append, hfront, Bool.true_or]
  have hsingle : [CodeSet.single n].any (·.contains n) = true := by simp [CodeSet.contains_single]
  match rest with
  | .hyphen :: b :: rest =>
    rw [assembleClass_range] at h
    obtain ⟨range, hrange, hsets⟩ := Option.bind_eq_some_iff.1 h
    exact hfront (contains_of_rangeSets? hrange (.inl rfl)) hsets
  | [.hyphen] =>
    have hhyphen : (some [CodeSet.single 45]).map ([CodeSet.single n] ++ ·) = some sets := h
    exact hfront hsingle hhyphen
  | [] => exact hfront hsingle h
  | .point m :: rest => exact hfront hsingle h
  | .set members :: rest => exact hfront hsingle h

theorem groupAtoms_append (Y : List ClassAtom) :
    groupAtoms ++ Y = .point 40 :: (laterAtoms ++ Y) := rfl

theorem head?_groupAtoms_append (Y : List ClassAtom) : (groupAtoms ++ Y).head? ≠ some .hyphen := by
  simp [groupAtoms, emptyGroup]

theorem head?_laterAtoms_append (Y : List ClassAtom) : (laterAtoms ++ Y).head? ≠ some .hyphen := by
  simp [laterAtoms, groupAtoms, emptyGroup]

/-- What is put together behind the first of the four members. -/
theorem assembleClass_behindFirst (Y : List ClassAtom) :
    assembleClass strict (laterAtoms ++ Y) =
      (assembleClass strict (.point 41 :: Y)).map ([CodeSet.single 63, CodeSet.single 58] ++ ·) := by
  show assembleClass strict (.point 63 :: .point 58 :: .point 41 :: Y) = _
  rw [assembleClass_cons (by simp), assembleClass_cons (by simp), Option.map_map]
  rfl

theorem assembleClass_groupAtoms (Y : List ClassAtom) : assembleClass strict (groupAtoms ++ Y) =
    (assembleClass strict (.point 41 :: Y)).map
      ([CodeSet.single 40, CodeSet.single 63, CodeSet.single 58] ++ ·) := by
  rw [groupAtoms_append, assembleClass_cons (head?_laterAtoms_append _), assembleClass_behindFirst,
    Option.map_map]
  rfl

/-- The four members once more, in front of the last of the first four. -/
theorem assembleClass_last_groupAtoms (Y : List ClassAtom) :
    assembleClass strict (.point 41 :: (groupAtoms ++ Y)) = (assembleClass strict (.point 41 :: Y)).map
      ([CodeSet.single 41, CodeSet.single 40, CodeSet.single 63, CodeSet.single 58] ++ ·) := by
  rw [assembleClass_cons (head?_groupAtoms_append _), assembleClass_groupAtoms, Option.map_map]
  rfl

/-- Of what is put together of four members that stand twice, the inner ones are held anyway. -/
theorem sameMembers_twice {front sets : List CodeSet} (hfirst : front.any (·.contains 40) = true)
    (hlast : sets.any (·.contains 41) = true) :
    SameMembers (front ++ ([CodeSet.single 63, CodeSet.single 58] ++ sets))
      (front ++ ([CodeSet.single 63, CodeSet.single 58] ++ ([CodeSet.single 41, CodeSet.single 40,
        CodeSet.single 63, CodeSet.single 58] ++ sets))) := fun n => by
  simp only [List.any_append, List.any_cons, List.any_nil, CodeSet.contains_single, Bool.or_false]
  by_cases h40 : n = 40
  · subst h40
    rw [hfirst, Bool.true_or, Bool.true_or]
  by_cases h41 : n = 41
  · subst h41
    rw [hlast]
    simp
  simp only [beq_eq_false_iff_ne.2 h40, beq_eq_false_iff_ne.2 h41, Bool.false_or]
  cases front.any (·.contains n) <;> cases (n == 63) <;> cases (n == 58) <;> rfl

/-- Behind sets that hold the first of the four members the others add nothing when they stand again. -/
theorem assembleClass_behindFirst_twice {front : List CodeSet} (h : front.any (·.contains 40) = true)
    (Y : List ClassAtom) : Option.Rel SameMembers
      ((assembleClass strict (laterAtoms ++ Y)).map (front ++ ·))
      ((assembleClass strict (laterAtoms ++ (groupAtoms ++ Y))).map
        (front ++ ·)) := by
  rw [assembleClass_behindFirst, assembleClass_behindFirst, assembleClass_last_groupAtoms]
  cases hlast : assembleClass strict (.point 41 :: Y) with
  | none => exact .none
  | some sets => exact .some (sameMembers_twice h (contains_of_assembleClass hlast))

theorem SameMembers.rel_append_left (front : List CodeSet) {x y : Option (List CodeSet)}
    (h : Option.Rel SameMembers x y) :
    Option.Rel SameMembers (x.map (front ++ ·)) (y.map (front ++ ·)) := by
  cases h with
  | none => exact .none
  | some h => exact .some (h.append_left front)

/-- **To write the four members twice in a row adds none.** -/
theorem assembleClass_twice (Y : List ClassAtom) : ∀ A : List ClassAtom, Option.Rel SameMembers
    (assembleClass strict (A ++ (groupAtoms ++ Y)))
    (assembleClass strict (A ++ (groupAtoms ++ (groupAtoms ++ Y))))
  | [] => by
      rw [List.nil_append, List.nil_append, groupAtoms_append (groupAtoms ++ Y), groupAtoms_append Y,
        assembleClass_cons (head?_laterAtoms_append _), assembleClass_cons (head?_laterAtoms_append _)]
      exact assembleClass_behindFirst_twice rfl Y
  | [a] => by
      rw [List.singleton_append, List.singleton_append, assembleClass_cons (head?_groupAtoms_append _),
        assembleClass_cons (head?_groupAtoms_append _)]
      exact SameMembers.rel_append_left _ (assembleClass_twice Y [])
  | [a, .hyphen] => by
      -- the first of the four members ends a range
      rw [List.cons_append, List.singleton_append, List.cons_append, List.singleton_append,
        groupAtoms_append (groupAtoms ++ Y), groupAtoms_append Y, assembleClass_range, assembleClass_range]
      cases hrange : rangeSets? strict a (.point 40) with
      | none => exact .none
      | some front => exact assembleClass_behindFirst_twice (contains_of_rangeSets? hrange (.inr rfl)) Y
  | a :: .hyphen :: b :: A => by
      simp only [List.cons_append, assembleClass_range]
      cases rangeSets? strict a b with
      | none => exact .none
      | some front => exact SameMembers.rel_append_left front (assembleClass_twice Y A)
  | a :: .point n :: A => by
      have hfree (l : List ClassAtom) : (ClassAtom.point n :: l).head? ≠ some .hyphen := by simp
      rw [List.cons_append, List.cons_append, List.cons_append, List.cons_append,
        assembleClass_cons (hfree _), assembleClass_cons (hfree _)]
      exact SameMembers.rel_append_left _ (assembleClass_twice Y (.point n :: A))
  | a :: .set members :: A => by
      have hfree (l : List ClassAtom) : (ClassAtom.set members :: l).head? ≠ some .hyphen := by simp
      rw [List.cons_append, List.cons_append, List.cons_append, List.cons_append,
        assembleClass_cons (hfree _), assembleClass_cons (hfree _)]
      exact SameMembers.rel_append_left _ (assembleClass_twice Y (.set members :: A))

/-! ## 4. Classes with the same members -/

theorem run_set {s s' : CodeSet} (h : s.contains = s'.contains) (negated ic : Bool) :
    (Node.atom (.set negated s ic)).run = (Node.atom (.set negated s' ic)).run := by
  have hadmits : (Atom.set negated s ic).admits = (Atom.set negated s' ic).admits := by
    funext c
    cases ic <;> simp only [Atom.admits, h]
  funext d k t
  simp only [Node.run, Atom.step, hadmits]

/-- Classes with the same members. -/
theorem Interchange.members {s s' : CodeSet} (h : s.contains = s'.contains) (negated : Bool)
    (ls : List Lexeme) : Interchange (.set negated s :: ls) (.set negated s' :: ls) where
  names := rfl
  read g p := by
    have hpush := (Progress.Equiv.refl p).push (run_set h negated p.modes.ignoreCase) true
    exact hpush.1.readAll? g ls fun _ => hpush.2

/-! ## 5. Empty groups in a class -/

/-- The atoms of a class that holds the four members, and of one that holds them twice in a row. -/
theorem classAtoms?_twice {w : Text} (h : Within w) (escaped : Bool) (taken : Nat) (y : Text) :
    Option.Rel (fun r r' => ∃ A Y n, r = (A ++ (groupAtoms ++ Y), n + taken + w.length) ∧
        r' = (A ++ (groupAtoms ++ (groupAtoms ++ Y)), n + 4 + taken + w.length) ∧
        (slash escaped ++ emptyGroup).length ≤ n)
      (classAtoms? strict named 0 (w ++ (slash escaped ++ (emptyGroup ++ y))) taken [])
      (classAtoms? strict named 0 (w ++ (slash escaped ++ (emptyGroup ++ (emptyGroup ++ y)))) taken
        []) := by
  obtain ⟨found, hfound⟩ := classAtoms?_within w.length w taken [] (Nat.le_refl _) h
  have hmark := inert_slash_append escaped
  rw [hfound _ (hmark y).1 (hmark y).2, hfound _ (hmark _).1 (hmark _).2]
  cases found with
  | none => exact .none
  | some A =>
    have hagain : classAtoms? strict named 0 (emptyGroup ++ y) 0 [] =
        (classAtoms? strict named 0 y 0 []).map fun r => (groupAtoms ++ r.1, r.2 + 4) := by
      have hplain := @classAtoms?_emptyGroup strict named false y 0 []
      exact hplain.trans rfl
    rw [Option.bind_some, Option.bind_some, classAtoms?_emptyGroup, classAtoms?_emptyGroup, hagain]
    cases classAtoms? strict named 0 y 0 [] with
    | none => exact .none
    | some r =>
      refine .some ⟨A.reverse, r.1, r.2 + (slash escaped ++ emptyGroup).length, ?_, ?_,
        Nat.le_add_left _ _⟩
      · refine Prod.ext rfl ?_
        simp only
        omega
      · refine Prod.ext rfl ?_
        simp only
        omega

/-- A class is read with its caret, if it has one. -/
theorem class?_within {w : Text} (h : Within w) (escaped : Bool) : ∃ negated v taken, Within v ∧
    taken + v.length = w.length ∧ ∀ y, class? strict named (w ++ (slash escaped ++ (emptyGroup ++ y))) =
      (classAtoms? strict named 0 (v ++ (slash escaped ++ (emptyGroup ++ y))) taken []).bind fun a =>
        (assembleClass strict a.1).map fun sets => (.set negated (.unionOf sets), a.2) := by
  by_cases hcaret : w.head? = some '^'
  · obtain ⟨v, rfl⟩ := List.head?_eq_some_iff.1 hcaret
    refine ⟨true, v, 1, (h.of_cons (by decide)).2, Nat.add_comm _ _, fun y => ?_⟩
    simp only [class?, List.cons_append, List.head?_cons, beq_self_eq_true, if_true,
      List.drop_succ_cons, List.drop_zero]
    cases classAtoms? strict named 0 (v ++ (slash escaped ++ (emptyGroup ++ y))) 1 [] <;> rfl
  · refine ⟨false, w, 0, h, Nat.zero_add _, fun y => ?_⟩
    have hhead : (w ++ (slash escaped ++ (emptyGroup ++ y))).head? ≠ some '^' := by
      cases w with
      | cons c w => exact hcaret
      | nil => cases escaped <;> simp [slash, emptyGroup]
    simp only [class?, beq_eq_false_iff_ne.2 hhead, Bool.false_eq_true, if_false]
    cases classAtoms? strict named 0 (w ++ (slash escaped ++ (emptyGroup ++ y))) 0 [] <;> rfl

/-- A class that holds the four members, and one that holds them twice in a row. -/
theorem class?_twice {w : Text} (h : Within w) (escaped : Bool) (y : Text) :
    Option.Rel (fun r r' => ∃ negated s s' n, s.contains = s'.contains ∧
        r = (.set negated s, n) ∧ r' = (.set negated s', n + 4) ∧
        (w ++ (slash escaped ++ emptyGroup)).length ≤ n)
      (class? strict named (w ++ (slash escaped ++ (emptyGroup ++ y))))
      (class? strict named (w ++ (slash escaped ++ (emptyGroup ++ (emptyGroup ++ y))))) := by
  obtain ⟨negated, v, taken, hv, hlength, hclass⟩ := @class?_within strict named w h escaped
  rw [hclass, hclass]
  have htwice := @classAtoms?_twice strict named v hv escaped taken y
  generalize classAtoms? strict named 0 (v ++ (slash escaped ++ (emptyGroup ++ y))) taken [] = r at htwice
  generalize classAtoms? strict named 0 (v ++ (slash escaped ++ (emptyGroup ++ (emptyGroup ++ y))))
    taken [] = r' at htwice
  cases htwice with
  | none => exact .none
  | some hatoms =>
    obtain ⟨A, Y, n, rfl, rfl, hle⟩ := hatoms
    simp only [Option.bind_some]
    have hsets := @assembleClass_twice strict Y A
    generalize assembleClass strict (A ++ (groupAtoms ++ Y)) = sets at hsets
    generalize assembleClass strict (A ++ (groupAtoms ++ (groupAtoms ++ Y))) = sets' at hsets
    cases hsets with
    | none => exact .none
    | @some sets sets' hmembers =>
      refine .some ⟨negated, .unionOf sets, .unionOf sets', n + taken + v.length, ?_, rfl, ?_, ?_⟩
      · funext m
        rw [CodeSet.contains_unionOf, CodeSet.contains_unionOf]
        exact hmembers m
      · refine Prod.ext rfl ?_
        simp only
        omega
      · rw [List.length_append]
        omega

/-- **In a class an empty group behind another one makes no difference.** -/
theorem meaning_emptyGroup_inClass {mode : Mode} {x : Text} (hx : (Spot.outside.after x).inClass = true)
    (y : Text) : meaning mode (x ++ (emptyGroup ++ y)) =
      meaning mode (x ++ (emptyGroup ++ (emptyGroup ++ y))) := by
  obtain ⟨front, w, hfront, hw, heq⟩ := exists_within x hx
  generalize (Spot.outside.after x).escaped = escaped at heq
  have hparts (t : Text) : x ++ t = front ++ ('[' :: (w ++ (slash escaped ++ t))) := by
    rw [heq]
    simp [slash]
  rw [hparts, hparts]
  refine meaning_exchange hfront (inert_bracket _) (inert_bracket _) fun named => ?_
  have hclass := @class?_twice mode.unicode named w hw escaped y
  have hlexAll (cs : Text) : lexAll? mode.unicode named 0 ('[' :: cs) [] =
      (class? mode.unicode named cs).bind fun r =>
        (lexAll? mode.unicode named 0 (cs.drop r.2) []).map (r.1 :: ·) := by
    have hlexeme : lexeme? mode.unicode named '[' cs = class? mode.unicode named cs := rfl
    simp only [lexAll?, hlexeme]
    cases class? mode.unicode named cs with
    | none => rfl
    | some r =>
      simp only [Option.bind_some]
      rw [lexAll?_skip, lexAll?_read]
      rfl
  rw [hlexAll, hlexAll]
  have hbehind (t : Text) (n : Nat) : (w ++ (slash escaped ++ (emptyGroup ++ t))).drop
      ((w ++ (slash escaped ++ emptyGroup)).length + n) = t.drop n := by
    rw [show w ++ (slash escaped ++ (emptyGroup ++ t)) = (w ++ (slash escaped ++ emptyGroup)) ++ t by simp,
      ← List.drop_drop, List.drop_left]
  generalize class? mode.unicode named (w ++ (slash escaped ++ (emptyGroup ++ y))) = r at hclass
  generalize class? mode.unicode named (w ++ (slash escaped ++ (emptyGroup ++ (emptyGroup ++ y)))) = r'
    at hclass
  cases hclass with
  | none => exact .none
  | some hset =>
    obtain ⟨negated, s, s', n, hmembers, rfl, rfl, hle⟩ := hset
    obtain ⟨m, rfl⟩ := Nat.exists_eq_add_of_le hle
    have hsame : (emptyGroup ++ y).drop (m + 4) = y.drop m := by
      rw [Nat.add_comm, ← List.drop_drop]
      rfl
    simp only [Option.bind_some]
    rw [hbehind, Nat.add_assoc, hbehind, hsame]
    cases lexAll? mode.unicode named 0 (y.drop m) [] with
    | none => exact .none
    | some ls => exact .some (.members hmembers negated ls)

end ExtensibleRegex.Native
