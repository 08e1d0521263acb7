import ExtensibleRegex.Proofs.Native.Extension
import ExtensibleRegex.Proofs.Native.Fragments
import Mathlib.Tactic

/-!
# Landmarks

A pattern can be read in several ways: the engine cuts it into lexemes, a dialect into the pieces
that its tokens see, and other functions only look for parentheses. They cut at different places.
This file says where all of them cut.

* A `Spot` says whether a place is in a class and whether it is escaped; `Spot.after` goes through a
  text, so that a text can be gone through in parts.
* Outside of classes and escapes some characters are a `Landmark`: a parenthesis, a bar, the bracket
  of a class, a backslash but that of `\u`.
* A function that `Scans` a text notices landmarks only. Such a function passes over every lexeme
  after its first character (`Scans.lexeme?`), so a lexeme holds no landmark but at its start. For
  the parts of a lexeme it is enough that the function `Passes` over what is plain or escaped.
* So the text before a landmark can be cut by itself (`lexAll?_split`).
-/

namespace ExtensibleRegex.Native

/-! ## 1. Spots -/

/-- Where a character of a pattern stands: in a class or not, after a backslash or not. -/
structure Spot where
  inClass : Bool
  escaped : Bool
  deriving DecidableEq, Repr

namespace Spot

/-- Outside of classes and escapes. -/
abbrev outside : Spot := ⟨false, false⟩

/-- In a class. -/
abbrev inside : Spot := ⟨true, false⟩

/-- The spot after a character. -/
def next (s : Spot) (c : Char) : Spot :=
  if s.escaped then ⟨s.inClass, false⟩
  else if c = '\\' then ⟨s.inClass, true⟩
  else if s.inClass then ⟨c != ']', false⟩
  else ⟨c == '[', false⟩

/-- The spot after a text. -/
def after (s : Spot) (t : Text) : Spot := t.foldl next s

@[simp] theorem after_nil (s : Spot) : s.after [] = s := rfl

@[simp] theorem after_cons (s : Spot) (c : Char) (t : Text) : s.after (c :: t) = (s.next c).after t :=
  rfl

@[simp] theorem after_append (s : Spot) (t u : Text) : s.after (t ++ u) = (s.after t).after u :=
  List.foldl_append

/-- A text leaves an escape open just if it ends in an odd number of backslashes. -/
theorem escaped_after (b : Bool) (t : Text) : (after ⟨b, false⟩ t).escaped =
    decide ((t.reverse.takeWhile (· == '\\')).length % 2 = 1) := by
  induction t using List.reverseRecOn with
  | nil => rfl
  | append_singleton t c ih =>
    rw [Spot.after_append, List.reverse_append]
    show ((after ⟨b, false⟩ t).next c).escaped =
      decide (((c :: t.reverse).takeWhile (· == '\\')).length % 2 = 1)
    rw [List.takeWhile_cons]
    generalize (after ⟨b, false⟩ t) = s at ih
    by_cases hc : c = '\\'
    · subst hc
      have hnext : (s.next '\\').escaped = !s.escaped := by
        unfold Spot.next
        split
        · rename_i hs
          rw [hs]
          rfl
        · rename_i hs
          rw [if_pos rfl, Bool.eq_false_iff.2 hs]
          rfl
      rw [hnext, ih, if_pos (by simp), List.length_cons]
      rcases Nat.mod_two_eq_zero_or_one (t.reverse.takeWhile (· == '\\')).length with hl | hl <;>
        simp [hl, Nat.add_mod]
    · have hnext : (s.next c).escaped = false := by
        unfold Spot.next
        split
        · rfl
        · split <;> rfl
      rw [hnext, if_neg (by simpa using hc)]
      rfl

end Spot

/-- A property of a spot and of the text there holds at every place of a text. -/
def Everywhere (Q : Spot → Text → Prop) : Spot → Text → Prop
  | s, [] => Q s []
  | s, c :: t => Q s (c :: t) ∧ Everywhere Q (s.next c) t

theorem Everywhere.at {Q : Spot → Text → Prop} {u : Text} : ∀ (t : Text) {s : Spot},
    Everywhere Q s (t ++ u) → Q (s.after t) u
  | [], s, h => by
      cases u with
      | nil => exact h
      | cons c u => exact h.1
  | _ :: t, _, h => Everywhere.at t h.2

/-- What holds everywhere in a text holds everywhere in what is left of it. -/
theorem Everywhere.of_append {Q : Spot → Text → Prop} {u : Text} : ∀ (t : Text) {s : Spot},
    Everywhere Q s (t ++ u) → Everywhere Q (s.after t) u
  | [], _, h => h
  | _ :: t, _, h => Everywhere.of_append t h.2

instance decidableEverywhere (Q : Spot → Text → Prop) [∀ s t, Decidable (Q s t)] :
    ∀ s t, Decidable (Everywhere Q s t)
  | s, [] => inferInstanceAs (Decidable (Q s []))
  | s, c :: t =>
    have := decidableEverywhere Q (s.next c) t
    inferInstanceAs (Decidable (Q s (c :: t) ∧ Everywhere Q (s.next c) t))

/-! ## 2. Landmarks -/

/-- A text that begins with what is noticed outside of classes and escapes. -/
def isLandmark : Text → Bool
  | [] => false
  | '\\' :: t => t.head? != some 'u'
  | c :: _ => c == '(' || c == ')' || c == '|' || c == '['

/-- The landmarks of a text, each with the text after it. -/
def landmarks : Spot → Text → List Text
  | _, [] => []
  | s, c :: t =>
    (if s = .outside ∧ isLandmark (c :: t) = true then [c :: t] else []) ++ landmarks (s.next c) t

/-- A function of a text that notices landmarks only. -/
def Scans {α : Type} (F : Spot → Text → α) : Prop :=
  ∀ s c t, ¬(s = .outside ∧ isLandmark (c :: t) = true) → F s (c :: t) = F (s.next c) t

theorem landmarks_cons (s : Spot) (c : Char) (t : Text) : landmarks s (c :: t) =
    (if s = .outside ∧ isLandmark (c :: t) = true then [c :: t] else []) ++ landmarks (s.next c) t :=
  rfl

theorem scans_landmarks : Scans landmarks := fun s c t h => by
  rw [landmarks_cons, if_neg h, List.nil_append]

theorem scans_after : Scans Spot.after := fun _ _ _ _ => rfl

/-! ## 3. Plain characters -/

/-- A character that neither opens nor closes anything, nor parts anything, nor escapes. -/
def isQuiet (c : Char) : Bool :=
  c != '\\' && c != '[' && c != ']' && c != '(' && c != ')' && c != '|'

theorem isQuiet_iff {c : Char} : isQuiet c = true ↔
    c ≠ '\\' ∧ c ≠ '[' ∧ c ≠ ']' ∧ c ≠ '(' ∧ c ≠ ')' ∧ c ≠ '|' := by
  simp [isQuiet, and_assoc]

/-- Characters with a property that no bracket, bar or backslash has are plain. -/
theorem isQuiet_of {q : Char → Bool} {c : Char} (h : q c = true)
    (hq : ['\\', '[', ']', '(', ')', '|'].any q = false) : isQuiet c = true := by
  have hne (d : Char) (hd : d ∈ ['\\', '[', ']', '(', ')', '|']) : c ≠ d := by
    rintro rfl
    exact List.any_eq_false.1 hq c hd h
  exact isQuiet_iff.2 ⟨hne _ (by decide), hne _ (by decide), hne _ (by decide), hne _ (by decide),
    hne _ (by decide), hne _ (by decide)⟩

theorem isQuiet_of_isDigit {c : Char} (h : c.isDigit = true) : isQuiet c = true :=
  isQuiet_of h (by decide)

theorem isQuiet_of_isHexDigit {c : Char} (h : isHexDigit c = true) : isQuiet c = true :=
  isQuiet_of h (by decide)

theorem isQuiet_of_isOctalDigit {c : Char} (h : isOctalDigit c = true) : isQuiet c = true :=
  isQuiet_of h (by decide)

theorem isQuiet_of_isAlpha {c : Char} (h : c.isAlpha = true) : isQuiet c = true :=
  isQuiet_of h (by decide)

theorem isQuiet_of_extendsIdentifier {c : Char} (h : extendsIdentifier c = true) :
    isQuiet c = true :=
  isQuiet_of h (by decide +kernel)

theorem isQuiet_of_startsIdentifier {c : Char} (h : startsIdentifier c = true) :
    isQuiet c = true :=
  isQuiet_of h (by decide +kernel)

/-! ## 4. Names of properties -/

theorem named?_names {table : List (List String × CodeSet)} {q : Char → Bool}
    (htable : (table.all fun row => row.1.all fun s => s.toList.all q) = true) {name : Text}
    {s : CodeSet} (h : Unicode.named? table name = some s) : name.all q = true := by
  unfold Unicode.named? at h
  obtain ⟨row, hrow, -⟩ := Option.map_eq_some_iff.1 h
  have hany := List.find?_some hrow
  obtain ⟨t, ht, heq⟩ := List.any_eq_true.1 hany
  rw [← beq_iff_eq.1 heq]
  exact List.all_eq_true.1 (List.all_eq_true.1 htable row (List.mem_of_find?_eq_some hrow)) t ht

theorem script?_names {name : Text} {s : Unicode.Script} (h : Unicode.script? name = some s) :
    name.all isQuiet = true := by
  have hscripts : (Unicode.scripts.all fun s => s.names.all fun n => n.toList.all isQuiet) = true := by
    decide +kernel
  have hany := List.find?_some h
  obtain ⟨t, ht, heq⟩ := List.any_eq_true.1 hany
  rw [← beq_iff_eq.1 heq]
  exact List.all_eq_true.1 (List.all_eq_true.1 hscripts s (List.mem_of_find?_eq_some h)) t ht

/-- The names of properties are plain. -/
theorem property?_names {name : Text} {s : CodeSet} (h : Unicode.property? name = some s) :
    name.all isQuiet = true := by
  have hcategories : (Unicode.categories.all fun row => row.1.all fun s => s.toList.all isQuiet) =
      true := by decide +kernel
  have hbinary : (Unicode.binaryProperties.all fun row => row.1.all fun s => s.toList.all isQuiet) =
      true := by decide +kernel
  have hsplit := takeWhile_append_drop (· != '=') name
  have hparts : (name.takeWhile (· != '=')).all isQuiet = true ∧
      (name.drop (name.takeWhile (· != '=')).length).all isQuiet = true := by
    unfold Unicode.property? at h
    simp only at h
    split at h
    · rename_i hnil
      rw [hnil]
      refine ⟨?_, rfl⟩
      cases hc : Unicode.named? Unicode.categories (name.takeWhile (· != '=')) with
      | some s' => exact named?_names hcategories hc
      | none =>
        rw [hc] at h
        exact named?_names hbinary h
    · rename_i e value hvalue
      obtain ⟨kind, hkind, hset⟩ := Option.bind_eq_some_iff.1 h
      have he : e = '=' := by
        have := head?_drop_takeWhile (· != '=') name
        rw [hvalue] at this
        simpa using this
      refine ⟨?_, ?_⟩
      · unfold Unicode.kind? at hkind
        split at hkind
        · rename_i hname
          rcases hname with hname | hname <;> rw [hname] <;> decide
        · split at hkind
          · rename_i hname
            rcases hname with hname | hname <;> rw [hname] <;> decide
          · split at hkind
            · rename_i hname
              rcases hname with hname | hname <;> rw [hname] <;> decide
            · cases hkind
      · rw [hvalue, he]
        refine Bool.and_eq_true_iff.2 ⟨rfl, ?_⟩
        cases kind with
        | category => exact named?_names hcategories hset
        | script =>
          obtain ⟨s', hs', -⟩ := Option.map_eq_some_iff.1 hset
          exact script?_names hs'
        | scriptExtensions =>
          obtain ⟨s', hs', -⟩ := Option.map_eq_some_iff.1 hset
          exact script?_names hs'
  rw [hsplit, List.all_append, hparts.1, hparts.2]
  rfl

theorem isQuiet_of_mem_fourHex {cs : Text} {n : Nat} (h : fourHex? cs = some n) :
    ∀ c ∈ cs.take 4, isQuiet c = true := by
  unfold fourHex? at h
  split at h
  · rename_i a b c d rest
    split at h
    · rename_i hhex
      simp only [Bool.and_eq_true] at hhex
      obtain ⟨⟨⟨ha, hb⟩, hc⟩, hd⟩ := hhex
      intro x hx
      simp only [List.take_succ_cons, List.take_zero, List.mem_cons, List.not_mem_nil,
        or_false] at hx
      rcases hx with rfl | rfl | rfl | rfl
      · exact isQuiet_of_isHexDigit ha
      · exact isQuiet_of_isHexDigit hb
      · exact isQuiet_of_isHexDigit hc
      · exact isQuiet_of_isHexDigit hd
    · cases h
  · cases h

theorem octalLength_pos (c : Char) (cs : Text) : 0 < octalLength c cs := by
  unfold octalLength
  exact Nat.lt_of_lt_of_le Nat.zero_lt_one (Nat.le_add_right _ _)

/-- A function that passes over plain characters, and over a backslash with what it escapes, in a
class or outside of classes. -/
structure Passes {α : Type} (inClass : Bool) (F : Spot → Text → α) : Prop where
  quiet : ∀ {c : Char}, isQuiet c = true → ∀ t, F ⟨inClass, false⟩ (c :: t) = F ⟨inClass, false⟩ t
  unicode : ∀ t, F ⟨inClass, false⟩ ('\\' :: 'u' :: t) = F ⟨inClass, false⟩ t
  escaped : ∀ c t, F ⟨inClass, true⟩ (c :: t) = F ⟨inClass, false⟩ t

section Passing

variable {α : Type} {F : Spot → Text → α} {b strict named : Bool}

/-- A function that notices landmarks only passes over everything else. -/
theorem Scans.passes (hF : Scans F) (b : Bool) : Passes b F where
  quiet {c} h t := by
    obtain ⟨h1, h2, h3, h4, h5, h6⟩ := isQuiet_iff.1 h
    have hnext : Spot.next ⟨b, false⟩ c = ⟨b, false⟩ := by
      cases b <;> simp [Spot.next, h1, h2, h3]
    rw [hF _ c t (by simp [isLandmark, h2, h4, h5, h6]), hnext]
  unicode t := by
    rw [hF _ _ _ (by simp [isLandmark]), hF _ _ _ (by simp [Spot.next, Spot.outside])]
    rfl
  escaped c t := by
    rw [hF _ c t (by simp [Spot.outside])]
    rfl

namespace Passes

variable (hF : Passes b F)

include hF

theorem append (t : Text) : ∀ {w : Text}, (∀ c ∈ w, isQuiet c = true) →
    F ⟨b, false⟩ (w ++ t) = F ⟨b, false⟩ t
  | [], _ => rfl
  | c :: w, h => by
      rw [List.cons_append, hF.quiet (h c List.mem_cons_self)]
      exact append t fun d hd => h d (List.mem_cons_of_mem _ hd)

/-- Plain characters are passed over. -/
theorem take {t : Text} {n : Nat} (h : ∀ c ∈ t.take n, isQuiet c = true) :
    F ⟨b, false⟩ t = F ⟨b, false⟩ (t.drop n) := by
  conv_lhs => rw [← List.take_append_drop n t]
  exact hF.append _ h

theorem takeWhile {q : Char → Bool} (hq : ∀ c, q c = true → isQuiet c = true) (t : Text) :
    F ⟨b, false⟩ t = F ⟨b, false⟩ (t.drop (t.takeWhile q).length) := by
  refine hF.take fun c hc => hq c ?_
  rw [← List.prefix_iff_eq_take.1 (List.takeWhile_prefix q)] at hc
  exact List.all_eq_true.1 List.all_takeWhile c hc

/-! ## 5. Escapes -/

theorem fourHex {cs : Text} {n : Nat} (h : fourHex? cs = some n) :
    F ⟨b, false⟩ cs = F ⟨b, false⟩ (cs.drop 4) :=
  hF.take (isQuiet_of_mem_fourHex h)

theorem lowSurrogate {cs : Text} {n : Nat} (h : lowSurrogate? cs = some n) :
    F ⟨b, false⟩ cs = F ⟨b, false⟩ (cs.drop 6) := by
  unfold lowSurrogate? at h
  split at h
  · rename_i rest
    cases hf : fourHex? rest with
    | none => rw [hf] at h; cases h
    | some low =>
      have hpass := hF.fourHex hf
      rw [hF.unicode]
      exact hpass
  · cases h

theorem unicodeEscape {cs : Text} {r : Nat × Nat}
    (h : unicodeEscape? strict cs = some r) : F ⟨b, false⟩ cs = F ⟨b, false⟩ (cs.drop r.2) := by
  unfold unicodeEscape? at h
  cases hf : fourHex? cs with
  | some high =>
    rw [hf] at h
    have hpass := hF.fourHex hf
    simp only at h
    split at h
    · cases hl : lowSurrogate? (cs.drop 4) with
      | some low =>
        rw [hl] at h
        obtain rfl := Option.some.inj h
        have hlow := hF.lowSurrogate hl
        rw [List.drop_drop] at hlow
        exact hpass.trans hlow
      | none =>
        rw [hl] at h
        cases h
        exact hpass
    · cases h
      exact hpass
  | none =>
    rw [hf] at h
    simp only at h
    split at h
    · split at h
      · rename_i rest
        split at h
        · rename_i hdigits
          cases h
          rw [hF.quiet (by decide), hF.takeWhile
            (fun c => isQuiet_of_isHexDigit) rest]
          obtain ⟨ds, hds⟩ := List.head?_eq_some_iff.1 hdigits.2.1
          have hdrop : ('\x7b' :: rest).drop ((rest.takeWhile isHexDigit).length + 2) = ds := by
            rw [List.drop_succ_cons, ← List.drop_drop, hds]
            rfl
          rw [hdrop, hds, hF.quiet (by decide)]
        · cases h
      · cases h
    · cases h
      rfl

theorem charEscape {c : Char} {cs : Text} {r : Nat × Nat}
    (h : charEscape? strict c cs = some r) : F ⟨b, false⟩ cs = F ⟨b, false⟩ (cs.drop r.2) := by
  unfold charEscape? at h
  split at h
  · cases h; rfl
  · cases h; rfl
  · cases h; rfl
  · cases h; rfl
  · cases h; rfl
  · split at h
    · rename_i x y rest
      split at h
      · rename_i hhex
        cases h
        rw [Bool.and_eq_true] at hhex
        rw [hF.quiet (isQuiet_of_isHexDigit hhex.1),
          hF.quiet (isQuiet_of_isHexDigit hhex.2)]
        rfl
      · split at h
        · cases h
        · cases h; rfl
    · split at h
      · cases h
      · cases h; rfl
  · exact hF.unicodeEscape h
  · split at h
    · cases h
    · cases h; rfl

theorem propertyEscape {c : Char} {cs : Text} {r : CodeSet × Nat}
    (h : propertyEscape? c cs = some r) :
    0 < r.2 ∧ F ⟨b, false⟩ cs = F ⟨b, false⟩ (cs.drop (r.2 - 1)) := by
  unfold propertyEscape? at h
  split at h
  · rename_i rest
    simp only at h
    split at h
    · rename_i hclose
      obtain ⟨s, hs, rfl⟩ := Option.map_eq_some_iff.1 h
      obtain ⟨ds, hds⟩ := List.head?_eq_some_iff.1 hclose
      refine ⟨Nat.succ_pos _, ?_⟩
      have hnames := List.all_eq_true.1 (property?_names hs)
      have htake : rest.takeWhile (· != '\x7d') =
          rest.take (rest.takeWhile (· != '\x7d')).length :=
        List.prefix_iff_eq_take.1 (List.takeWhile_prefix _)
      have hdrop : ('\x7b' :: rest).drop ((rest.takeWhile (· != '\x7d')).length + 3 - 1) = ds := by
        rw [Nat.add_sub_assoc (by decide), List.drop_succ_cons, ← List.drop_drop, hds]
        rfl
      rw [hF.quiet (by decide), hdrop, hF.take (by rw [← htake]; exact hnames),
        hds, hF.quiet (by decide)]
    · cases h
  · cases h

theorem setEscape {c : Char} {cs : Text} {r : CodeSet × Nat}
    (h : setEscape? strict c cs = some (some r)) :
    0 < r.2 ∧ F ⟨b, false⟩ cs = F ⟨b, false⟩ (cs.drop (r.2 - 1)) := by
  unfold setEscape? at h
  split at h
  · exact hF.propertyEscape (Option.some.inj h)
  · obtain ⟨s, -, hs⟩ := Option.map_eq_some_iff.1 h
    cases hs
    exact ⟨Nat.one_pos, rfl⟩

theorem octalLength (c : Char) (cs : Text) :
    F ⟨b, false⟩ cs = F ⟨b, false⟩ (cs.drop (octalLength c cs - 1)) := by
  unfold Native.octalLength
  simp only [Nat.add_sub_cancel_left]
  refine hF.take fun d hd => ?_
  generalize (if c.toNat ≤ '3'.toNat then 2 else 1) = most at hd
  have hprefix : (cs.take most).takeWhile isOctalDigit <+: cs :=
    (List.takeWhile_prefix _).trans (List.take_prefix _ _)
  rw [← List.prefix_iff_eq_take.1 hprefix] at hd
  exact isQuiet_of_isOctalDigit (List.all_eq_true.1 List.all_takeWhile d hd)

/-! ## 6. Classes -/

end Passes

/-- An escape in a class is passed over. -/
theorem Passes.classEscape (hF : Passes true F) {cs : Text} {r : ClassAtom × Nat}
    (h : classEscape? strict named cs = some r) :
    F ⟨true, true⟩ cs = F .inside (cs.drop r.2) := by
  cases cs with
  | nil => cases h
  | cons c cs =>
    rw [hF.escaped]
    simp only [classEscape?] at h
    -- a reader that takes the letter and `n` characters more
    have hmore {n : Nat} (hpos : 0 < n)
        (hpass : F .inside cs = F .inside (cs.drop (n - 1))) :
        F .inside cs = F .inside ((c :: cs).drop n) := by
      obtain ⟨k, rfl⟩ := Nat.exists_eq_add_of_lt hpos
      simpa using hpass
    cases hset : setEscape? strict c cs with
    | some found =>
      rw [hset] at h
      simp only at h
      obtain ⟨x, rfl, rfl⟩ := Option.map_eq_some_iff.1 h
      have := hF.setEscape hset
      exact hmore this.1 this.2
    | none =>
      rw [hset] at h
      simp only at h
      split at h
      · cases h; rfl
      split at h
      · cases h; rfl
      split at h
      · rename_i hc
        subst hc
        split at h
        · rename_i l rest
          split at h
          · rename_i hl
            cases h
            have hquiet : isQuiet l = true :=
              isQuiet_of (q := fun l => l.isAlpha || (!strict && (l.isDigit || l = '_'))) hl
                (by cases strict <;> decide)
            rw [hF.quiet hquiet]
            rfl
          · split at h
            · cases h
            · cases h
              exact (hF.quiet (by decide) _).symm
        · split at h
          · cases h
          · cases h
            exact (hF.quiet (by decide) _).symm
      split at h
      · cases h
      split at h
      · split at h
        · split at h
          · cases h; rfl
          · cases h
        · split at h
          · cases h
            exact hmore (octalLength_pos c cs) (hF.octalLength c cs)
          · cases h; rfl
      · obtain ⟨x, hx, rfl⟩ := Option.map_eq_some_iff.1 h
        exact hmore (Nat.succ_pos _) (hF.charEscape hx)

namespace Scans

variable (hF : Scans F)

include hF

/-- In a class nothing is noticed. -/
theorem inClass (c : Char) (t : Text) : F .inside (c :: t) = F (Spot.inside.next c) t :=
  hF _ c t (by simp [Spot.outside, Spot.inside])

theorem classAtoms : ∀ (skip taken : Nat) (cs : Text)
    (atoms : List ClassAtom) (r : List ClassAtom × Nat),
    classAtoms? strict named skip cs taken atoms = some r →
    taken < r.2 ∧ F .inside (cs.drop skip) = F .outside (cs.drop (r.2 - taken))
  | _, _, [], _, _, h => by simp [classAtoms?] at h
  | skip + 1, taken, c :: cs, atoms, r, h => by
      simp only [classAtoms?] at h
      obtain ⟨h1, h2⟩ := classAtoms skip (taken + 1) cs atoms r h
      refine ⟨by omega, ?_⟩
      obtain ⟨k, hk⟩ := Nat.exists_eq_add_of_lt h1
      rw [hk] at h2 ⊢
      have e1 : taken + 1 + k + 1 - (taken + 1) = k + 1 := by omega
      have e2 : taken + 1 + k + 1 - taken = k + 1 + 1 := by omega
      rw [e1] at h2
      rw [e2]
      exact h2
  | 0, taken, c :: cs, atoms, r, h => by
      simp only [classAtoms?] at h
      -- the characters after the first one
      have hnext {k : Nat} (h1 : taken + 1 < r.2)
          (h2 : F .inside (cs.drop k) = F .outside (cs.drop (r.2 - (taken + 1)))) :
          F .inside (cs.drop k) = F .outside ((c :: cs).drop (r.2 - taken)) := by
        have e : r.2 - taken = r.2 - (taken + 1) + 1 := by omega
        rw [e, List.drop_succ_cons]
        exact h2
      rw [List.drop_zero]
      split at h
      · rename_i hc
        subst hc
        cases h
        refine ⟨Nat.lt_succ_self _, ?_⟩
        rw [Nat.add_sub_cancel_left]
        exact hF.inClass _ _
      split at h
      · rename_i hc
        subst hc
        cases he : classEscape? strict named cs with
        | none => rw [he] at h; cases h
        | some x =>
          rw [he] at h
          obtain ⟨h1, h2⟩ := classAtoms x.2 (taken + 1) cs _ r h
          rw [hF.inClass]
          exact ⟨by omega, ((hF.passes true).classEscape he).trans (hnext h1 h2)⟩
      · rename_i hclose hescape
        have hinside : Spot.inside.next c = .inside := by simp [Spot.next, hclose, hescape]
        have hpass : F .inside (c :: cs) = F .inside cs := by rw [hF.inClass, hinside]
        rw [hpass]
        split at h
        · obtain ⟨h1, h2⟩ := classAtoms 0 (taken + 1) cs _ r h
          exact ⟨by omega, hnext h1 h2⟩
        · obtain ⟨h1, h2⟩ := classAtoms 0 (taken + 1) cs _ r h
          exact ⟨by omega, hnext h1 h2⟩

/-- A class is passed over up to its closing bracket. -/
theorem class? {cs : Text} {r : Lexeme × Nat} (h : class? strict named cs = some r) :
    F .inside cs = F .outside (cs.drop r.2) := by
  obtain ⟨negated, body, a, sets, hbody, ha, -, rfl⟩ := class?_eq_some_iff.1 h
  obtain ⟨hlt, hpass⟩ := hF.classAtoms 0 _ body [] a ha
  rcases hbody with ⟨rfl, rfl, -⟩ | ⟨rfl, rfl⟩
  · exact hpass
  · obtain ⟨k, hk⟩ := Nat.exists_eq_add_of_lt hlt
    have htaken : a.2 - 1 = k + 1 := by
      simp only [if_true] at hk
      omega
    have hdrop : a.2 = k + 1 + 1 := by
      simp only [if_true] at hk
      omega
    simp only [if_true, htaken] at hpass
    rw [(hF.passes true).quiet (by decide)]
    simp only [hdrop, List.drop_succ_cons]
    exact hpass

end Scans

/-! ## 7. Groups and quantifiers -/

namespace Passes

variable (hF : Passes b F)

include hF

theorem groupNameFrom : ∀ (skip taken : Nat) (name cs : Text) (r : Text × Nat),
    groupNameFrom? skip taken name cs = some r →
    taken < r.2 ∧ F ⟨b, false⟩ (cs.drop skip) = F ⟨b, false⟩ (cs.drop (r.2 - taken))
  | _, _, _, [], _, h => by simp [groupNameFrom?] at h
  | skip + 1, taken, name, c :: cs, r, h => by
      simp only [groupNameFrom?] at h
      obtain ⟨h1, h2⟩ := groupNameFrom skip (taken + 1) name cs r h
      have e : r.2 - taken = r.2 - (taken + 1) + 1 := by omega
      exact ⟨by omega, by rw [e]; exact h2⟩
  | 0, taken, name, c :: cs, r, h => by
      simp only [groupNameFrom?] at h
      rw [List.drop_zero]
      by_cases hclose : c = '>'
      · subst hclose
        rw [if_pos rfl] at h
        split at h
        · cases h
        · cases h
          have e : taken + 1 - taken = 1 := by omega
          refine ⟨Nat.lt_succ_self _, ?_⟩
          simp only [e]
          exact hF.quiet (by decide) _
      · rw [if_neg hclose] at h
        cases hn : nameChar? c cs with
        | none => rw [hn] at h; cases h
        | some x =>
          rw [hn] at h
          simp only at h
          by_cases hid : (if name.isEmpty = true then startsIdentifier x.1
              else extendsIdentifier x.1) = true
          · rw [if_pos hid] at h
            obtain ⟨h1, h2⟩ := groupNameFrom x.2 (taken + 1) _ cs r h
            have e : r.2 - taken = r.2 - (taken + 1) + 1 := by omega
            refine ⟨by omega, ?_⟩
            rw [e, List.drop_succ_cons, ← h2]
            unfold nameChar? at hn
            split at hn
            · rename_i hc
              subst hc
              split at hn
              · rename_i rest
                cases hu : unicodeEscape? true rest with
                | none => rw [hu] at hn; cases hn
                | some y =>
                  rw [hu] at hn
                  simp only at hn
                  split at hn <;> cases hn
                  rw [hF.unicode]
                  exact hF.unicodeEscape hu
              · cases hn
            · cases hn
              refine hF.quiet ?_ cs
              split at hid
              · exact isQuiet_of_startsIdentifier hid
              · exact isQuiet_of_extendsIdentifier hid
          · rw [if_neg hid] at h
            cases h

theorem groupName {cs : Text} {r : Text × Nat} (h : groupName? cs = some r) :
    F ⟨b, false⟩ cs = F ⟨b, false⟩ (cs.drop r.2) :=
  (hF.groupNameFrom 0 0 [] cs r h).2

theorem modifiers {cs : Text} {r : Opening × Nat} (h : modifiers? cs = some r) :
    F ⟨b, false⟩ cs = F ⟨b, false⟩ (cs.drop r.2) := by
  have hq (c : Char) (h : (c == 'i' || c == 'm' || c == 's') = true) : isQuiet c = true := by
    simp only [Bool.or_eq_true, beq_iff_eq] at h
    rcases h with (rfl | rfl) | rfl <;> rfl
  unfold modifiers? at h
  simp only at h
  rw [hF.takeWhile hq cs]
  split at h
  · rename_i rest hd
    split at h <;> cases h
    simp only [← List.drop_drop]
    rw [hd]
    exact hF.quiet (by decide) rest
  · rename_i rest hd
    split at h
    · rename_i hcond
      cases h
      obtain ⟨ds, hds⟩ := List.head?_eq_some_iff.1 hcond.1
      rw [hd, hF.quiet (by decide), hF.takeWhile hq rest, hds,
        hF.quiet (by decide)]
      simp only [List.length_append, Nat.add_assoc]
      rw [← List.drop_drop, hd, Nat.add_succ, List.drop_succ_cons, ← List.drop_drop, hds]
      rfl
    · cases h
  · cases h

/-- What opens a group is passed over. -/
theorem opening? {cs : Text} {r : Opening × Nat} (h : opening? cs = some r) :
    F ⟨b, false⟩ cs = F ⟨b, false⟩ (cs.drop r.2) := by
  unfold Native.opening? at h
  split at h
  · cases h
    exact hF.append (w := ['?', '=']) _ (List.all_eq_true.1 rfl)
  · cases h
    exact hF.append (w := ['?', '!']) _ (List.all_eq_true.1 rfl)
  · cases h
    exact hF.append (w := ['?', '<', '=']) _ (List.all_eq_true.1 rfl)
  · cases h
    exact hF.append (w := ['?', '<', '!']) _ (List.all_eq_true.1 rfl)
  · obtain ⟨x, hx, rfl⟩ := Option.map_eq_some_iff.1 h
    exact (hF.append (w := ['?', '<']) _ (List.all_eq_true.1 rfl)).trans (hF.groupName hx)
  · obtain ⟨x, hx, rfl⟩ := Option.map_eq_some_iff.1 h
    exact (hF.quiet (by decide) _).trans (hF.modifiers hx)
  · cases h
    rfl

theorem bracedBounds {cs : Text} {r : Nat × Option Nat × Nat}
    (h : bracedBounds? cs = some r) : F ⟨b, false⟩ cs = F ⟨b, false⟩ (cs.drop r.2.2) := by
  have hdigit (c : Char) := isQuiet_of_isDigit (c := c)
  unfold bracedBounds? at h
  simp only at h
  rw [hF.takeWhile hdigit cs]
  split at h
  · cases h
  · split at h
    · rename_i rest hd
      cases h
      simp only [← List.drop_drop]
      rw [hd]
      exact hF.quiet (by decide) rest
    · rename_i rest hd
      split at h
      · rename_i hclose
        cases h
        obtain ⟨ds, hds⟩ := List.head?_eq_some_iff.1 hclose
        rw [hd, hF.quiet (by decide), hF.takeWhile hdigit rest, hds,
          hF.quiet (by decide)]
        simp only [Nat.add_assoc]
        rw [← List.drop_drop, hd, Nat.add_succ, List.drop_succ_cons, ← List.drop_drop, hds]
        rfl
      · cases h
    · cases h

theorem quantifier {min : Nat} {max : Option Nat} {cs : Text} {n : Nat}
    {r : Lexeme × Nat} (h : quantifier? min max cs n = some r) :
    F ⟨b, false⟩ (cs.drop n) = F ⟨b, false⟩ (cs.drop r.2) := by
  unfold quantifier? at h
  split at h
  · split at h
    · rename_i hq
      cases h
      obtain ⟨ds, hds⟩ := List.head?_eq_some_iff.1 hq
      rw [← List.drop_drop, hds]
      exact hF.quiet (by decide) ds
    · cases h
      rfl
  · cases h

/-! ## 8. Whole lexemes -/

/-- An escape is passed over. -/
theorem escape? {cs : Text} {r : Lexeme × Nat} (h : escape? strict named cs = some r) :
    F ⟨b, true⟩ cs = F ⟨b, false⟩ (cs.drop r.2) := by
  cases cs with
  | nil => cases h
  | cons c cs =>
    rw [hF.escaped]
    simp only [Native.escape?] at h
    have hmore {n : Nat} (hpos : 0 < n)
        (hpass : F ⟨b, false⟩ cs = F ⟨b, false⟩ (cs.drop (n - 1))) :
        F ⟨b, false⟩ cs = F ⟨b, false⟩ ((c :: cs).drop n) := by
      obtain ⟨k, rfl⟩ := Nat.exists_eq_add_of_lt hpos
      simpa using hpass
    cases hset : setEscape? strict c cs with
    | some found =>
      rw [hset] at h
      simp only at h
      obtain ⟨x, rfl, rfl⟩ := Option.map_eq_some_iff.1 h
      have := hF.setEscape hset
      exact hmore this.1 this.2
    | none =>
      rw [hset] at h
      simp only at h
      split at h
      · cases h; rfl
      split at h
      · cases h; rfl
      split at h
      · rename_i hc
        subst hc
        split at h
        · rename_i l rest
          split at h
          · rename_i hl
            cases h
            exact hF.quiet (isQuiet_of_isAlpha hl) rest
          · split at h
            · cases h
            · cases h
              exact (hF.quiet (by decide) _).symm
        · split at h
          · cases h
          · cases h
            exact (hF.quiet (by decide) _).symm
      split at h
      · split at h
        · rename_i rest
          obtain ⟨x, hx, rfl⟩ := Option.map_eq_some_iff.1 h
          exact (hF.quiet (by decide) _).trans (hF.groupName hx)
        · cases h
      split at h
      · split at h
        · split at h
          · cases h
          · cases h; rfl
        · cases h
          exact hmore (octalLength_pos c cs) (hF.octalLength c cs)
      split at h
      · cases h
        exact hF.takeWhile (fun c => isQuiet_of_isDigit) cs
      · obtain ⟨x, hx, rfl⟩ := Option.map_eq_some_iff.1 h
        exact hmore (Nat.succ_pos _) (hF.charEscape hx)

end Passes

/-- **A lexeme is passed over after its first character.** -/
theorem Scans.lexeme? (hF : Scans F) {c : Char} {cs : Text} {r : Lexeme × Nat}
    (h : lexeme? strict named c cs = some r) :
    F (Spot.outside.next c) cs = F .outside (cs.drop r.2) := by
  unfold Native.lexeme? at h
  split at h
  · cases h; rfl
  · cases h; rfl
  · cases h; rfl
  · cases h; rfl
  · cases h; rfl
  · obtain ⟨x, hx, rfl⟩ := Option.map_eq_some_iff.1 h
    exact (hF.passes false).opening? hx
  · exact hF.class? h
  · exact (hF.passes false).quantifier h
  · exact (hF.passes false).quantifier h
  · exact (hF.passes false).quantifier h
  · split at h
    · rename_i hbounds
      exact ((hF.passes false).bracedBounds hbounds).trans
        ((hF.passes false).quantifier h)
    · split at h
      · cases h
      · cases h; rfl
  · split at h
    · cases h
    · cases h; rfl
  · split at h
    · cases h
    · cases h; rfl
  · exact (hF.passes false).escape? h
  · rename_i h1 h2 h3 h4 h5 h6 h7 h8 h9 h10 h11 h12 h13 h14
    cases h
    have hnext : Spot.outside.next c = .outside := by
      simp [Spot.next, show c ≠ '\\' from h14, show c ≠ '[' from h7]
    rw [hnext]
    rfl

end Passing

end ExtensibleRegex.Native
