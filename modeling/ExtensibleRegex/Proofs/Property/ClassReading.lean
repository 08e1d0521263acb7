import ExtensibleRegex.Proofs.Expansion.Merging
import ExtensibleRegex.Proofs.Native.Classes
import ExtensibleRegex.Proofs.Property.ClassData
import Mathlib.Tactic

/-!
# How the engine reads class data

Class data end up in a class of a native pattern, once repeated empty groups have been left out of it.
That does no harm, since the characters of an empty group are members all the same
(`ClassData.reads_merged`), and the engine reads the same ranges as the table, with one exception. Two
escapes for the halves of a surrogate pair are one code point for the engine. As long as neither half
is an end of a range (`PairsAlone`), no character of the basic plane tells the difference.
-/

namespace ExtensibleRegex

open Native

/-! ## 1. Surrogate pairs -/

/-- Whether a text begins with two escapes for the halves of a surrogate pair. -/
def startsWithPair : Text → Bool
  | '\\' :: 'u' :: cs =>
    match fourHex? cs with
    | some high => 0xD800 ≤ high && high ≤ 0xDBFF && (lowSurrogate? (cs.drop 4)).isSome
    | none => false
  | _ => false

/-- No surrogate pair is written at an end of a range. -/
def PairsAlone (t : Text) : Prop :=
  ∀ s ∈ t.tails, (startsWithPair s = true → (s.drop 12).head? ≠ some '-') ∧
    (s.head? = some '-' → startsWithPair (s.drop 1) = false)

instance (t : Text) : Decidable (PairsAlone t) := by
  unfold PairsAlone
  exact inferInstance

theorem PairsAlone.of_append {s t : Text} (h : PairsAlone (s ++ t)) : PairsAlone t :=
  fun u hu => h u ((List.mem_tails _ _).2 (((List.mem_tails _ _).1 hu).trans (List.suffix_append s t)))

/-- The first half of a surrogate pair. -/
def IsHigh (n : Nat) : Prop := 0xD800 ≤ n ∧ n ≤ 0xDBFF

/-- The second half of a surrogate pair. -/
def IsLow (n : Nat) : Prop := 0xDC00 ≤ n ∧ n ≤ 0xDFFF

theorem not_surrogate (c : Char) : ¬(0xD800 ≤ c.toNat ∧ c.toNat ≤ 0xDFFF) := by
  have h := c.valid
  unfold UInt32.isValidChar Nat.isValidChar at h
  have : c.toNat = c.val.toNat := rfl
  omega

namespace DataPoint

variable {a : Text} {n : Nat}

/-- A half of a surrogate pair is written as an escape. -/
theorem exists_unit (h : DataPoint a n) (hn : 0xD800 ≤ n ∧ n ≤ 0xDFFF) :
    ∃ ds : Text, a = '\\' :: 'u' :: ds ∧ ds.length = 4 ∧ ∀ t, fourHex? (ds ++ t) = some n := by
  cases h with
  | @plain c => exact absurd hn (not_surrogate c)
  | byte ha hb =>
    have h₁ := hexValue_lt ha
    have h₂ := hexValue_lt hb
    simp only [readDigits, List.foldl_cons, List.foldl_nil] at hn
    omega
  | @unit a b c d ha hb hc hd => exact ⟨[a, b, c, d], rfl, rfl, fun t => by simp [fourHex?, ha, hb, hc, hd]⟩

theorem startsWithPair_append (h : DataPoint a n) (hn : IsHigh n) (t : Text) :
    startsWithPair (a ++ t) = (lowSurrogate? t).isSome := by
  obtain ⟨ds, rfl, hlength, hds⟩ := h.exists_unit ⟨hn.1, Nat.le_trans hn.2 (by decide)⟩
  have hdrop : (ds ++ t).drop 4 = t := List.drop_left' hlength
  simp [startsWithPair, hds, hdrop, hn.1, hn.2]

end DataPoint

/-- The second half of a pair is read off one code point. -/
theorem DataPoint.lowSurrogate?_append {a : Text} {n : Nat} (h : DataPoint a n) (t : Text) :
    lowSurrogate? (a ++ t) = if 0xDC00 ≤ n ∧ n ≤ 0xDFFF then some n else none := by
  by_cases hn : 0xD800 ≤ n ∧ n ≤ 0xDFFF
  · obtain ⟨ds, rfl, -, hds⟩ := h.exists_unit hn
    simp only [lowSurrogate?, List.cons_append, hds]
  · have hlow : ¬(0xDC00 ≤ n ∧ n ≤ 0xDFFF) := by omega
    rw [if_neg hlow]
    cases h with
    | @plain c free =>
      have hback : c ≠ '\\' := fun heq => free (heq ▸ List.mem_cons_self)
      simp [lowSurrogate?, hback]
    | byte => rfl
    | unit ha hb hc hd => simp [lowSurrogate?, fourHex?, ha, hb, hc, hd, hlow]

theorem ClassData.eq_nil_or_point {t : Text} {rs : List (Nat × Nat)} (h : ClassData t rs) :
    t = [] ∨ ∃ b n u, DataPoint b n ∧ t = b ++ u := by
  cases h with
  | nil => exact .inl rfl
  | point ha => exact .inr ⟨_, _, _, ha, rfl⟩
  | range ha => exact .inr ⟨_, _, _, ha, rfl⟩

/-- What class data begin with that begin with the second half of a surrogate pair. -/
theorem ClassData.of_lowSurrogate? {t : Text} {rs : List (Nat × Nat)} {low : Nat} (h : ClassData t rs)
    (hlow : lowSurrogate? t = some low) : IsLow low ∧ ∃ b u, DataPoint b low ∧ t = b ++ u ∧
      (u.head? = some '-' ∨ ∃ ss, rs = (low, low) :: ss ∧ ClassData u ss) := by
  have hpoint {b u : Text} {n : Nat} (hb : DataPoint b n) (hlow : lowSurrogate? (b ++ u) = some low) :
      IsLow low ∧ n = low := by
    rw [hb.lowSurrogate?_append] at hlow
    split at hlow
    · rename_i hrange
      cases hlow
      exact ⟨hrange, rfl⟩
    · cases hlow
  cases h with
  | nil => cases hlow
  | @point b u n ss hb rest =>
    obtain ⟨hrange, rfl⟩ := hpoint hb hlow
    exact ⟨hrange, b, u, hb, rfl, .inr ⟨_, rfl, rest⟩⟩
  | @range b b' u lo hi ss hb hb' hle rest =>
    obtain ⟨hrange, rfl⟩ := hpoint hb hlow
    exact ⟨hrange, b, _, hb, rfl, .inl rfl⟩

/-! ## 2. What is left out -/

theorem merged_append_free {u : Text} (hu : '(' ∉ u) (t : Text) : merged (u ++ t) = u ++ merged t := by
  induction u with
  | nil => rfl
  | cons c u ih =>
    have hc : c ≠ '(' := fun heq => hu (heq ▸ List.mem_cons_self)
    rw [List.cons_append, merged_cons (isPrefixOf_emptyGroup_of_ne hc _),
      ih fun hmem => hu (List.mem_cons_of_mem c hmem)]
    rfl

/-- What is left out behind a code point is left out anyway, but for the rest of a second empty
group in a row. -/
theorem DataPoint.merged_append {b : Text} {n : Nat} (h : DataPoint b n) (t : Text) :
    merged (b ++ t) = b ++ merged t ∨ b = ['('] ∧ ∃ r, t = '?' :: ':' :: ')' :: (emptyGroup ++ r) := by
  by_cases hfree : '(' ∉ b
  · exact .inl (merged_append_free hfree t)
  rw [not_not] at hfree
  have hb : b = ['('] := by
    cases h with
    | plain => exact congrArg (fun c => [c]) (List.mem_singleton.1 hfree).symm
    | byte ha hb =>
      simp only [List.mem_cons, List.not_mem_nil, or_false] at hfree
      rcases hfree with h | h | rfl | rfl
      · cases h
      · cases h
      · cases ha
      · cases hb
    | unit ha hb hc hd =>
      simp only [List.mem_cons, List.not_mem_nil, or_false] at hfree
      rcases hfree with h | h | rfl | rfl | rfl | rfl
      · cases h
      · cases h
      · cases ha
      · cases hb
      · cases hc
      · cases hd
  subst hb
  show merged ('(' :: t) = '(' :: merged t ∨ _
  cases hempty : emptyGroup.isPrefixOf ('(' :: t) with
  | false => exact .inl (merged_cons hempty)
  | true =>
    obtain ⟨r, hr⟩ := List.isPrefixOf_iff_prefix.1 hempty
    obtain rfl : '?' :: ':' :: ')' :: r = t := (List.cons.inj hr).2
    cases hagain : emptyGroup.isPrefixOf r with
    | true =>
      obtain ⟨r', rfl⟩ := List.isPrefixOf_iff_prefix.1 hagain
      exact .inr ⟨rfl, r', rfl⟩
    | false =>
      have hafter : mergedAfter r = merged r := by
        cases r with
        | nil => rfl
        | cons c r => rw [mergedAfter_cons hagain, merged_cons hagain]
      have hsplit : merged ('?' :: ':' :: ')' :: r) = '?' :: ':' :: ')' :: merged r :=
        merged_append_free (u := ['?', ':', ')']) (by decide) r
      rw [hsplit, ← hafter]
      exact .inl (merged_emptyGroup r)

namespace ClassData

variable {c : Char} {t : Text} {rs : List (Nat × Nat)}

/-- Class data that begin with a character hold it. -/
theorem inRanges_head (h : ClassData (c :: t) rs) (hc : c ≠ '\\') : inRanges rs c.toNat = true := by
  have hpoint {a u : Text} {n : Nat} (ha : DataPoint a n) (heq : c :: t = a ++ u) : n = c.toNat := by
    cases ha with
    | plain => rw [(List.cons.inj heq).1]
    | byte => exact absurd (List.cons.inj heq).1 hc
    | unit => exact absurd (List.cons.inj heq).1 hc
  generalize hw : c :: t = w at h
  cases h with
  | nil => cases hw
  | point ha => exact (inRanges_cons ..).2 (.inl (by rw [hpoint ha hw]; omega))
  | range ha _ hle => exact (inRanges_cons ..).2 (.inl (by rw [← hpoint ha hw]; omega))

/-- A character in front of class data, with no range behind it. -/
theorem of_cons (h : ClassData (c :: t) rs) (hc : c ≠ '\\') (hnext : t.head? ≠ some '-') :
    ∃ ss, rs = (c.toNat, c.toNat) :: ss ∧ ClassData t ss := by
  have hpoint {a u : Text} {n : Nat} (ha : DataPoint a n) (heq : c :: t = a ++ u) :
      n = c.toNat ∧ t = u := by
    cases ha with
    | plain => exact ⟨by rw [(List.cons.inj heq).1], (List.cons.inj heq).2⟩
    | byte => exact absurd (List.cons.inj heq).1 hc
    | unit => exact absurd (List.cons.inj heq).1 hc
  generalize hw : c :: t = w at h
  cases h with
  | nil => cases hw
  | point ha rest =>
    obtain ⟨rfl, rfl⟩ := hpoint ha hw
    exact ⟨_, rfl, rest⟩
  | range ha _ _ _ =>
    obtain ⟨-, rfl⟩ := hpoint ha hw
    exact absurd rfl hnext

theorem lowSurrogate?_merged (h : ClassData t rs) : lowSurrogate? (merged t) = lowSurrogate? t := by
  rcases h.eq_nil_or_point with rfl | ⟨b, n, u, hb, rfl⟩
  · rfl
  · rcases hb.merged_append u with heq | ⟨rfl, r, rfl⟩
    · rw [heq, hb.lowSurrogate?_append, hb.lowSurrogate?_append]
    · rw [show merged (['('] ++ '?' :: ':' :: ')' :: (emptyGroup ++ r)) = _ from
        merged_emptyGroup (emptyGroup ++ r)]
      rfl

/-- Of two empty groups in a row the second one adds no members. -/
theorem of_emptyGroups {r : Text} (h : ClassData ('?' :: ':' :: ')' :: (emptyGroup ++ r)) rs) :
    ∃ ss, ClassData ('?' :: ':' :: ')' :: r) ss ∧
      ∀ n, inRanges ((40, 40) :: rs) n = inRanges ((40, 40) :: ss) n := by
  have hnext {c : Char} {u : Text} (hc : c ≠ '-') : (c :: u).head? ≠ some '-' :=
    fun heq => hc (Option.some.inj heq)
  obtain ⟨rs₁, rfl, h₁⟩ := h.of_cons (by decide) (hnext (by decide))
  obtain ⟨rs₂, rfl, h₂⟩ := h₁.of_cons (by decide) (hnext (by decide))
  obtain ⟨rs₃, rfl, h₃⟩ := h₂.of_cons (by decide) (hnext (by decide))
  obtain ⟨rs₄, rfl, h₄⟩ := h₃.of_cons (by decide) (hnext (by decide))
  obtain ⟨rs₅, rfl, h₅⟩ := h₄.of_cons (by decide) (hnext (by decide))
  obtain ⟨rs₆, rfl, h₆⟩ := h₅.of_cons (by decide) (hnext (by decide))
  have hclose : inRanges rs₆ 41 = true := h₆.inRanges_head (by decide)
  refine ⟨_, h₄, fun n => ?_⟩
  rw [Bool.eq_iff_iff]
  simp only [inRanges_cons]
  show _ ∨ (63 ≤ n ∧ n ≤ 63) ∨ (58 ≤ n ∧ n ≤ 58) ∨ (41 ≤ n ∧ n ≤ 41) ∨ (40 ≤ n ∧ n ≤ 40) ∨
    (63 ≤ n ∧ n ≤ 63) ∨ (58 ≤ n ∧ n ≤ 58) ∨ _ ↔ _ ∨ (63 ≤ n ∧ n ≤ 63) ∨ (58 ≤ n ∧ n ≤ 58) ∨ _
  by_cases hn : n = 41
  · simp [hn, hclose]
  · have hne : ¬(41 ≤ n ∧ n ≤ 41) := by omega
    simp only [hne, false_or]
    grind

end ClassData

/-! ## 3. Reading -/

section Reading

variable (strict named : Bool)

/-- What the engine reads before the closing bracket of a class. -/
def Cuts (t : Text) (atoms : List ClassAtom) : Prop :=
  ∀ taken read, classAtoms? strict named 0 (t ++ [']']) taken read =
    some (read.reverse ++ atoms, taken + t.length + 1)

/-- The members of class data as the engine reads them: those of their ranges, but for surrogates and
the code points that pairs of them stand for. -/
structure ReadsAs (t : Text) (rs : List (Nat × Nat)) (atoms : List ClassAtom) (sets : List CodeSet) :
    Prop where
  cuts : Cuts strict named t atoms
  free : atoms.head? ≠ some .hyphen
  assembled : assembleClass strict atoms = some sets
  members : ∀ n ≤ 0xFFFF, ¬(0xD800 ≤ n ∧ n ≤ 0xDFFF) →
    sets.any (·.contains n) = inRanges rs n

variable {strict named : Bool} {a b t u : Text} {n lo hi : Nat} {rs ss : List (Nat × Nat)}
  {atoms : List ClassAtom} {sets : List CodeSet}

theorem cuts_nil : Cuts strict named [] [] := fun taken read => by
  simp [classAtoms?]

theorem Cuts.hyphen (h : Cuts strict named t atoms) : Cuts strict named ('-' :: t) (.hyphen :: atoms) :=
  fun taken read => by
    have hrest := h (taken + 1) (.hyphen :: read)
    simp only [List.cons_append, classAtoms?]
    rw [if_neg (by decide), if_neg (by decide)]
    simp only [if_true, hrest, List.reverse_cons, List.append_assoc, List.singleton_append,
      List.length_cons]
    rw [Nat.add_assoc taken 1, Nat.add_comm 1]

theorem Cuts.escape (h : Cuts strict named t atoms) {cs : Text} {atom : ClassAtom}
    (he : classEscape? strict named (cs ++ (t ++ [']'])) = some (atom, cs.length)) :
    Cuts strict named ('\\' :: (cs ++ t)) (atom :: atoms) := fun taken read => by
  have hrest := h (taken + 1 + cs.length) (atom :: read)
  simp only [List.cons_append, List.append_assoc, classAtoms?]
  rw [if_neg (by decide)]
  simp only [if_true, he]
  rw [classAtoms?_skip, List.drop_left, hrest]
  simp only [List.reverse_cons, List.append_assoc, List.singleton_append, List.length_cons,
    List.length_append, Option.some.injEq, Prod.mk.injEq, true_and]
  omega

theorem inert_close : Inert [']'] := ⟨rfl, nofun⟩

/-- A code point is read, unless it is the first half of a pair. -/
theorem Cuts.point (h : Cuts strict named t atoms) (ha : DataPoint a n)
    (hpair : IsHigh n → lowSurrogate? t = none) :
    Cuts strict named (a ++ t) (.point n :: atoms) := by
  cases ha with
  | @plain c free =>
    simp only [List.mem_cons, List.not_mem_nil, or_false, not_or] at free
    obtain ⟨hback, hclose, -, hdash⟩ := free
    intro taken read
    have hrest := h (taken + 1) (.point c.toNat :: read)
    simp only [List.cons_append, List.nil_append, classAtoms?, if_neg hback, if_neg hclose,
      if_neg hdash, hrest, List.reverse_cons, List.append_assoc, List.length_cons]
    rw [Nat.add_assoc taken 1, Nat.add_comm 1]
  | @byte d e hd he =>
    refine (h.escape ?_ : Cuts strict named ('\\' :: (['x', d, e] ++ t)) _)
    simp [classEscape?, setEscape?, shorthand?, charEscape?, hd, he]
  | @unit d e f g hd he hf hg =>
    refine (h.escape ?_ : Cuts strict named ('\\' :: (['u', d, e, f, g] ++ t)) _)
    have hlow : IsHigh (readDigits 16 [d, e, f, g]) → lowSurrogate? (t ++ [']']) = none :=
      fun hn => (lowSurrogate?_append t inert_close).trans (hpair hn)
    have hcode : unicodeEscape? strict ([d, e, f, g] ++ (t ++ [']'])) =
        some (readDigits 16 [d, e, f, g], 4) := by
      unfold unicodeEscape?
      simp only [List.cons_append, List.nil_append, fourHex?, hd, he, hf, hg, Bool.and_self, if_true,
        List.drop_succ_cons, List.drop_zero]
      split
      · rename_i hn
        simp only [Bool.and_eq_true, decide_eq_true_eq] at hn
        rw [hlow hn]
      · rfl
    simp only [List.cons_append, List.nil_append] at hcode
    simp [classEscape?, setEscape?, shorthand?, charEscape?, hcode]

/-- The two halves of a surrogate pair are read as one code point. -/
theorem Cuts.pair {high low : Nat} (h : Cuts strict named t atoms) (ha : DataPoint a high)
    (hb : DataPoint b low) (hhigh : IsHigh high) (hlow : IsLow low) :
    Cuts strict named (a ++ (b ++ t))
      (.point (0x10000 + (high - 0xD800) * 0x400 + (low - 0xDC00)) :: atoms) := by
  obtain ⟨ds, rfl, hds, hfour⟩ := ha.exists_unit ⟨hhigh.1, Nat.le_trans hhigh.2 (by decide)⟩
  obtain ⟨es, rfl, hes, hfour'⟩ := hb.exists_unit ⟨Nat.le_trans (by decide) hlow.1, hlow.2⟩
  have hsecond : lowSurrogate? ('\\' :: 'u' :: (es ++ (t ++ [']']))) = some low := by
    unfold lowSurrogate?
    simp only [hfour']
    exact if_pos hlow
  have hcode : unicodeEscape? strict (ds ++ '\\' :: 'u' :: (es ++ (t ++ [']']))) =
      some (0x10000 + (high - 0xD800) * 0x400 + (low - 0xDC00), 10) := by
    unfold unicodeEscape?
    have hrange : (decide (0xD800 ≤ high) && decide (high ≤ 0xDBFF)) = true := by
      simp [hhigh.1, hhigh.2]
    simp only [hfour, hrange, if_true, List.drop_left' hds, hsecond]
  have hescape : classEscape? strict named (('u' :: (ds ++ '\\' :: 'u' :: es)) ++ (t ++ [']'])) =
      some (.point (0x10000 + (high - 0xD800) * 0x400 + (low - 0xDC00)),
        ('u' :: (ds ++ '\\' :: 'u' :: es)).length) := by
    simp only [List.cons_append, List.append_assoc]
    simp [classEscape?, setEscape?, shorthand?, charEscape?, hcode, hds, hes]
  simpa using h.escape hescape

/-- The reading of class data with a code point in front, where shorter class data are read. -/
theorem exists_cuts_point {limit : Nat}
    (ih : ∀ {t : Text} {rs : List (Nat × Nat)}, t.length ≤ limit → ClassData t rs → PairsAlone t →
      ∃ atoms sets, ReadsAs strict named (merged t) rs atoms sets)
    {b t : Text} {hi : Nat} {rs : List (Nat × Nat)} (hb : DataPoint b hi) (h : ClassData t rs)
    (hpairs : PairsAlone t) (hlow : IsHigh hi → lowSurrogate? t = none) (hlimit : t.length ≤ limit) :
    ∃ atoms sets, Cuts strict named (merged (b ++ t)) (.point hi :: atoms) ∧
      atoms.head? ≠ some .hyphen ∧ assembleClass strict atoms = some sets ∧
      ∀ n ≤ 0xFFFF, ¬(0xD800 ≤ n ∧ n ≤ 0xDFFF) →
        (n = hi ∨ sets.any (·.contains n) = true ↔ n = hi ∨ inRanges rs n = true) := by
  rcases hb.merged_append t with heq | ⟨rfl, r, rfl⟩
  · obtain ⟨atoms, sets, hreads⟩ := ih hlimit h hpairs
    refine ⟨atoms, sets, ?_, hreads.free, hreads.assembled, fun n hn hscalar => ?_⟩
    · rw [heq]
      exact hreads.cuts.point hb fun hhigh => h.lowSurrogate?_merged.trans (hlow hhigh)
    · rw [hreads.members n hn hscalar]
  · -- the second empty group goes, and the first one is still there
    obtain rfl : 40 = hi := by
      cases hb
      rfl
    obtain ⟨ss, hss, hsame⟩ := h.of_emptyGroups
    have hmerged : merged (['('] ++ '?' :: ':' :: ')' :: (emptyGroup ++ r)) =
        merged (['('] ++ '?' :: ':' :: ')' :: r) := by
      show merged (emptyGroup ++ (emptyGroup ++ r)) = merged (emptyGroup ++ r)
      rw [merged_emptyGroup, merged_emptyGroup, mergedAfter_emptyGroup]
    have hpairs' : PairsAlone ('?' :: ':' :: ')' :: r) :=
      PairsAlone.of_append (s := ['?', ':', ')', '(']) hpairs
    obtain ⟨atoms, sets, hcuts, hfree, hassembled, hmembers⟩ := exists_cuts_point ih hb hss hpairs'
      (fun _ => rfl) (by simp [emptyGroup] at hlimit ⊢; omega)
    refine ⟨atoms, sets, hmerged ▸ hcuts, hfree, hassembled, fun n hn hscalar => ?_⟩
    have hiff := Bool.eq_iff_iff.1 (hsame n)
    rw [inRanges_cons, inRanges_cons] at hiff
    rw [hmembers n hn hscalar]
    have hforty : n = 40 ↔ 40 ≤ n ∧ n ≤ 40 := by omega
    rw [hforty, hiff]
termination_by t.length
decreasing_by
  subst_vars
  simp [emptyGroup]

theorem ReadsAs.of_point (hcuts : Cuts strict named t (.point n :: atoms))
    (hfree : atoms.head? ≠ some .hyphen) (hassembled : assembleClass strict atoms = some sets)
    (hmembers : ∀ m ≤ 0xFFFF, ¬(0xD800 ≤ m ∧ m ≤ 0xDFFF) →
      (m = n ∨ sets.any (·.contains m) = true ↔ inRanges rs m = true)) :
    ReadsAs strict named t rs (.point n :: atoms) (.single n :: sets) where
  cuts := hcuts
  free := nofun
  assembled := by
    rw [assembleClass_cons hfree, hassembled]
    rfl
  members m hm hscalar := by
    rw [Bool.eq_iff_iff, ← hmembers m hm hscalar, List.any_cons, Bool.or_eq_true,
      CodeSet.contains_single, beq_iff_eq]

/-- A pair that begins class data is not an end of a range. -/
theorem PairsAlone.head?_ne {high low : Nat} (h : PairsAlone (a ++ (b ++ t))) (ha : DataPoint a high)
    (hb : DataPoint b low) (hhigh : IsHigh high) (hlow : IsLow low) : t.head? ≠ some '-' := by
  have hstarts : startsWithPair (a ++ (b ++ t)) = true := by
    rw [ha.startsWithPair_append hhigh, hb.lowSurrogate?_append]
    exact congrArg Option.isSome (if_pos hlow)
  obtain ⟨ds, rfl, hds, -⟩ := ha.exists_unit ⟨hhigh.1, Nat.le_trans hhigh.2 (by decide)⟩
  obtain ⟨es, rfl, hes, -⟩ := hb.exists_unit ⟨Nat.le_trans (by decide) hlow.1, hlow.2⟩
  have hdrop : ('\\' :: 'u' :: ds ++ ('\\' :: 'u' :: es ++ t)).drop 12 = t := by
    have hlength : ('\\' :: 'u' :: ds ++ '\\' :: 'u' :: es).length = 12 := by simp [hds, hes]
    rw [← List.append_assoc]
    exact List.drop_left' hlength
  have hfree := (h _ ((List.mem_tails _ _).2 (List.suffix_refl _))).1 hstarts
  rwa [hdrop] at hfree

/-- The engine reads class data, once repeated empty groups have been left out of them. The induction is
on their length, as a repeated empty group takes several code points at once. -/
theorem ClassData.exists_readsAs : ∀ (limit : Nat) {t : Text} {rs : List (Nat × Nat)},
    t.length ≤ limit → ClassData t rs → PairsAlone t →
      ∃ atoms sets, ReadsAs strict named (merged t) rs atoms sets := by
  intro limit
  induction limit with
  | zero =>
    intro t rs hlimit h _
    obtain rfl := List.length_eq_zero_iff.1 (Nat.le_zero.1 hlimit)
    generalize ht : ([] : Text) = t at h
    cases h with
    | nil => exact ⟨[], [], cuts_nil, nofun, rfl, fun _ _ _ => rfl⟩
    | point ha =>
      obtain ⟨c, u, rfl, -⟩ := ha.exists_cons
      cases ht
    | range ha =>
      obtain ⟨c, u, rfl, -⟩ := ha.exists_cons
      cases ht
  | succ limit ih =>
    intro t rs hlimit h hpairs
    cases h with
    | nil => exact ⟨[], [], cuts_nil, nofun, rfl, fun _ _ _ => rfl⟩
    | @point a t n rs ha rest =>
      have hshort : t.length ≤ limit := by
        obtain ⟨c, u, rfl, -⟩ := ha.exists_cons
        simp only [List.cons_append, List.length_cons, List.length_append] at hlimit
        omega
      by_cases hpair : IsHigh n ∧ ∃ low, lowSurrogate? t = some low
      · -- a pair, which stands for no code point of the basic plane
        obtain ⟨hhigh, low, hread⟩ := hpair
        obtain ⟨hlow, b, u, hb, rfl, hnext⟩ := rest.of_lowSurrogate? hread
        have hfree := hpairs.head?_ne ha hb hhigh hlow
        rcases hnext with hdash | ⟨ss, rfl, hu⟩
        · exact absurd hdash hfree
        have hlength : u.length ≤ limit := by
          simp only [List.length_append] at hshort
          omega
        obtain ⟨atoms, sets, hreads⟩ := ih hlength hu hpairs.of_append.of_append
        have hmerged : merged (a ++ (b ++ u)) = a ++ (b ++ merged u) := by
          obtain ⟨ds, rfl, -⟩ := ha.exists_unit ⟨hhigh.1, Nat.le_trans hhigh.2 (by decide)⟩
          obtain ⟨es, rfl, -⟩ := hb.exists_unit ⟨Nat.le_trans (by decide) hlow.1, hlow.2⟩
          rcases ha.merged_append ('\\' :: 'u' :: es ++ u) with heq | ⟨h, -⟩
          · rcases hb.merged_append u with heq' | ⟨h, -⟩
            · rw [heq, heq']
            · cases h
          · cases h
        rw [hmerged]
        refine ⟨_, _, .of_point (hreads.cuts.pair ha hb hhigh hlow) hreads.free hreads.assembled
          fun m hm hscalar => ?_⟩
        rw [hreads.members m hm hscalar, inRanges_cons, inRanges_cons]
        obtain ⟨h₁, h₂⟩ := hhigh
        obtain ⟨h₃, h₄⟩ := hlow
        constructor
        · rintro (heq | hin)
          · omega
          · exact .inr (.inr hin)
        · rintro (hin | hin | hin)
          · omega
          · omega
          · exact .inr hin
      · have hlow : IsHigh n → lowSurrogate? t = none := fun hhigh =>
          Option.eq_none_iff_forall_ne_some.2 fun low hlow => hpair ⟨hhigh, low, hlow⟩
        obtain ⟨atoms, sets, hcuts, hfree, hassembled, hmembers⟩ :=
          exists_cuts_point ih ha rest hpairs.of_append hlow hshort
        refine ⟨_, _, .of_point hcuts hfree hassembled fun m hm hscalar => ?_⟩
        rw [hmembers m hm hscalar, inRanges_cons]
        have hsame : m = n ↔ n ≤ m ∧ m ≤ n := by omega
        rw [hsame]
    | @range a b t lo hi rs ha hb hle rest =>
      have hshort : t.length ≤ limit := by
        obtain ⟨c, u, rfl, -⟩ := ha.exists_cons
        simp only [List.cons_append, List.length_cons, List.length_append] at hlimit
        omega
      have hlow : IsHigh hi → lowSurrogate? t = none := fun hhigh => by
        have hdash : PairsAlone ('-' :: (b ++ t)) := hpairs.of_append
        have hstarts := (hdash _ ((List.mem_tails _ _).2 (List.suffix_refl _))).2 rfl
        rw [List.drop_succ_cons, List.drop_zero, hb.startsWithPair_append hhigh] at hstarts
        exact Option.not_isSome_iff_eq_none.1 (by simp [hstarts])
      have hpairs' : PairsAlone t := PairsAlone.of_append (s := a ++ '-' :: b) (by simpa using hpairs)
      obtain ⟨atoms, sets, hcuts, hfree, hassembled, hmembers⟩ :=
        exists_cuts_point ih hb rest hpairs' hlow hshort
      have hmerged : merged (a ++ '-' :: (b ++ t)) = a ++ '-' :: merged (b ++ t) := by
        rcases ha.merged_append ('-' :: (b ++ t)) with heq | ⟨-, r, h⟩
        · rw [heq, merged_cons (isPrefixOf_emptyGroup_of_ne (by decide) _)]
        · cases h
      rw [hmerged]
      refine ⟨.point lo :: .hyphen :: .point hi :: atoms, .ranges [(lo, hi)] :: sets,
        hcuts.hyphen.point ha fun _ => rfl, nofun, ?_, fun m hm hscalar => ?_⟩
      · simp only [assembleClass, ClassAtom.point?, if_pos hle, hassembled, Option.map_some]
      · have hiff := hmembers m hm hscalar
        rw [Bool.eq_iff_iff, List.any_cons, Bool.or_eq_true, inRanges_cons, CodeSet.contains_ranges,
          inRanges_cons, inRanges_nil]
        by_cases hm' : m = hi
        · subst hm'
          simp [hle]
        · simp only [hm', false_or] at hiff
          rw [hiff]
          simp

/-- **A class holds the ranges of its data**, among the characters of the basic plane. -/
theorem ClassData.exists_members (h : ClassData t rs) (hpairs : PairsAlone t) :
    ∃ s : CodeSet, (∀ c : Char, c.toNat ≤ 0xFFFF → s.contains c.toNat = inRanges rs c.toNat) ∧
      lexAll? strict named 0 ('[' :: (merged t ++ [']'])) [] = some [.set false s] ∧
      lexAll? strict named 0 ('[' :: '^' :: (merged t ++ [']'])) [] = some [.set true s] := by
  obtain ⟨atoms, sets, hreads⟩ : ∃ atoms sets, ReadsAs strict named (merged t) rs atoms sets :=
    ClassData.exists_readsAs t.length (Nat.le_refl _) h hpairs
  have hclass : classAtoms? strict named 0 (merged t ++ [']']) 0 [] =
      some (atoms, 0 + (merged t).length + 1) := hreads.cuts 0 []
  have hnegated : classAtoms? strict named 0 (merged t ++ [']']) 1 [] =
      some (atoms, 1 + (merged t).length + 1) := hreads.cuts 1 []
  have hcaret : ((merged t ++ [']']).head? == some '^') = false := by
    have hhead : (merged t).head? ≠ some '^' := by
      rw [head?_merged]
      exact h.head?_ne (by decide)
    cases hmerged : merged t with
    | nil => rfl
    | cons c cs =>
      rw [hmerged] at hhead
      exact beq_eq_false_iff_ne.2 hhead
  refine ⟨.unionOf sets, fun c hc => ?_, ClassBody.lexAll?_of_class? ?_,
    ClassBody.lexAll?_of_class? ?_⟩
  · rw [CodeSet.contains_unionOf]
    exact hreads.members c.toNat hc (not_surrogate c)
  · simp only [class?, hcaret, Bool.false_eq_true, if_false, hclass, hreads.assembled]
    simp
  · simp only [class?, List.head?_cons, beq_self_eq_true, if_true, List.drop_succ_cons, List.drop_zero,
      hnegated, hreads.assembled]
    simp
    omega

end Reading

end ExtensibleRegex
