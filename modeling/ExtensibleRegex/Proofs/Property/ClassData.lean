import ExtensibleRegex.Proofs.Text.Digits
import ExtensibleRegex.Property.Table
import Mathlib.Tactic

/-!
# Class data and their complements

What a property holds for the basic plane is written as the contents of a class: code points, each a
character or an escape, and ranges of them (`ClassData`). A table reads the ranges to write the
complement:

* it reads the ranges that are written (`ClassData.classRanges_eq`);
* what it writes is class data again, with the gaps of these ranges (`ClassData.complementBmp`);
* the gaps miss no code point, in whatever order the ranges come (`inRanges_gaps_of_not`);
* they are the complement if the ranges ascend (`Ascending.inRanges_gaps`). The gap before a range
  begins behind the range read last, even if an earlier one reaches further.
-/

namespace ExtensibleRegex

/-! ## 1. The grammar of class data -/

/-- A code point of the basic plane, as class data write it. -/
inductive DataPoint : Text → Nat → Prop where
  | plain {c : Char} (free : c ∉ ['\\', ']', '^', '-']) (plane : c.toNat ≤ 0xFFFF) :
      DataPoint [c] c.toNat
  | byte {a b : Char} (ha : isHexDigit a = true) (hb : isHexDigit b = true) :
      DataPoint ['\\', 'x', a, b] (readDigits 16 [a, b])
  | unit {a b c d : Char} (ha : isHexDigit a = true) (hb : isHexDigit b = true)
      (hc : isHexDigit c = true) (hd : isHexDigit d = true) :
      DataPoint ['\\', 'u', a, b, c, d] (readDigits 16 [a, b, c, d])

/-- Class data with their ranges: code points, and ranges of code points in order. -/
inductive ClassData : Text → List (Nat × Nat) → Prop where
  | nil : ClassData [] []
  | point {a t : Text} {n : Nat} {rs : List (Nat × Nat)} (ha : DataPoint a n)
      (rest : ClassData t rs) : ClassData (a ++ t) ((n, n) :: rs)
  | range {a b t : Text} {lo hi : Nat} {rs : List (Nat × Nat)} (ha : DataPoint a lo)
      (hb : DataPoint b hi) (ordered : lo ≤ hi) (rest : ClassData t rs) :
      ClassData (a ++ '-' :: (b ++ t)) ((lo, hi) :: rs)

namespace DataPoint

variable {a : Text} {n : Nat}

theorem le_plane (h : DataPoint a n) : n ≤ 0xFFFF := by
  cases h with
  | plain _ plane => exact plane
  | byte ha hb =>
    have h₁ := hexValue_lt ha
    have h₂ := hexValue_lt hb
    simp only [readDigits, List.foldl_cons, List.foldl_nil]
    omega
  | unit ha hb hc hd =>
    have h₁ := hexValue_lt ha
    have h₂ := hexValue_lt hb
    have h₃ := hexValue_lt hc
    have h₄ := hexValue_lt hd
    simp only [readDigits, List.foldl_cons, List.foldl_nil]
    omega

/-- A code point begins with a character that is no hyphen, no caret and no bracket. -/
theorem exists_cons (h : DataPoint a n) : ∃ c u, a = c :: u ∧ c ∉ [']', '^', '-'] := by
  cases h with
  | plain free => exact ⟨_, [], rfl, fun h => free (List.mem_cons_of_mem _ h)⟩
  | byte => exact ⟨_, _, rfl, by decide⟩
  | unit => exact ⟨_, _, rfl, by decide⟩

end DataPoint

/-! ## 2. How the table reads them -/

theorem takeHex?_append {u : Text} (hu : ∀ c ∈ u, isHexDigit c = true) (t : Text) :
    takeHex? u.length (u ++ t) = some (readDigits 16 u, t) := by
  have hall : u.all isHexDigit = true := List.all_eq_true.2 hu
  simp only [takeHex?, List.take_left, List.drop_left, hall, and_self, if_true]

namespace DataPoint

variable {a t : Text} {n : Nat}

theorem classPoint?_append (h : DataPoint a n) (t : Text) : classPoint? (a ++ t) = some (n, t) := by
  cases h with
  | plain free =>
    simp only [List.mem_cons, not_or] at free
    simp [classPoint?, free.1]
  | @byte a b ha hb => exact @takeHex?_append [a, b] (by simp [ha, hb]) t
  | @unit a b c d ha hb hc hd => exact @takeHex?_append [a, b, c, d] (by simp [ha, hb, hc, hd]) t

end DataPoint

namespace ClassData

variable {t : Text} {rs : List (Nat × Nat)}

/-- Class data do not begin with a hyphen, a caret or a bracket. -/
theorem head?_ne (h : ClassData t rs) {c : Char} (hc : c ∈ [']', '^', '-']) :
    t.head? ≠ some c := by
  have hpoint {a u : Text} {n : Nat} (ha : DataPoint a n) : (a ++ u).head? ≠ some c := by
    obtain ⟨d, ds, rfl, hd⟩ := ha.exists_cons
    rintro heq
    cases heq
    exact hd hc
  cases h with
  | nil => exact nofun
  | point ha => exact hpoint ha
  | range ha => exact hpoint ha

/-- The ranges of class data lie in the basic plane, and are in order. -/
theorem ordered (h : ClassData t rs) : ∀ r ∈ rs, r.1 ≤ r.2 ∧ r.2 ≤ 0xFFFF := by
  induction h with
  | nil => exact nofun
  | point ha _ ih => exact List.forall_mem_cons.2 ⟨⟨Nat.le_refl _, ha.le_plane⟩, ih⟩
  | range _ hb hle _ ih => exact List.forall_mem_cons.2 ⟨⟨hle, hb.le_plane⟩, ih⟩

theorem append {u : Text} {ss : List (Nat × Nat)} (h : ClassData t rs) (hu : ClassData u ss) :
    ClassData (t ++ u) (rs ++ ss) := by
  induction h with
  | nil => exact hu
  | point ha _ ih =>
    rw [List.append_assoc]
    exact ih.point ha
  | range ha hb hle _ ih =>
    rw [List.append_assoc, List.cons_append, List.append_assoc]
    exact ih.range ha hb hle

theorem classRange?_point {a : Text} {n : Nat} (ha : DataPoint a n) (h : ClassData t rs) :
    classRange? (a ++ t) = some ((n, n), t) := by
  have hhead : t.head? ≠ some '-' := h.head?_ne (by decide)
  unfold classRange?
  rw [ha.classPoint?_append]
  cases t with
  | nil => rfl
  | cons c t =>
    have hc : c ≠ '-' := fun heq => hhead (congrArg some heq)
    simp [hc]

theorem classRange?_range {a b : Text} {lo hi : Nat} (ha : DataPoint a lo) (hb : DataPoint b hi)
    (t : Text) : classRange? (a ++ '-' :: (b ++ t)) = some ((lo, hi), t) := by
  unfold classRange?
  simp only [ha.classPoint?_append, hb.classPoint?_append]

/-- **The table reads the ranges that are written.** -/
theorem classRanges_eq (h : ClassData t rs) : ∀ left, t.length ≤ left → classRanges left t = rs := by
  induction h with
  | nil =>
    intro left _
    cases left <;> rfl
  | @point a t n rs ha rest ih =>
    intro left hleft
    obtain ⟨c, u, rfl, -⟩ := ha.exists_cons
    cases left with
    | zero => simp at hleft
    | succ left =>
      have hlength : t.length ≤ left := by
        simp only [List.cons_append, List.length_cons, List.length_append] at hleft
        omega
      simp only [classRanges, classRange?_point ha rest, ih left hlength]
  | @range a b t lo hi rs ha hb hle rest ih =>
    intro left hleft
    obtain ⟨c, u, rfl, -⟩ := ha.exists_cons
    cases left with
    | zero => simp at hleft
    | succ left =>
      have hlength : t.length ≤ left := by
        simp only [List.cons_append, List.length_cons, List.length_append] at hleft
        omega
      simp only [classRanges, classRange?_range ha hb, ih left hlength]

end ClassData

/-! ## 3. Gaps -/

/-- The gap from `next` up to and without `limit`, if there is one. -/
def gap (next limit : Nat) : List (Nat × Nat) := if next < limit then [(next, limit - 1)] else []

/-- The gaps that are written for ranges: before each range, from behind the one read before it, and
after the last one. -/
def gaps : (next : Nat) → List (Nat × Nat) → List (Nat × Nat)
  | next, [] => gap next 0x10000
  | next, (lo, hi) :: rest => gap next lo ++ gaps (hi + 1) rest

theorem inRanges_append (rs ss : List (Nat × Nat)) (n : Nat) :
    inRanges (rs ++ ss) n = (inRanges rs n || inRanges ss n) := List.any_append

theorem inRanges_gap {next limit n : Nat} :
    inRanges (gap next limit) n = true ↔ next ≤ n ∧ n < limit := by
  unfold gap
  split
  · simp only [inRanges, List.any_cons, List.any_nil, Bool.or_false, Bool.and_eq_true,
      decide_eq_true_eq]
    omega
  · simp only [inRanges_nil, Bool.false_eq_true, false_iff]
    omega

theorem inRanges_cons (lo hi n : Nat) (rs : List (Nat × Nat)) :
    inRanges ((lo, hi) :: rs) n = true ↔ (lo ≤ n ∧ n ≤ hi) ∨ inRanges rs n = true := by
  simp [inRanges]

/-- **The gaps miss no code point** of the basic plane, in whatever order the ranges come. -/
theorem inRanges_gaps_of_not {n : Nat} (hn : n ≤ 0xFFFF) : ∀ {next : Nat} (rs : List (Nat × Nat)),
    next ≤ n → inRanges rs n = false → inRanges (gaps next rs) n = true
  | next, [], hnext, _ => inRanges_gap.2 ⟨hnext, Nat.lt_succ_of_le hn⟩
  | next, (lo, hi) :: rs, hnext, hout => by
      have hhead : ¬(lo ≤ n ∧ n ≤ hi) ∧ inRanges rs n = false := by
        rw [← Bool.not_eq_true, inRanges_cons] at hout
        simpa using hout
      rw [gaps, inRanges_append, Bool.or_eq_true]
      by_cases hlo : n < lo
      · exact .inl (inRanges_gap.2 ⟨hnext, hlo⟩)
      · exact .inr (inRanges_gaps_of_not hn rs (by omega) hhead.2)

/-- Ranges that ascend: none begins, or ends, before one that comes earlier. They may overlap. -/
def Ascending (rs : List (Nat × Nat)) : Prop := rs.Pairwise fun r s => r.1 ≤ s.1 ∧ r.2 ≤ s.2

instance (rs : List (Nat × Nat)) : Decidable (Ascending rs) :=
  inferInstanceAs (Decidable (rs.Pairwise fun r s => r.1 ≤ s.1 ∧ r.2 ≤ s.2))

/-- The gaps of ascending ranges lie behind the place where they begin, and in no range. -/
theorem Ascending.of_inRanges_gaps {n : Nat} : ∀ {next : Nat} {rs : List (Nat × Nat)}, Ascending rs →
    (∀ r ∈ rs, next ≤ r.2 + 1) → inRanges (gaps next rs) n = true → next ≤ n ∧ inRanges rs n = false
  | next, [], _, _, hgap => ⟨(inRanges_gap.1 hgap).1, rfl⟩
  | next, (lo, hi) :: rs, hascend, hnext, hgap => by
      obtain ⟨hafter, hrest⟩ := List.pairwise_cons.1 hascend
      rw [gaps, inRanges_append, Bool.or_eq_true] at hgap
      rcases hgap with hgap | hgap
      · -- before the first range, and so before the others
        obtain ⟨hle, hlt⟩ := inRanges_gap.1 hgap
        refine ⟨hle, ?_⟩
        rw [← Bool.not_eq_true, inRanges_iff]
        rintro ⟨r, hr, hn, -⟩
        have hlo : lo ≤ r.1 := by
          rcases List.mem_cons.1 hr with rfl | hr
          · exact Nat.le_refl _
          · exact (hafter r hr).1
        omega
      · have hbehind : ∀ r ∈ rs, hi + 1 ≤ r.2 + 1 := fun r hr => Nat.succ_le_succ (hafter r hr).2
        obtain ⟨hle, hout⟩ := @Ascending.of_inRanges_gaps n (hi + 1) rs hrest hbehind hgap
        have hfirst : next ≤ hi + 1 := hnext (lo, hi) List.mem_cons_self
        refine ⟨by omega, ?_⟩
        rw [← Bool.not_eq_true, inRanges_cons]
        rintro (hn | hn)
        · omega
        · rw [hout] at hn
          cases hn

/-- **The gaps of ascending ranges are their complement** in the basic plane. -/
theorem Ascending.inRanges_gaps {rs : List (Nat × Nat)} (h : Ascending rs) {n : Nat}
    (hn : n ≤ 0xFFFF) : inRanges (gaps 0 rs) n = !inRanges rs n := by
  cases hin : inRanges rs n with
  | false => exact inRanges_gaps_of_not hn rs (Nat.zero_le n) hin
  | true =>
    rw [Bool.not_true, ← Bool.not_eq_true]
    intro hgap
    have hout := (h.of_inRanges_gaps (fun _ _ => Nat.zero_le _) hgap).2
    rw [hin] at hout
    cases hout

theorem dataPoint_pointText {n : Nat} (hn : n ≤ 0xFFFF) : DataPoint (pointText n) n := by
  have hdigits {c : Char} (hc : c ∈ hexText 4 n) := isHexDigit_of_mem_hexText hc
  have hread := readDigits_hexText 4 n
  have hlength : (hexText 4 n).length = 4 := length_hexText (by decide) (by omega)
  unfold pointText
  obtain ⟨a, b, c, d, heq⟩ : ∃ a b c d, hexText 4 n = [a, b, c, d] := by
    match hexText 4 n, hlength with
    | [a, b, c, d], _ => exact ⟨a, b, c, d, rfl⟩
  rw [heq] at hdigits hread ⊢
  rw [← hread]
  exact .unit (hdigits (by simp)) (hdigits (by simp)) (hdigits (by simp)) (hdigits (by simp))

theorem classData_gap {next limit : Nat} (hlimit : limit ≤ 0x10000) :
    ClassData (gapText next limit) (gap next limit) := by
  unfold gapText gap
  split
  · rename_i hlt
    have hnext : DataPoint (pointText next) next := dataPoint_pointText (by omega)
    split
    · have hlast : DataPoint (pointText (limit - 1)) (limit - 1) := dataPoint_pointText (by omega)
      have hrange := ClassData.nil.range hnext hlast (by omega)
      rwa [List.append_nil] at hrange
    · have hpoint := ClassData.nil.point hnext
      rw [List.append_nil] at hpoint
      rwa [show limit - 1 = next by omega]
  · exact .nil

/-- **What is written for the gaps** is class data. -/
theorem classData_gapsText : ∀ {next : Nat} {rs : List (Nat × Nat)},
    (∀ r ∈ rs, r.1 ≤ 0x10000) → ClassData (gapsText next rs) (gaps next rs)
  | _, [], _ => classData_gap (Nat.le_refl _)
  | _, (_, _) :: _, h =>
    (classData_gap (h _ List.mem_cons_self)).append
      (classData_gapsText fun r hr => h r (List.mem_cons_of_mem _ hr))

/-- **The complement of class data** is class data with the gaps of their ranges. -/
theorem ClassData.complementBmp {t : Text} {rs : List (Nat × Nat)} (h : ClassData t rs) :
    ClassData (complementBmp t) (gaps 0 rs) := by
  unfold ExtensibleRegex.complementBmp
  rw [h.classRanges_eq _ (Nat.le_refl _)]
  exact classData_gapsText fun r hr => by
    have := h.ordered r hr
    omega

end ExtensibleRegex
