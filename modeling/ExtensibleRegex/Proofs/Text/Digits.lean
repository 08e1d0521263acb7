import ExtensibleRegex.Text.Ascii
import Mathlib.Tactic

/-!
# Written numbers

A number is written in decimal when a group is referred to, and in hexadecimal when a character is
escaped. What is written consists of digits, does not begin with a zero that could be left out, and
reads as the number again.
-/

namespace ExtensibleRegex

/-! ## 1. Digits -/

theorem isDigit_of_mem_decimalText {n : Nat} {c : Char} (h : c ∈ decimalText n) :
    c.isDigit = true := Nat.isDigit_of_mem_toDigits (by decide) (by decide) h

theorem hexValue_lt {c : Char} (h : isHexDigit c = true) : hexValue c < 16 := by
  simp only [isHexDigit, Char.isDigit, Bool.or_eq_true, Bool.and_eq_true, decide_eq_true_eq,
    Char.le_def, UInt32.le_iff_toNat_le] at h
  have hnat : c.val.toNat = c.toNat := rfl
  have h9 : ('9' : Char).val.toNat = 57 := rfl
  have ha : ('a' : Char).val.toNat = 97 := rfl
  have hf : ('f' : Char).val.toNat = 102 := rfl
  have hA : ('A' : Char).val.toNat = 65 := rfl
  have hF : ('F' : Char).val.toNat = 70 := rfl
  unfold hexValue
  simp only [Char.isDigit, Bool.and_eq_true, decide_eq_true_eq, Char.le_def,
    UInt32.le_iff_toNat_le]
  split_ifs <;> simp_all <;> omega

theorem isHexDigit_of_mem_toDigits : ∀ (n : Nat) {c : Char}, c ∈ Nat.toDigits 16 n →
    isHexDigit c = true := by
  intro n
  induction n using Nat.strongRecOn with
  | ind n ih =>
    intro c hc
    by_cases hn : n < 16
    · rw [Nat.toDigits_of_lt_base hn, List.mem_singleton] at hc
      rw [hc]
      exact (by decide : ∀ m < 16, isHexDigit m.digitChar = true) n hn
    · rw [Nat.toDigits_of_base_le (by decide) (Nat.le_of_not_lt hn), List.mem_append,
        List.mem_singleton] at hc
      rcases hc with hc | rfl
      · exact ih (n / 16) (Nat.div_lt_self (by omega) (by decide)) hc
      · exact (by decide : ∀ m < 16, isHexDigit m.digitChar = true) _ (Nat.mod_lt _ (by decide))

theorem isHexDigit_of_mem_hexText {width n : Nat} {c : Char} (h : c ∈ hexText width n) :
    isHexDigit c = true := by
  unfold hexText at h
  rcases List.mem_append.1 h with h | h
  · rw [List.eq_of_mem_replicate h]
    rfl
  · exact isHexDigit_of_mem_toDigits n h

/-- A number that fits into the width takes just this width. -/
theorem length_hexText {width n : Nat} (hwidth : 0 < width) (hn : n < 16 ^ width) :
    (hexText width n).length = width := by
  have hle := (Nat.length_toDigits_le_iff (b := 16) (by decide) hwidth).2 hn
  simp only [hexText, List.length_append, List.length_replicate]
  omega

/-! ## 2. Decimal numbers -/

theorem decimalText_ne_nil (n : Nat) : decimalText n ≠ [] := Nat.toDigits_ne_nil

/-- A number that is not zero does not begin with one. -/
theorem head?_decimalText : ∀ {n : Nat}, 0 < n → (decimalText n).head? ≠ some '0' := by
  intro n
  induction n using Nat.strongRecOn with
  | ind n ih =>
    intro hpos
    unfold decimalText
    by_cases hn : n < 10
    · rw [Nat.toDigits_of_lt_base hn, List.head?_cons]
      exact (by decide : ∀ m < 10, 0 < m → some m.digitChar ≠ some '0') n hn hpos
    · have hdiv : 0 < n / 10 := Nat.div_pos (Nat.le_of_not_lt hn) (by decide)
      have hrest := ih (n / 10) (Nat.div_lt_self hpos (by decide)) hdiv
      have hne : Nat.toDigits 10 (n / 10) ≠ [] := Nat.toDigits_ne_nil
      obtain ⟨d, ds, hds⟩ := List.exists_cons_of_ne_nil hne
      unfold decimalText at hrest
      rw [Nat.toDigits_of_base_le (by decide) (Nat.le_of_not_lt hn), hds]
      rw [hds] at hrest
      exact hrest

theorem readDigits_append (base : Nat) (s : Text) (c : Char) :
    readDigits base (s ++ [c]) = readDigits base s * base + hexValue c := by
  simp [readDigits]

/-- **A number reads as what it was written for.** -/
theorem readDigits_decimalText : ∀ n : Nat, readDigits 10 (decimalText n) = n := by
  intro n
  induction n using Nat.strongRecOn with
  | ind n ih =>
    have hdigit : ∀ m < 10, hexValue m.digitChar = m := by decide
    unfold decimalText at ih ⊢
    by_cases hn : n < 10
    · rw [Nat.toDigits_of_lt_base hn]
      have hone : readDigits 10 [n.digitChar] = 0 * 10 + hexValue n.digitChar := rfl
      rw [hone, hdigit n hn]
      omega
    · rw [Nat.toDigits_of_base_le (by decide) (Nat.le_of_not_lt hn), readDigits_append,
        ih (n / 10) (Nat.div_lt_self (by omega) (by decide)), hdigit _ (Nat.mod_lt _ (by decide))]
      omega

/-- A number that does not begin with zero is not zero. -/
theorem readDigits_pos {t : Text} (hdigits : ∀ c ∈ t, c.isDigit = true) (hne : t ≠ [])
    (hzero : t.head? ≠ some '0') : 0 < readDigits 10 t := by
  obtain ⟨d, ds, rfl⟩ := List.exists_cons_of_ne_nil hne
  have hgrows : ∀ (cs : Text) (n : Nat), 0 < n → 0 < cs.foldl (fun n c => n * 10 + hexValue c) n := by
    intro cs
    induction cs with
    | nil => exact fun n hn => hn
    | cons c cs ih => exact fun n hn => ih _ (Nat.add_pos_left (Nat.mul_pos hn (by decide)) _)
  have hd : d.isDigit = true := hdigits d List.mem_cons_self
  have hbounds : 48 ≤ d.toNat ∧ d.toNat ≠ 48 := by
    have h := hd
    simp only [Char.isDigit, Bool.and_eq_true, decide_eq_true_eq] at h
    exact ⟨UInt32.le_iff_toNat_le.1 h.1, fun heq => hzero (by
      rw [List.head?_cons, show d = '0' from Char.toNat_inj.1 heq])⟩
  have hvalue : hexValue d = d.toNat - 48 := if_pos hd
  refine hgrows ds (0 * 10 + hexValue d) ?_
  omega

/-- Decimal digits read as the number that they denote. -/
theorem readDigits_eq_ofDigitChars {t : Text} (h : ∀ d ∈ t, d.isDigit = true) :
    readDigits 10 t = Nat.ofDigitChars 10 t 0 := by
  refine List.foldl_ext _ _ _ fun n d hd => ?_
  rw [hexValue, if_pos (h d hd), Nat.mul_comm]
  rfl

/-! ## 3. Hexadecimal numbers -/

theorem readDigits_replicate (n : Nat) (t : Text) :
    readDigits 16 (List.replicate n '0' ++ t) = readDigits 16 t := by
  induction n with
  | zero => rfl
  | succ n ih => exact ih

theorem readDigits_toDigits : ∀ n : Nat, readDigits 16 (Nat.toDigits 16 n) = n := by
  intro n
  induction n using Nat.strongRecOn with
  | ind n ih =>
    have hdigit : ∀ m < 16, hexValue m.digitChar = m := by decide
    by_cases hn : n < 16
    · rw [Nat.toDigits_of_lt_base hn]
      have hone : readDigits 16 [n.digitChar] = 0 * 16 + hexValue n.digitChar := rfl
      rw [hone, hdigit n hn]
      omega
    · rw [Nat.toDigits_of_base_le (by decide) (Nat.le_of_not_lt hn), readDigits_append,
        ih (n / 16) (Nat.div_lt_self (by omega) (by decide)), hdigit _ (Nat.mod_lt _ (by decide))]
      omega

/-- A hexadecimal number reads as what it was written for. -/
theorem readDigits_hexText (width n : Nat) : readDigits 16 (hexText width n) = n :=
  (readDigits_replicate _ _).trans (readDigits_toDigits n)

end ExtensibleRegex
