import ExtensibleRegex.Proofs.Combine.Pieces
import ExtensibleRegex.Proofs.Native.Escaped
import Mathlib.Tactic

/-!
# Escaped texts

A text that is to be matched literally is escaped character by character. Each character becomes a
word of its own, which is the literal of that character whatever stands behind it.
-/

namespace ExtensibleRegex

open Native

/-- An escaped character as a word. -/
def literalWord (c : Char) : Word := ⟨escapeChar c, .literal c.toNat⟩

theorem write_literals (t : Text) : write (t.map literalWord) = escape t := by
  rw [write, List.flatMap_map]
  rfl

/-- An escaped character is read as its literal before every text. -/
theorem fits_literalWord {strict : Bool} (c : Char) (rest : Text) :
    (literalWord c).FitsIn strict rest := by
  obtain ⟨d, ds, hds, hlexeme⟩ := @lexeme?_escapeChar strict strict c rest
  unfold Word.FitsIn literalWord
  rw [hds]
  exact hlexeme

theorem firm_literalWord (c : Char) : Firm (literalWord c) := by
  have hstill : Still (.literal c.toNat) := ⟨nofun, nofun⟩
  have hhex {width n : Nat} (hwidth : 0 < width) (hn : n < 16 ^ width) :
      leadingHexDigits (hexText width n) = width := by
    unfold leadingHexDigits
    rw [List.takeWhile_eq_self_iff.2 fun d hd => isHexDigit_of_mem_hexText hd,
      length_hexText hwidth hn]
  have htrail (width n : Nat) : Trail (hexText width n) :=
    .inl fun d hd => isPlain_of_isHexDigit (isHexDigit_of_mem_hexText hd)
  unfold literalWord escapeChar
  split
  · rename_i hmeta
    simp only [isSyntaxChar, List.mem_cons, decide_eq_true_eq, List.not_mem_nil, or_false] at hmeta
    rcases hmeta with rfl | rfl | rfl | rfl | rfl | rfl | rfl | rfl | rfl | rfl | rfl | rfl | rfl |
      rfl | rfl
    all_goals exact .escape hstill (fun h => absurd h (by decide)) trail_nil rfl
  split
  · rename_i hspecial
    have hcode := toNat_of_escaped hspecial
    split
    · rename_i hsmall
      refine .escape hstill (fun h => absurd h (by decide)) (htrail 2 _) ?_
      exact decide_eq_true (hhex (by decide) (by omega)).ge
    · refine .escape hstill (fun h => absurd h (by decide)) (htrail 4 _) ?_
      exact decide_eq_true (hhex (by decide) (by omega)).ge
  · rename_i hmeta _
    refine .plain hstill (.inl ?_) nofun
    simp only [isPlain, Bool.and_eq_true, bne_iff_ne]
    refine ⟨⟨⟨?_, ?_⟩, ?_⟩, ?_⟩ <;> rintro rfl <;> exact hmeta rfl

theorem fits_literals {strict : Bool} : ∀ t : Text, FitsIn strict (t.map literalWord)
  | [] => trivial
  | c :: t => ⟨fits_literalWord c _, fits_literals t⟩

end ExtensibleRegex
