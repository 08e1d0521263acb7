import ExtensibleRegex.Proofs.Combine.Pieces
import ExtensibleRegex.Proofs.Native.Members
import Mathlib.Tactic

/-!
# Patterns of both grammars

With flag `u` a pattern is read by the strict grammar. It refuses much of what the lenient grammar reads,
and has escapes of its own: code points in braces, properties and references by name. A tidy text holds
none of these. So what the strict grammar reads of a tidy text, the lenient grammar reads in the same way
(`lexeme?_of_strict`), and the words of a tidy text that the strict grammar accepts are words in both
(`fitsIn_of_lexAll?`).
-/

namespace ExtensibleRegex

open Native

variable {b : Bool} {c : Char} {cs : Text}

/-! ## 1. Escapes -/

/-- A character after a backslash that is kept is none that would not be. -/
theorem ne_of_isKept (h : isKept b c cs = true) {d : Char} (hd : isKept b d cs = false) : c ≠ d := by
  rintro rfl
  rw [h] at hd
  cases hd

theorem isKept_false_of_refused {d : Char} (h : d ∈ ['p', 'P', 'k']) : isKept b d cs = false := by
  simp only [List.mem_cons, List.not_mem_nil, or_false] at h
  rcases h with rfl | rfl | rfl <;> cases b <;> rfl

theorem setEscape?_of_isKept (h : isKept b c cs = true) :
    setEscape? true c cs = setEscape? false c cs := by
  have hp : c ≠ 'p' := ne_of_isKept h (isKept_false_of_refused (by decide))
  have hP : c ≠ 'P' := ne_of_isKept h (isKept_false_of_refused (by decide))
  simp [setEscape?, hp, hP]

/-- The grammars do not differ in an escape of one character that is kept. -/
theorem charEscape?_of_strict {r : Nat × Nat} (h : charEscape? true c cs = some r)
    (hkept : isKept b c cs = true) : charEscape? false c cs = some r := by
  unfold charEscape? at *
  split at h
  -- `\x` is refused without two digits
  case h_6 =>
    split at h
    · split at h
      · rename_i hhex
        rw [if_pos hhex]
        exact h
      · cases h
    · cases h
  -- `\u` is kept with four digits only, so there are no braces behind it
  case h_7 =>
    unfold unicodeEscape? at *
    have hfour : 4 ≤ leadingHexDigits cs := by
      unfold isKept at hkept
      rw [if_neg (by decide), if_pos rfl, decide_eq_true_eq] at hkept
      exact hkept
    cases hdigits : fourHex? cs with
    | none => exact absurd (fourHex?_eq_none hdigits) (Nat.not_lt_of_le hfour)
    | some n =>
      rw [hdigits] at h
      exact h
  case h_8 =>
    split at h
    · cases h
    · exact h
  all_goals exact h

/-- A zero that no digit follows is an octal escape of its own. -/
theorem octalLength_zero (h : (cs.headD ' ').isDigit = false) : octalLength '0' cs = 1 := by
  have hnone : (cs.take 2).takeWhile isOctalDigit = [] := by
    cases cs with
    | nil => rfl
    | cons d ds =>
      have hd : isOctalDigit d = false := by
        rw [← Bool.not_eq_true]
        intro hoctal
        rw [List.headD_cons, isDigit_of_isOctalDigit hoctal] at h
        cases h
      rw [List.take_succ_cons, List.takeWhile_cons_of_neg (by rw [hd]; exact Bool.false_ne_true)]
  show 1 + ((cs.take 2).takeWhile isOctalDigit).length = 1
  rw [hnone]
  rfl

theorem classEscape?_of_strict {r : ClassAtom × Nat} (h : classEscape? true true (c :: cs) = some r)
    (hkept : isKept true c cs = true) : classEscape? false false (c :: cs) = some r := by
  have hk : c ≠ 'k' := ne_of_isKept hkept (isKept_false_of_refused (by decide))
  simp only [classEscape?, ← setEscape?_of_isKept hkept] at h ⊢
  cases hset : setEscape? true c cs with
  | some found =>
    rw [hset] at h
    exact h
  | none =>
    rw [hset] at h
    simp only [hk, decide_false, Bool.false_and, Bool.false_eq_true, if_false, Bool.and_true,
      Bool.not_true, Bool.and_false, Bool.or_false, decide_eq_true_eq, Bool.not_false,
      Bool.true_and, if_true] at h ⊢
    by_cases hb : c = 'b'
    · rw [if_pos hb] at h ⊢
      exact h
    rw [if_neg hb] at h ⊢
    by_cases hdash : c = '-'
    · subst hdash
      exact h
    rw [if_neg hdash] at h
    by_cases hc : c = 'c'
    · rw [if_pos hc] at h ⊢
      cases cs with
      | nil => cases h
      | cons l ls =>
        simp only at h ⊢
        split at h
        · rename_i halpha
          rw [if_pos (by rw [halpha]; rfl)]
          exact h
        · cases h
    rw [if_neg hc] at h ⊢
    by_cases hdigit : c.isDigit = true
    · rw [if_pos hdigit] at h ⊢
      split at h
      · rename_i hzero
        simp only [Bool.and_eq_true, decide_eq_true_eq, Bool.not_eq_true'] at hzero
        obtain ⟨rfl, hhead⟩ := hzero
        rw [if_pos (by decide), octalLength_zero hhead]
        exact h
      · cases h
    rw [if_neg hdigit] at h ⊢
    obtain ⟨a, ha, hr⟩ := Option.map_eq_some_iff.1 h
    rw [charEscape?_of_strict ha hkept]
    exact congrArg some hr

theorem escape?_of_strict {r : Lexeme × Nat} (h : escape? true true (c :: cs) = some r)
    (hkept : isKept false c cs = true) : escape? false false (c :: cs) = some r := by
  have hk : c ≠ 'k' := ne_of_isKept hkept (isKept_false_of_refused (by decide))
  simp only [escape?, ← setEscape?_of_isKept hkept] at h ⊢
  cases hset : setEscape? true c cs with
  | some found =>
    rw [hset] at h
    exact h
  | none =>
    rw [hset] at h
    simp only [hk, decide_false, Bool.false_and, Bool.false_eq_true, if_false, if_true] at h ⊢
    by_cases hb : c = 'b'
    · rw [if_pos hb] at h ⊢
      exact h
    rw [if_neg hb] at h ⊢
    by_cases hB : c = 'B'
    · rw [if_pos hB] at h ⊢
      exact h
    rw [if_neg hB] at h ⊢
    by_cases hc : c = 'c'
    · rw [if_pos hc] at h ⊢
      cases cs with
      | nil => cases h
      | cons l ls =>
        simp only at h ⊢
        split at h
        · rename_i halpha
          rw [if_pos halpha]
          exact h
        · cases h
    rw [if_neg hc] at h ⊢
    by_cases hzero : c = '0'
    · rw [if_pos hzero] at h ⊢
      split at h
      · cases h
      · rename_i hhead
        rw [hzero, octalLength_zero (Bool.not_eq_true _ ▸ hhead)]
        exact h
    rw [if_neg hzero] at h ⊢
    by_cases hdigit : c.isDigit = true
    · rw [if_pos hdigit] at h ⊢
      exact h
    rw [if_neg hdigit] at h ⊢
    obtain ⟨a, ha, hr⟩ := Option.map_eq_some_iff.1 h
    rw [charEscape?_of_strict ha hkept]
    exact congrArg some hr

/-! ## 2. Classes -/

theorem rangeSets?_of_strict {x y : ClassAtom} {sets : List CodeSet}
    (h : rangeSets? true x y = some sets) : rangeSets? false x y = some sets := by
  unfold rangeSets? at *
  split at h
  · exact h
  · cases h

theorem assembleClass_of_strict : ∀ {atoms : List ClassAtom} {sets : List CodeSet},
    assembleClass true atoms = some sets → assembleClass false atoms = some sets
  | [], _, h => h
  | [_], _, h => h
  | [_, .hyphen], _, h => h
  | x :: .hyphen :: y :: rest, _, h => by
      rw [assembleClass_range] at h ⊢
      obtain ⟨range, hrange, h⟩ := Option.bind_eq_some_iff.1 h
      obtain ⟨sets, hsets, rfl⟩ := Option.map_eq_some_iff.1 h
      rw [rangeSets?_of_strict hrange, assembleClass_of_strict hsets]
      rfl
  | x :: .point n :: rest, _, h => by
      rw [assembleClass_cons (by simp)] at h ⊢
      obtain ⟨sets, hsets, rfl⟩ := Option.map_eq_some_iff.1 h
      rw [assembleClass_of_strict hsets]
      rfl
  | x :: .set members :: rest, _, h => by
      rw [assembleClass_cons (by simp)] at h ⊢
      obtain ⟨sets, hsets, rfl⟩ := Option.map_eq_some_iff.1 h
      rw [assembleClass_of_strict hsets]
      rfl

/-- The atoms of a class are the same in both grammars. -/
theorem classAtoms?_of_strict : ∀ (limit : Nat) (cs : Text) (taken : Nat) (atoms : List ClassAtom)
    (r : List ClassAtom × Nat), cs.length ≤ limit → tidy true cs = true →
    classAtoms? true true 0 cs taken atoms = some r → classAtoms? false false 0 cs taken atoms = some r
  | _, [], _, _, _, _, _, h => by simp [classAtoms?] at h
  | 0, _ :: _, _, _, _, hlimit, _, _ => absurd hlimit (Nat.not_succ_le_zero _)
  | limit + 1, c :: cs, taken, atoms, r, hlimit, htidy, h => by
      have hlength : cs.length ≤ limit := Nat.le_of_succ_le_succ hlimit
      simp only [classAtoms?] at h ⊢
      by_cases hclose : c = ']'
      · rw [if_pos hclose] at h ⊢
        exact h
      rw [if_neg hclose] at h ⊢
      by_cases hback : c = '\\'
      · rw [if_pos hback] at h ⊢
        subst hback
        cases cs with
        | nil => cases h
        | cons d ds =>
          rw [tidy_escape, Bool.and_eq_true] at htidy
          cases he : classEscape? true true (d :: ds) with
          | none => rw [he] at h; cases h
          | some a =>
            obtain ⟨atom, n⟩ := a
            have hlenient := classEscape?_of_strict he htidy.1
            rw [he] at h
            rw [hlenient]
            simp only at h ⊢
            rw [classAtoms?_skip] at h ⊢
            have hrest : tidy true ((d :: ds).drop n) = true := by
              rcases classEscape?_trail hlenient with ⟨rfl, rfl⟩ | ⟨k, rfl, -, htrail⟩
              · rw [List.drop_zero, tidy_plain rfl]
                exact htidy.2
              · have htrailed := htidy.2
                rw [← List.take_append_drop k ds] at htrailed
                exact tidy_trail htrail htrailed
            refine classAtoms?_of_strict limit _ _ _ r ?_ hrest h
            rw [List.length_drop]
            omega
      rw [if_neg hback] at h ⊢
      rw [tidy_other (b := true) hback (fun h => Bool.noConfusion h) fun _ => hclose] at htidy
      split at h
      · rename_i hdash
        rw [if_pos hdash]
        exact classAtoms?_of_strict limit cs _ _ r hlength htidy h
      · rename_i hdash
        rw [if_neg hdash]
        exact classAtoms?_of_strict limit cs _ _ r hlength htidy h

theorem class?_of_strict {r : Lexeme × Nat} (h : class? true true cs = some r)
    (htidy : tidy true cs = true) : class? false false cs = some r := by
  obtain ⟨negated, body, a, sets, hbody, ha, hsets, rfl⟩ := class?_eq_some_iff.1 h
  refine class?_eq_some_iff.2 ⟨negated, body, a, sets, hbody, ?_, assembleClass_of_strict hsets, rfl⟩
  refine classAtoms?_of_strict _ body _ _ a (Nat.le_refl _) ?_ ha
  rcases hbody with ⟨-, rfl, -⟩ | ⟨-, rfl⟩
  · exact htidy
  · rwa [tidy_plain rfl] at htidy

/-! ## 3. Words -/

/-- **What the strict grammar reads of a tidy text**, the lenient grammar reads in the same way. -/
theorem lexeme?_of_strict {r : Lexeme × Nat} (h : lexeme? true true c cs = some r)
    (htidy : tidy false (c :: cs) = true) : lexeme? false false c cs = some r := by
  unfold lexeme? at *
  split at h
  -- the classes, the characters of quantifiers and classes that the strict grammar refuses, the escapes
  case h_7 =>
    rw [tidy_open, Bool.and_eq_true] at htidy
    exact class?_of_strict h htidy.2
  case h_11 =>
    split at h
    · exact h
    · cases h
  case h_12 => cases h
  case h_13 => cases h
  case h_14 =>
    cases cs with
    | nil => cases h
    | cons d ds =>
      rw [tidy_escape, Bool.and_eq_true] at htidy
      exact escape?_of_strict h htidy.1
  all_goals exact h

/-- **The words of a tidy text are words in the strict grammar** if that accepts the text. -/
theorem fitsIn_of_lexAll? : ∀ {ws : List Word} {read ls : List Lexeme}, Fits ws →
    tidy false (write ws) = true → (∀ w ∈ ws, ∀ name, w.lexeme ≠ .opening (.capture (some name))) →
    lexAll? true true 0 (write ws) read = some ls → FitsIn true ws
  | [], _, _, _, _, _, _ => trivial
  | w :: ws, read, ls, hfits, htidy, hnames, h => by
      obtain ⟨c, cs, htext, hl⟩ := hfits.1.text_eq
      rw [write_cons, htext, List.cons_append] at htidy h
      simp only [lexAll?] at h
      cases hstrict : lexeme? true true c (cs ++ write ws) with
      | none => rw [hstrict] at h; cases h
      | some r =>
        rw [hstrict] at h
        obtain rfl := Option.some.inj (hl.symm.trans (lexeme?_of_strict hstrict htidy))
        simp only at h
        rw [lexAll?_skip, List.drop_left] at h
        rw [← List.cons_append, ← htext] at htidy
        have hrest := ((Form.of_fits hfits.1 (hnames w List.mem_cons_self)).firm htidy).2
        refine ⟨?_, fitsIn_of_lexAll? hfits.2 hrest
          (fun v hv => hnames v (List.mem_cons_of_mem w hv)) h⟩
        unfold Word.FitsIn
        rw [htext]
        exact hstrict

end ExtensibleRegex
