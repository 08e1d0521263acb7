import ExtensibleRegex.Proofs.Expansion.Groups
import Mathlib.Tactic

/-!
# Native patterns that are read as they stand

What a fresh dialect writes holds no escape that its own tokens would refuse or write in another
way, and no empty class. A text like that is `tidy`, and this file shows

* that what is written for a pattern is tidy (`Reads.tidy_render`), if the flag `u` is not there
  to let code point escapes through;
* that leaving out repeated empty groups keeps it so (`tidy_merged`).
-/

namespace ExtensibleRegex

open Native

/-! ## 1. Tidy texts -/

/-- Whether an escape of `c` before `cs` is copied by the built-in tokens, or a number. In a class
the only number is a zero. -/
def isKept (inClass : Bool) (c : Char) (cs : Text) : Bool :=
  if c.isDigit then !inClass || (c == '0' && !cs.head?.any Char.isDigit)
  else if c = 'u' then 4 ≤ leadingHexDigits cs
  else if c = 'x' then 2 ≤ leadingHexDigits cs
  else if c = 'c' then cs.head?.any Char.isAlpha
  else !Trigger.refusedSet.contains c.toNat || (c == 'B' && !inClass)

/-- Whether a class is empty or the complement of an empty one, after its opening bracket. -/
def isBare (cs : Text) : Bool := cs.head? == some ']' || cs.take 2 == ['^', ']']

/-- Whether all escapes of a text are kept, and no class of it is bare. -/
def tidy : (inClass : Bool) → Text → Bool
  | _, [] => true
  | _, ['\\'] => true
  | inClass, '\\' :: c :: cs => isKept inClass c cs && tidy inClass cs
  | inClass, c :: cs =>
    if c = '[' && !inClass then !isBare cs && tidy true cs
    else if c = ']' && inClass then tidy false cs
    else tidy inClass cs

theorem tidy_escape (b : Bool) (c : Char) (cs : Text) :
    tidy b ('\\' :: c :: cs) = (isKept b c cs && tidy b cs) := rfl

theorem tidy_open (cs : Text) : tidy false ('[' :: cs) = (!isBare cs && tidy true cs) := by
  simp [tidy]

theorem tidy_close (cs : Text) : tidy true (']' :: cs) = tidy false cs := by
  simp [tidy]

theorem tidy_other {b : Bool} {c : Char} (hescape : c ≠ '\\') (hopen : b = false → c ≠ '[')
    (hclose : b = true → c ≠ ']') (cs : Text) : tidy b (c :: cs) = tidy b cs := by
  cases b with
  | false => simp [tidy, hescape, hopen rfl]
  | true => simp [tidy, hescape, hclose rfl]

theorem tidy_plain {b : Bool} {c : Char} (h : isPlain c = true) (cs : Text) :
    tidy b (c :: cs) = tidy b cs := by
  simp only [isPlain, Bool.and_eq_true, bne_iff_ne, ne_eq] at h
  exact tidy_other h.1.1.1 (fun _ => h.1.1.2) (fun _ => h.1.2) cs

theorem tidy_append {b : Bool} (cs : Text) : ∀ {w : Text}, (∀ c ∈ w, isPlain c = true) →
    tidy b (w ++ cs) = tidy b cs
  | [], _ => rfl
  | c :: w, h => by
      rw [List.cons_append, tidy_plain (h c List.mem_cons_self)]
      exact tidy_append cs fun d hd => h d (List.mem_cons_of_mem _ hd)

theorem tidy_emptyGroup (b : Bool) (cs : Text) : tidy b (emptyGroup ++ cs) = tidy b cs := by
  show tidy b ('(' :: (['?', ':', ')'] ++ cs)) = _
  rw [tidy_other (by decide) (fun _ => by decide) (fun _ => by decide)]
  exact tidy_append cs (List.all_eq_true.1 rfl)

theorem isKept_of_isDigit {c : Char} (h : c.isDigit = true) (cs : Text) :
    isKept false c cs = true := by
  simp [isKept, h]

/-- An escape and plain characters after it. -/
theorem tidy_escape_append {b : Bool} {c : Char} {w cs : Text} (hc : isKept b c (w ++ cs) = true)
    (hw : ∀ d ∈ w, isPlain d = true) : tidy b ('\\' :: c :: w ++ cs) = tidy b cs := by
  show tidy b ('\\' :: c :: (w ++ cs)) = _
  rw [tidy_escape, hc, Bool.true_and, tidy_append cs hw]

theorem tidy_anyCharacter (cs : Text) : tidy false ("[\\s\\S]".toList ++ cs) = tidy false cs := by
  show tidy false ('[' :: '\\' :: 's' :: '\\' :: 'S' :: ']' :: cs) = _
  have hs : isKept true 's' ('\\' :: 'S' :: ']' :: cs) = true := rfl
  have hS : isKept true 'S' (']' :: cs) = true := rfl
  rw [tidy_open, tidy_escape, tidy_escape, tidy_close, hs, hS]
  rfl

theorem tidy_boundaries (cs : Text) : tidy false ("\\b\\B".toList ++ cs) = tidy false cs := by
  show tidy false ('\\' :: 'b' :: '\\' :: 'B' :: cs) = _
  have hb : isKept false 'b' ('\\' :: 'B' :: cs) = true := rfl
  have hB : isKept false 'B' cs = true := rfl
  rw [tidy_escape, tidy_escape, hb, hB]
  rfl

theorem tidy_separator (behind ahead flags cs : Text) :
    tidy false (Reader.separator behind ahead flags ++ cs) = tidy false cs := by
  unfold Reader.separator
  split
  · rfl
  · exact tidy_emptyGroup false cs

/-! ## 2. What tokens write -/

namespace Reader

variable {r : Reader} {scope : Scope} {ledger : Ledger} {behind t : Text} {piece : Segment} {n : Nat}

/-- An escape that a token writes is kept, also before a text that begins as the one read does. -/
theorem tidy_of_escape (hu : r.flags.contains 'u' = false)
    (h : r.escape scope ledger t = .ok (some (piece, n))) {next : Text}
    (hnext : scope = .charClass → next.head? = (t.drop n).head?) :
    ∃ w, piece = .written ('\\' :: w) ∧
      tidy (scope = .charClass) ('\\' :: w ++ next) = tidy (scope = .charClass) next := by
  cases of_escape h with
  | @number w rest ne_nil isDigit ends stands read =>
    obtain ⟨d, ds, rfl⟩ := List.exists_cons_of_ne_nil ne_nil
    refine ⟨d :: ds, rfl, tidy_escape_append ?_ fun c hc =>
      isPlain_of_isDigit (isDigit c (List.mem_cons_of_mem _ hc))⟩
    have hd := isDigit d List.mem_cons_self
    cases scope with
    | pattern => exact isKept_of_isDigit hd _
    | charClass =>
      rcases stands with ⟨hscope, -⟩ | hzero
      · cases hscope
      · cases hzero
        have hhead : next.head?.any Char.isDigit = false := by
          rw [hnext rfl, read]
          exact ends
        simp [isKept, hhead]
  | @name w rest m isNameChar scope_eq =>
    subst scope_eq
    obtain ⟨d, ds, hds⟩ := List.exists_cons_of_ne_nil (decimalText_ne_nil m)
    have hdigits : ∀ c ∈ d :: ds, c.isDigit = true := fun c hc =>
      isDigit_of_mem_decimalText (n := m) (by rw [hds]; exact hc)
    refine ⟨decimalText m ++ (if rest.head?.any Char.isDigit = true then emptyGroup else []), rfl, ?_⟩
    rw [hds]
    generalize hgroup : (if rest.head?.any Char.isDigit = true then emptyGroup else []) = apart
    have hapart : tidy false (apart ++ next) = tidy false next := by
      rw [← hgroup]
      split
      · exact tidy_emptyGroup false next
      · rfl
    have hassoc : '\\' :: (d :: ds ++ apart) ++ next = '\\' :: d :: ds ++ (apart ++ next) := by simp
    rw [hassoc]
    refine (tidy_escape_append (isKept_of_isDigit (hdigits d List.mem_cons_self) _) fun c hc =>
      isPlain_of_isDigit (hdigits c (List.mem_cons_of_mem _ hc))).trans hapart
  | @unit w rest isHexDigit small =>
    refine ⟨'u' :: hexText 4 (readDigits 16 w), rfl, tidy_escape_append ?_ fun c hc =>
      isPlain_of_isHexDigit (isHexDigit_of_mem_hexText hc)⟩
    have hlength : (hexText 4 (readDigits 16 w)).length = 4 :=
      length_hexText (by decide) (Nat.lt_succ_of_le small)
    have hhex : 4 ≤ leadingHexDigits (hexText 4 (readDigits 16 w) ++ next) := by
      unfold leadingHexDigits
      rw [List.takeWhile_append_of_pos fun c hc => isHexDigit_of_mem_hexText hc,
        List.length_append, hlength]
      exact Nat.le_add_right 4 _
    show isKept _ 'u' _ = true
    simp [isKept, hhex]
  | point _ unicode =>
    rw [hu] at unicode
    cases unicode
  | inside scope_eq =>
    subst scope_eq
    exact ⟨['B'], rfl, tidy_escape_append (w := []) rfl (List.forall_mem_nil _)⟩

theorem tidy_of_parenthesis (h : r.parenthesis ledger behind t = .ok (some (piece, n)))
    (next : Text) : tidy false (piece.text ++ next) = tidy false next := by
  have hparen (cs : Text) : tidy false ('(' :: cs) = tidy false cs :=
    tidy_other (by decide) (fun _ => by decide) (fun _ => by decide) cs
  unfold parenthesis at h
  split at h
  · split at h
    · cases h
      show tidy false ('(' :: (['?', ':'] ++ next)) = _
      rw [hparen]
      exact tidy_append next (List.all_eq_true.1 rfl)
    · cases h
      exact hparen next
  split at h
  · simp only at h
    split at h
    · cases h
    split at h
    · cases h
    split at h
    · cases h
    · cases h
      exact hparen next
  split at h
  · cases h
    exact tidy_separator _ _ _ next
  split at h
  · cases h
  · cases h

/-- **What a token writes is tidy.** -/
theorem tidy_of_token? (hu : r.flags.contains 'u' = false)
    (h : r.token? scope ledger behind t = .ok (some (piece, n))) (next : Text)
    (hnext : scope = .charClass → next.head? = (t.drop n).head?) :
    tidy (scope = .charClass) (piece.text ++ next) = tidy (scope = .charClass) next ∧
      piece.scopeAfter scope = scope ∧ (scope = .charClass → piece.text.head? = t.head?) := by
  unfold token? at h
  split at h
  · rename_i hback
    obtain ⟨w, rfl, hw⟩ := tidy_of_escape hu h hnext
    exact ⟨hw, rfl, fun _ => hback.symm⟩
  split at h
  · cases h
  split at h
  · refine ⟨tidy_of_parenthesis h next, ?_, nofun⟩
    rcases unmarked_of_parenthesis h with ⟨name, rfl⟩ | ⟨w, rfl, -⟩
    · rfl
    · rfl
  split at h
  · unfold bareClass at h
    split at h
    · cases h
      refine ⟨?_, rfl, nofun⟩
      show tidy false ((if _ then _ else _) ++ next) = _
      split
      · exact tidy_boundaries next
      · exact tidy_anyCharacter next
    · cases h
  split at h
  · unfold dot at h
    split at h
    · cases h
      exact ⟨tidy_anyCharacter next, rfl, nofun⟩
    · cases h
  · unfold blank at h
    split at h
    · cases h
      exact ⟨tidy_separator _ _ _ next, rfl, nofun⟩
    · cases h

end Reader

/-! ## 3. What is copied -/

theorem le_leadingHexDigits_take {m : Nat} {cs : Text} (h : m ≤ leadingHexDigits cs) (next : Text) :
    m ≤ leadingHexDigits (cs.take m ++ next) := by
  have hlength : m ≤ cs.length := h.trans (length_takeWhile_le isHexDigit cs)
  unfold leadingHexDigits
  rw [List.takeWhile_append_of_pos fun c hc => mem_take_of_takeWhile h hc, List.length_append,
    List.length_take, Nat.min_eq_left hlength]
  exact Nat.le_add_right m _

theorem bracedHex_of_codePoint {cs : Text} (h : Trigger.codePoint ('\\' :: 'u' :: cs) = none) :
    Trigger.bracedHex cs = false := by
  unfold Trigger.bracedHex
  split
  · rename_i rest
    have hnone : Extent.enclosed 3 isHexDigit '\x7d' rest = none := h
    simp only [Extent.enclosed] at hnone
    split at hnone
    · cases hnone
    · rename_i hcond
      simpa using hcond
  · rfl

theorem isDigit_of_isOctalDigit {c : Char} (h : isOctalDigit c = true) : c.isDigit = true := by
  simp only [isOctalDigit, Bool.and_eq_true, decide_eq_true_eq] at h
  simp only [Char.isDigit, Bool.and_eq_true, decide_eq_true_eq]
  exact ⟨h.1, UInt32.le_trans h.2 (by decide)⟩

/-- An escape that no token takes begins with a character that is kept. -/
theorem of_escape_none {r : Reader} {scope : Scope} {ledger : Ledger} {c : Char} {cs : Text}
    (h : r.escape scope ledger ('\\' :: c :: cs) = .ok none) :
    c.isDigit = false ∧ Trigger.codePoint ('\\' :: c :: cs) = none ∧
      Trigger.isRefused c cs = false := by
  cases Reader.of_escape h with
  | untaken numbered namedRef codePoint refuse =>
    refine ⟨?_, codePoint, ?_⟩
    · by_contra hdigit
      rw [Bool.not_eq_false] at hdigit
      simp [Trigger.numbered, hdigit] at numbered
    · by_contra hrefused
      rw [Bool.not_eq_false] at hrefused
      simp [Trigger.refuse, hrefused] at refuse

/-- Such an escape is copied with all that it is kept for. -/
theorem isKept_copied (scope : Scope) {c : Char} {cs : Text} (hdigit : c.isDigit = false)
    (hpoint : Trigger.codePoint ('\\' :: c :: cs) = none) (hrefused : Trigger.isRefused c cs = false)
    (next : Text) : ∃ k, escapeLength scope (c :: cs) = k + 1 ∧ (∀ d ∈ cs.take k, isPlain d = true) ∧
      ∀ b, isKept b c (cs.take k ++ next) = true := by
  obtain ⟨k, hk, hplain⟩ := escapeLength_cons scope c cs
  refine ⟨k, hk, hplain, fun b => ?_⟩
  have hletter : escapeLength scope (c :: cs) = escapeLength.letterLength c cs := by
    have hzero : c ≠ '0' := by rintro rfl; cases hdigit
    have hoctal : isOctalDigit c = false := by
      by_contra hoctal
      rw [Bool.not_eq_false] at hoctal
      rw [isDigit_of_isOctalDigit hoctal] at hdigit
      cases hdigit
    cases scope <;> simp [escapeLength, hzero, hdigit, hoctal]
  rw [hletter] at hk
  simp only [Trigger.isRefused, Bool.or_eq_false_iff] at hrefused
  obtain ⟨hset, hc, hu, hx⟩ := hrefused
  unfold isKept
  rw [hdigit, if_neg Bool.false_ne_true]
  by_cases hcu : c = 'u'
  · subst hcu
    have hhex : 4 ≤ leadingHexDigits cs := by
      rw [bracedHex_of_codePoint hpoint] at hu
      simpa [leadingHexDigits] using hu
    have hfour : escapeLength.letterLength 'u' cs = 5 := by simp [escapeLength.letterLength, hhex]
    have hk4 : k = 4 := by omega
    rw [if_pos rfl, hk4, decide_eq_true_eq]
    exact le_leadingHexDigits_take hhex next
  rw [if_neg hcu]
  by_cases hcx : c = 'x'
  · subst hcx
    have hhex : 2 ≤ leadingHexDigits cs := by simpa [leadingHexDigits] using hx
    have htwo : escapeLength.letterLength 'x' cs = 3 := by simp [escapeLength.letterLength, hhex]
    have hk2 : k = 2 := by omega
    rw [if_pos rfl, hk2, decide_eq_true_eq]
    exact le_leadingHexDigits_take hhex next
  rw [if_neg hcx]
  by_cases hcc : c = 'c'
  · subst hcc
    have halpha : cs.head?.any Char.isAlpha = true := by simpa using hc
    have hone : escapeLength.letterLength 'c' cs = 2 := by simp [escapeLength.letterLength, halpha]
    have hk1 : k = 1 := by omega
    rw [if_pos rfl, hk1]
    cases cs with
    | nil => cases halpha
    | cons l ls => exact halpha
  · rw [if_neg hcc, hset]
    rfl

namespace Reader

variable {r : Reader} {scope : Scope} {ledger : Ledger} {behind t : Text} {pieces : List Segment}

/-- What is written for a text in a class begins as the text does. -/
theorem Reads.head?_class (hu : r.flags.contains 'u' = false)
    (h : r.Reads .charClass ledger behind t pieces) : (render pieces).head? = t.head? := by
  cases h with
  | nil => rfl
  | @cons _ _ _ _ piece n pieces hne hpos hfirst hrest =>
    obtain ⟨c, cs, rfl⟩ := List.exists_cons_of_ne_nil hne
    have htext : piece.text.head? = some c := by
      rcases segment_eq_ok hfirst with htoken | ⟨-, rfl, rfl⟩
      · exact (tidy_of_token? hu htoken ((c :: cs).drop n) fun _ => rfl).2.2 rfl
      · obtain ⟨k, hk⟩ := Nat.exists_eq_add_of_lt hpos
        rw [hk]
        rfl
    obtain ⟨w, hw⟩ := List.head?_eq_some_iff.1 htext
    show (piece.text ++ render pieces).head? = _
    rw [hw]
    rfl

/-- A class is bare when it was read as a bare one. -/
theorem Reads.isBare_class (hu : r.flags.contains 'u' = false)
    (h : r.Reads .charClass ledger behind t pieces) : isBare (render pieces) = isBare t := by
  have hhead := h.head?_class hu
  by_cases hcaret : t.head? = some '^'
  · cases h with
    | nil => rfl
    | @cons _ _ _ _ piece n pieces hne hpos hfirst hrest =>
      obtain ⟨cs, rfl⟩ := List.head?_eq_some_iff.1 hcaret
      have htoken : r.token? .charClass ledger behind ('^' :: cs) = .ok none := rfl
      unfold segment at hfirst
      rw [htoken] at hfirst
      cases hfirst
      have hsecond := hrest.head?_class hu
      show isBare ('^' :: render pieces) = isBare ('^' :: cs)
      have hdrop : ('^' :: cs).drop (verbatimLength .charClass ('^' :: cs)) = cs := rfl
      rw [hdrop] at hsecond
      have hbare (x : Text) : isBare ('^' :: x) = (x.head? == some ']') := by
        cases x with
        | nil => rfl
        | cons d x => simp [isBare]
      rw [hbare, hbare, hsecond]
  · have hbare {x : Text} (hx : x.head? ≠ some '^') : isBare x = (x.head? == some ']') := by
      cases x with
      | nil => rfl
      | cons c x =>
        have hc : c ≠ '^' := fun hc => hx (by rw [hc]; rfl)
        simp [isBare, hc]
    rw [hbare hcaret, hbare (by rw [hhead]; exact hcaret), hhead]

theorem isBare_of_bareClass {cs : Text} (h : bareClass ('[' :: cs) = .ok none) :
    isBare cs = false := by
  have hnone : Trigger.bareClass ('[' :: cs) = none := by
    unfold bareClass at h
    split at h
    · cases h
    · assumption
  rcases cs with _ | ⟨c, _ | ⟨d, cs⟩⟩
  · rfl
  · have hc : c ≠ ']' := by rintro rfl; cases hnone
    simp [isBare, hc]
  · have hc : c ≠ ']' := by rintro rfl; cases hnone
    have hd : ¬(c = '^' ∧ d = ']') := by rintro ⟨rfl, rfl⟩; cases hnone
    simp [isBare, hc]
    exact fun hcaret hclose => hd ⟨hcaret, hclose⟩

/-- **What is written for a pattern is tidy.** -/
theorem Reads.tidy_render (hu : r.flags.contains 'u' = false)
    (h : r.Reads scope ledger behind t pieces) : tidy (scope = .charClass) (render pieces) = true := by
  induction h with
  | nil => rfl
  | @cons scope ledger behind t piece n pieces hne hpos hfirst hrest ih =>
    show tidy _ (piece.text ++ render pieces) = true
    rcases segment_eq_ok hfirst with htoken | ⟨hnone, rfl, rfl⟩
    · have hhead : scope = .charClass → (render pieces).head? = (t.drop n).head? := by
        rintro rfl
        rw [(tidy_of_token? hu htoken (t.drop n) fun _ => rfl).2.1] at hrest
        exact hrest.head?_class hu
      obtain ⟨htidy, hscope, -⟩ := tidy_of_token? hu htoken _ hhead
      rw [hscope] at ih
      rw [htidy]
      exact ih
    · obtain ⟨c, cs, rfl⟩ := List.exists_cons_of_ne_nil hne
      have hone : (c :: cs).take 1 = [c] := rfl
      by_cases hescape : c = '\\'
      · subst hescape
        have hlength : verbatimLength scope ('\\' :: cs) = escapeLength scope cs + 1 := by
          cases scope <;> simp [verbatimLength, Nat.add_comm]
        have hscope (w : Text) : Run.scopeAfter scope ('\\' :: w) = scope := by
          cases scope <;> simp [Run.scopeAfter]
        simp only [Segment.scopeAfter, Segment.text, hlength, List.take_succ_cons, hscope] at ih ⊢
        cases cs with
        | nil =>
          have hdrop : ['\\'].drop (verbatimLength scope ['\\']) = [] := by cases scope <;> rfl
          rw [hdrop] at hrest
          cases hrest with
          | nil => rfl
          | cons hne' => exact absurd rfl hne'
        | cons d ds =>
          have hnone' : r.escape scope ledger ('\\' :: d :: ds) = .ok none := by
            simpa [token?] using hnone
          obtain ⟨hdigit, hpoint, hrefused⟩ := of_escape_none hnone'
          obtain ⟨k, hk, hplain, hkept⟩ :=
            isKept_copied scope hdigit hpoint hrefused (render pieces)
          rw [hk, List.take_succ_cons, tidy_escape_append (hkept _) hplain]
          exact ih
      · cases scope with
        | charClass =>
          have hlength : verbatimLength .charClass (c :: cs) = 1 := by simp [verbatimLength]
          simp only [Segment.scopeAfter, Segment.text, hlength, hone] at ih ⊢
          show tidy true (c :: render pieces) = true
          by_cases hclose : c = ']'
          · subst hclose
            rw [tidy_close]
            exact ih
          · rw [tidy_other (b := true) hescape (fun h => absurd h (by decide)) fun _ => hclose]
            have hscope : Run.scopeAfter .charClass [c] = .charClass := by
              simp [Run.scopeAfter, hclose]
            rw [hscope] at ih
            exact ih
        | pattern =>
          obtain ⟨w, hw, hplain, hmore⟩ := plain_verbatim c cs hescape
          simp only [Segment.scopeAfter, Segment.text, hw] at ih hrest ⊢
          by_cases hopen : c = '['
          · have hnil : w = [] := by
              by_contra hne'
              exact (hmore hne').1 hopen
            subst hnil hopen
            show tidy false ('[' :: render pieces) = true
            rw [tidy_open]
            have hlength : verbatimLength .pattern ('[' :: cs) = 1 := by simp [verbatimLength]
            have hdrop : ('[' :: cs).drop (verbatimLength .pattern ('[' :: cs)) = cs := by
              rw [hlength]
              rfl
            rw [hdrop] at hrest
            have hbare : isBare (render pieces) = false := by
              rw [Reads.isBare_class hu hrest]
              exact isBare_of_bareClass (by simpa [token?] using hnone)
            rw [hbare]
            exact ih
          · have hscope : Run.scopeAfter .pattern (c :: w) = .pattern := by
              cases w <;> simp [Run.scopeAfter, hopen]
            rw [hscope] at ih
            show tidy false (c :: (w ++ render pieces)) = true
            rw [tidy_other hescape (fun _ => hopen) (fun h => absurd h (by decide)),
              tidy_append _ hplain]
            exact ih

end Reader

/-! ## 4. Repeated empty groups -/

theorem le_leadingHexDigits_merged {m : Nat} (hm : m ≤ 4) (cs : Text) :
    decide (m ≤ leadingHexDigits (merged cs)) = decide (m ≤ leadingHexDigits cs) := by
  have htake (x : Text) : m ≤ leadingHexDigits x ↔ m ≤ leadingHexDigits (x.take m) := by
    constructor
    · intro h
      simpa using le_leadingHexDigits_take h []
    · intro h
      refine h.trans ?_
      unfold leadingHexDigits
      conv_rhs => rw [← List.take_append_drop m x, List.takeWhile_append]
      split
      · rename_i hall
        rw [hall]
        simp
      · exact Nat.le_refl _
  rw [decide_eq_decide, htake, htake cs, take_merged m cs hm]

theorem isKept_merged (b : Bool) (c : Char) (cs : Text) :
    isKept b c (merged cs) = isKept b c cs := by
  unfold isKept
  rw [head?_merged, le_leadingHexDigits_merged (by decide), le_leadingHexDigits_merged (by decide)]

theorem isBare_merged (cs : Text) : isBare (merged cs) = isBare cs := by
  unfold isBare
  rw [head?_merged, take_merged 2 cs (by decide)]

/-- **Leaving out repeated empty groups keeps a text tidy.** -/
theorem tidy_merged : ∀ (n : Nat) (t : Text), t.length ≤ n →
    (∀ b, tidy b (merged t) = tidy b t) ∧ ∀ b, tidy b (mergedAfter t) = tidy b t
  | _, [], _ => ⟨fun _ => rfl, fun _ => rfl⟩
  | 0, _ :: _, h => absurd h (Nat.not_succ_le_zero _)
  | n + 1, c :: t, h => by
      have hlen : t.length ≤ n := by simpa using h
      cases hempty : emptyGroup.isPrefixOf (c :: t) with
      | true =>
        obtain ⟨rest, hrest⟩ := List.isPrefixOf_iff_prefix.1 hempty
        have hshort : rest.length ≤ n := by
          have := congrArg List.length hrest
          simp [emptyGroup] at this h
          omega
        have ih := tidy_merged n rest hshort
        rw [← hrest]
        refine ⟨fun b => ?_, fun b => ?_⟩
        · rw [merged_emptyGroup, tidy_emptyGroup, tidy_emptyGroup, ih.2]
        · rw [mergedAfter_emptyGroup, tidy_emptyGroup, ih.2]
      | false =>
        have hcons (b : Bool) : tidy b (c :: merged t) = tidy b (c :: t) := by
          have ih := tidy_merged n t hlen
          by_cases hc : c = '\\'
          · subst hc
            cases t with
            | nil => rfl
            | cons d t =>
              have hshort : t.length ≤ n := by
                simp at hlen
                omega
              have ih' := tidy_merged n t hshort
              cases hd : emptyGroup.isPrefixOf (d :: t) with
              | false =>
                rw [merged_cons hd, tidy_escape, tidy_escape, isKept_merged, ih'.1]
              | true =>
                -- a parenthesis is kept before any text
                obtain ⟨rest, hrest⟩ := List.isPrefixOf_iff_prefix.1 hd
                have ih'' := tidy_merged n rest (by
                  have := congrArg List.length hrest
                  simp [emptyGroup] at this hlen
                  omega)
                rw [← hrest, merged_emptyGroup]
                have hparen (u : Text) : tidy b ('\\' :: (emptyGroup ++ u)) = tidy b u := by
                  show tidy b ('\\' :: '(' :: (['?', ':', ')'] ++ u)) = _
                  rw [tidy_escape, tidy_append u (List.all_eq_true.1 rfl)]
                  rfl
                rw [hparen, hparen]
                exact ih''.2 b
          · by_cases hopen : c = '[' ∧ b = false
            · obtain ⟨rfl, rfl⟩ := hopen
              rw [tidy_open, tidy_open, isBare_merged, ih.1]
            by_cases hclose : c = ']' ∧ b = true
            · obtain ⟨rfl, rfl⟩ := hclose
              rw [tidy_close, tidy_close, ih.1]
            · have hne : b = false → c ≠ '[' := fun hb hc => hopen ⟨hc, hb⟩
              have hne' : b = true → c ≠ ']' := fun hb hc => hclose ⟨hc, hb⟩
              rw [tidy_other hc hne hne', tidy_other hc hne hne', ih.1]
        refine ⟨fun b => ?_, fun b => ?_⟩
        · rw [merged_cons hempty]
          exact hcons b
        · rw [mergedAfter_cons hempty]
          exact hcons b

end ExtensibleRegex
