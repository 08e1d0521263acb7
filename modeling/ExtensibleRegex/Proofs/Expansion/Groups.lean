import ExtensibleRegex.Proofs.Expansion.Merging
import ExtensibleRegex.Proofs.Expansion.Reading
import ExtensibleRegex.Proofs.Text.Digits
import Mathlib.Tactic

/-!
# The groups that a pattern opens

The handlers list the groups that they open, and the engine finds the groups in what has been
written. This file compares the two, for patterns with the built-in tokens only:

* what a token writes marks nothing, unless it opens a capturing group (`unmarked_of_token?`), and
  native text that is copied marks nothing, unless it is a parenthesis (`marks_copied`);
* so the marks of what is written are those of the pieces (`Reads.captureMarks_render`);
* a piece is `Clear` when it opens a native group just if it was read as the opening of one, and
  the marks are those of the groups just when all pieces are clear (`Reads.marks_iff`);
* the groups have different names (`Reads.nodup_names`), and open where the pattern has a
  parenthesis of that form (`of_opens`).
-/

namespace ExtensibleRegex

open Native

/-! ## 1. What pieces are written as -/

/-- The spot at a place of a scope. -/
def Scope.spot : Scope → Spot
  | .pattern => .outside
  | .charClass => .inside

/-- A text that changes neither the marks of the text after it nor the spot. -/
structure Passed (inClass : Bool) (w : Text) : Prop where
  marks : ∀ next, captureMarks inClass (w ++ next) = captureMarks inClass next
  after : Spot.after ⟨inClass, false⟩ w = ⟨inClass, false⟩

/-- A text that can be written anywhere without such a change. -/
def Unmarked (w : Text) : Prop := ∀ b, Passed b w

theorem unmarked_nil : Unmarked [] := fun _ => ⟨fun _ => rfl, rfl⟩

theorem unmarked_emptyGroup : Unmarked emptyGroup := fun b =>
  ⟨captureMarks_emptyGroup b, by cases b <;> rfl⟩

theorem Unmarked.append {v w : Text} (hv : Unmarked v) (hw : Unmarked w) : Unmarked (v ++ w) :=
  fun b => ⟨fun next => by rw [List.append_assoc, (hv b).marks, (hw b).marks],
    by rw [Spot.after_append, (hv b).after, (hw b).after]⟩

/-- An escape: a backslash, any character, and plain ones. -/
theorem unmarked_escape (c : Char) {w : Text} (h : ∀ d ∈ w, isPlain d = true) :
    Unmarked ('\\' :: c :: w) := fun b => by
  refine ⟨fun next => ?_, ?_⟩
  · rw [List.cons_append, captureMarks_escape]
    exact captureMarks_append next h
  · rw [Spot.after_cons, Spot.after_cons]
    exact after_of_isPlain h

theorem unmarked_separator (behind ahead flags : Text) :
    Unmarked (Reader.separator behind ahead flags) := by
  unfold Reader.separator
  split
  · exact unmarked_nil
  · exact unmarked_emptyGroup

namespace Reader

variable {r : Reader} {scope : Scope} {ledger : Ledger} {behind t : Text} {piece : Segment} {n : Nat}

theorem write_eq_ok {e : Extent} {w : Text} (h : write e w = .ok (some (piece, n))) :
    piece = .written w := by
  cases h
  rfl

theorem unmarked_of_escape (h : r.escape scope ledger t = .ok (some (piece, n))) :
    ∃ w, piece = .written w ∧ Unmarked w := by
  cases of_escape h with
  | number ne_nil isDigit =>
    obtain ⟨d, ds, rfl⟩ := List.exists_cons_of_ne_nil ne_nil
    exact ⟨_, rfl, unmarked_escape d fun c hc =>
      isPlain_of_isDigit (isDigit c (List.mem_cons_of_mem _ hc))⟩
  | @name w rest m =>
    have hapart : Unmarked (if rest.head?.any Char.isDigit = true then emptyGroup else []) := by
      split
      · exact unmarked_emptyGroup
      · exact unmarked_nil
    obtain ⟨d, ds, hds⟩ := List.exists_cons_of_ne_nil (decimalText_ne_nil m)
    refine ⟨_, rfl, Unmarked.append (v := '\\' :: decimalText m) ?_ hapart⟩
    rw [hds]
    refine unmarked_escape d fun c hc => isPlain_of_isDigit (isDigit_of_mem_decimalText (n := m) ?_)
    rw [hds]
    exact List.mem_cons_of_mem _ hc
  | unit =>
    exact ⟨_, rfl, unmarked_escape 'u' fun c hc =>
      isPlain_of_isHexDigit (isHexDigit_of_mem_hexText hc)⟩
  | point isHexDigit => exact ⟨_, rfl, unmarked_escape 'u' (isPlain_of_braced isHexDigit)⟩
  | inside => exact ⟨_, rfl, unmarked_escape 'B' (List.forall_mem_nil _)⟩

theorem unmarked_of_parenthesis (h : r.parenthesis ledger behind t = .ok (some (piece, n))) :
    (∃ name, piece = .opens name) ∨ ∃ w, piece = .written w ∧ Passed false w := by
  unfold parenthesis at h
  split at h
  · split at h
    · refine .inr ⟨_, write_eq_ok h, fun next => ?_, rfl⟩
      simp [captureMarks, opensCapture]
    · cases h
      exact .inl ⟨_, rfl⟩
  split at h
  · simp only at h
    split at h
    · cases h
    split at h
    · cases h
    split at h
    · cases h
    · cases h
      exact .inl ⟨_, rfl⟩
  split at h
  · exact .inr ⟨_, write_eq_ok h, unmarked_separator _ _ _ false⟩
  split at h
  · cases h
  · cases h

/-- **What a token writes marks nothing**, unless it opens a capturing group. -/
theorem unmarked_of_token? (h : r.token? scope ledger behind t = .ok (some (piece, n))) :
    ((∃ name, piece = .opens name) ∧ scope = .pattern) ∨
      ∃ w, piece = .written w ∧ Passed (scope = .charClass) w := by
  unfold token? at h
  split at h
  · obtain ⟨w, hw, hunmarked⟩ := unmarked_of_escape h
    exact .inr ⟨w, hw, hunmarked _⟩
  split at h
  · cases h
  have hclass : Passed false "[\\s\\S]".toList := by
    refine ⟨fun next => ?_, rfl⟩
    show captureMarks false ('[' :: '\\' :: 's' :: '\\' :: 'S' :: ']' :: next) = _
    simp [captureMarks]
  have hboundaries : Passed false "\\b\\B".toList := by
    refine ⟨fun next => ?_, rfl⟩
    show captureMarks false ('\\' :: 'b' :: '\\' :: 'B' :: next) = _
    simp [captureMarks]
  split at h
  · rcases unmarked_of_parenthesis h with hopens | hwritten
    · exact .inl ⟨hopens, rfl⟩
    · exact .inr hwritten
  split at h
  · unfold bareClass at h
    split at h
    · refine .inr ⟨_, write_eq_ok h, ?_⟩
      split
      · exact hboundaries
      · exact hclass
    · cases h
  split at h
  · unfold dot at h
    split at h
    · exact .inr ⟨_, write_eq_ok h, hclass⟩
    · cases h
  · unfold blank at h
    split at h
    · exact .inr ⟨_, write_eq_ok h, unmarked_separator _ _ _ false⟩
    · cases h

end Reader

/-! ## 2. What is copied -/

theorem mem_take_of_takeWhile {q : Char → Bool} {cs : Text} {k : Nat}
    (h : k ≤ (cs.takeWhile q).length) {c : Char} (hc : c ∈ cs.take k) : q c = true := by
  have htake : cs.take k = (cs.takeWhile q).take k := by
    rw [List.prefix_iff_eq_take.1 (List.takeWhile_prefix (l := cs) q), List.take_take,
      Nat.min_eq_left h]
  rw [htake] at hc
  exact List.all_eq_true.1 List.all_takeWhile c (List.mem_of_mem_take hc)

theorem leadingOctalDigits_le : ∀ (most : Nat) (cs : Text),
    leadingOctalDigits most cs ≤ (cs.takeWhile isOctalDigit).length
  | 0, _ => Nat.zero_le _
  | _ + 1, [] => Nat.le_refl _
  | most + 1, c :: cs => by
      have ih := leadingOctalDigits_le most cs
      unfold leadingOctalDigits at ih ⊢
      rw [List.take_succ_cons, List.takeWhile_cons, List.takeWhile_cons]
      split
      · exact Nat.succ_le_succ ih
      · exact Nat.le_refl _

/-- After the character behind a backslash, an escape holds plain characters only. -/
theorem escapeLength_cons (scope : Scope) (c : Char) (cs : Text) :
    ∃ k, escapeLength scope (c :: cs) = k + 1 ∧ ∀ d ∈ cs.take k, isPlain d = true := by
  have hletter : ∃ k, escapeLength.letterLength c cs = k + 1 ∧
      ∀ d ∈ cs.take k, isPlain d = true := by
    have hhex {m : Nat} (h : m ≤ leadingHexDigits cs) : ∀ d ∈ cs.take m, isPlain d = true :=
      fun d hd => isPlain_of_isHexDigit (mem_take_of_takeWhile h hd)
    unfold escapeLength.letterLength
    split
    · rename_i hx
      rw [Bool.and_eq_true, decide_eq_true_eq, decide_eq_true_eq] at hx
      exact ⟨2, rfl, hhex hx.2⟩
    split
    · rename_i hu
      rw [Bool.and_eq_true, decide_eq_true_eq, decide_eq_true_eq] at hu
      exact ⟨4, rfl, hhex hu.2⟩
    split
    · split
      · simp only
        split
        · rename_i rest _ _ hbraces
          rw [Bool.and_eq_true, beq_iff_eq] at hbraces
          obtain ⟨es, hes⟩ := List.head?_eq_some_iff.1 hbraces.2
          refine ⟨leadingHexDigits rest + 2, by omega, fun d hd => ?_⟩
          rw [List.take_succ_cons, List.take_add_one, List.mem_cons, List.mem_append] at hd
          rcases hd with rfl | hd | hd
          · rfl
          · exact isPlain_of_isHexDigit (mem_take_of_takeWhile (Nat.le_refl _) hd)
          · rw [← List.head?_drop, hes] at hd
            obtain rfl : d = '\x7d' := by simpa using hd
            rfl
        · exact ⟨0, rfl, by simp⟩
      · exact ⟨0, rfl, by simp⟩
    split
    · rename_i hc
      rw [Bool.and_eq_true] at hc
      refine ⟨1, rfl, fun d hd => ?_⟩
      cases cs with
      | nil => cases hd
      | cons l ls =>
        obtain rfl : d = l := by simpa using hd
        have hne (e : Char) (he : e.isAlpha = false) : d ≠ e := by
          rintro rfl
          simp [he] at hc
        simp [isPlain, hne '\\' rfl, hne '[' rfl, hne ']' rfl, hne '(' rfl]
    · exact ⟨0, rfl, by simp⟩
  have hoctal (most : Nat) (ds : Text) : ∀ d ∈ ds.take (leadingOctalDigits most ds), isPlain d = true :=
    fun d hd => isPlain_of_isOctalDigit (mem_take_of_takeWhile (leadingOctalDigits_le most ds) hd)
  unfold escapeLength
  simp only
  split
  · split
    · split
      · rename_i d ds
        split
        · rename_i hd
          refine ⟨leadingOctalDigits (if d.toNat ≤ '3'.toNat then 2 else 1) ds + 1, by omega, ?_⟩
          intro e he
          rw [List.take_succ_cons, List.mem_cons] at he
          rcases he with rfl | he
          · exact isPlain_of_isOctalDigit hd
          · exact hoctal _ ds e he
        · exact ⟨0, rfl, by simp⟩
      · exact ⟨0, rfl, by simp⟩
    split
    · exact ⟨(cs.takeWhile Char.isDigit).length, by omega, fun d hd =>
        isPlain_of_isDigit (mem_take_of_takeWhile (Nat.le_refl _) hd)⟩
    · exact hletter
  · split
    · exact ⟨_, Nat.add_comm _ _, hoctal _ cs⟩
    · exact hletter

/-- The marks of a parenthesis that nothing is known about, before a text. -/
def parenMarks (next : Text) : List Bool :=
  if opensCapture next then [next.head? == some '?'] else []

theorem captureMarks_paren (next : Text) :
    captureMarks false ('(' :: next) = parenMarks next ++ captureMarks false next := by
  unfold parenMarks
  by_cases h : opensCapture next = true
  · simp [captureMarks, h]
  · simp [captureMarks, h]

theorem parenMarks_of_ne {next : Text} (h : next.head? ≠ some '?') : parenMarks next = [false] := by
  have hopens : opensCapture next = true := by
    cases next with
    | nil => rfl
    | cons c next =>
      have hc : c ≠ '?' := fun hc => h (by rw [hc]; rfl)
      simp [opensCapture, hc]
  simp [parenMarks, hopens, h]

theorem parenMarks_of_eq {next : Text} (h : next.head? = some '?') :
    parenMarks next = if opensCapture next then [true] else [] := by
  simp [parenMarks, h]

namespace Segment

/-- The marks of a piece before what is written next. -/
def marks (scope : Scope) (next : Text) : Segment → List Bool
  | opens _ => parenMarks next
  | copied t => if scope = .pattern ∧ t = ['('] then parenMarks next else []
  | written _ => []

/-- A piece opens a native group just when it is read as the opening of one: the parenthesis of a
group is not followed by a question mark, and no parenthesis that is copied captures. -/
def Clear (scope : Scope) (next : Text) : Segment → Prop
  | opens _ => next.head? ≠ some '?'
  | copied t => scope = .pattern ∧ t = ['('] → opensCapture next = false
  | written _ => True

instance (scope : Scope) (next : Text) : ∀ piece, Decidable (Clear scope next piece)
  | opens _ => inferInstanceAs (Decidable (_ ≠ _))
  | copied _ => inferInstanceAs (Decidable (_ ∧ _ → _))
  | written _ => inferInstanceAs (Decidable True)

end Segment

theorem Segment.marks_copied_of_clear {scope : Scope} {next w : Text}
    (h : (Segment.copied w).Clear scope next) : (Segment.copied w).marks scope next = [] := by
  by_cases hparen : scope = .pattern ∧ w = ['(']
  · have hnone : parenMarks next = [] := by rw [parenMarks, h hparen]; rfl
    exact (if_pos hparen).trans hnone
  · exact if_neg hparen

theorem mem_take_append_cons {w rest : Text} {c d : Char}
    (h : d ∈ (w ++ c :: rest).take (w.length + 1)) : d ∈ w ∨ d = c := by
  rw [List.take_length_add_append] at h
  simpa using h

theorem plain_bracedBounds {cs : Text} {r : Nat × Option Nat × Nat}
    (h : bracedBounds? cs = some r) : 0 < r.2.2 ∧ ∀ c ∈ cs.take r.2.2, isPlain c = true := by
  have hdigits (ds : Text) : ∀ c ∈ ds.takeWhile Char.isDigit, isPlain c = true := fun c hc =>
    isPlain_of_isDigit (List.all_eq_true.1 List.all_takeWhile c hc)
  have hsplit := takeWhile_append_drop Char.isDigit cs
  have hlow := hdigits cs
  unfold bracedBounds? at h
  simp only at h
  generalize cs.takeWhile Char.isDigit = low at *
  split at h
  · cases h
  · split at h
    · rename_i rest hd
      cases h
      refine ⟨Nat.succ_pos _, fun c hc => ?_⟩
      rw [hsplit, hd] at hc
      rcases mem_take_append_cons hc with hc | rfl
      · exact hlow c hc
      · rfl
    · rename_i rest hd
      split at h
      · rename_i hclose
        cases h
        refine ⟨Nat.succ_pos _, fun c hc => ?_⟩
        have hhigh := hdigits rest
        have hrest := takeWhile_append_drop Char.isDigit rest
        obtain ⟨es, hes⟩ := List.head?_eq_some_iff.1 hclose
        rw [hes] at hrest
        generalize rest.takeWhile Char.isDigit = high at *
        have hall : low ++ ',' :: (high ++ '\x7d' :: es) = (low ++ ',' :: high) ++ '\x7d' :: es := by
          simp
        have hlen : low.length + high.length + 2 = (low ++ ',' :: high).length + 1 := by
          simp only [List.length_append, List.length_cons]
          omega
        rw [hsplit, hd, hrest, hall] at hc
        simp only [hlen] at hc
        rcases mem_take_append_cons hc with hc | rfl
        · rcases List.mem_append.1 hc with hc | hc
          · exact hlow c hc
          · rcases List.mem_cons.1 hc with rfl | hc
            · rfl
            · exact hhigh c hc
        · rfl
      · cases h
    · cases h

/-- Native text outside of classes is a character and plain ones. There are none after a bracket of
a class, and after a parenthesis only if it does not capture. -/
theorem plain_verbatim (c : Char) (t : Text) (hescape : c ≠ '\\') :
    ∃ w, (c :: t).take (verbatimLength .pattern (c :: t)) = c :: w ∧
      (∀ d ∈ w, isPlain d = true) ∧ (w ≠ [] → c ≠ '[' ∧ c ≠ ']' ∧
        (c = '(' → ∀ next, opensCapture (w ++ next) = false)) := by
  have hone : ∃ w, (c :: t).take 1 = c :: w ∧ (∀ d ∈ w, isPlain d = true) ∧
      (w ≠ [] → c ≠ '[' ∧ c ≠ ']' ∧ (c = '(' → ∀ next, opensCapture (w ++ next) = false)) :=
    ⟨[], rfl, nofun, fun h => absurd rfl h⟩
  unfold verbatimLength
  split
  · rename_i h
    cases h
  · rename_i h
    cases h
    exact absurd rfl hescape
  rename_i c' rest _ h
  cases h
  simp only
  split
  · rename_i hc
    subst hc
    split
    · exact ⟨['?', '<', '='], rfl, List.all_eq_true.1 rfl,
        fun _ => ⟨by decide, by decide, fun _ _ => rfl⟩⟩
    · exact ⟨['?', '<', '!'], rfl, List.all_eq_true.1 rfl,
        fun _ => ⟨by decide, by decide, fun _ _ => rfl⟩⟩
    · exact ⟨['?', ':'], rfl, List.all_eq_true.1 rfl,
        fun _ => ⟨by decide, by decide, fun _ _ => rfl⟩⟩
    · exact ⟨['?', '='], rfl, List.all_eq_true.1 rfl,
        fun _ => ⟨by decide, by decide, fun _ _ => rfl⟩⟩
    · exact ⟨['?', '!'], rfl, List.all_eq_true.1 rfl,
        fun _ => ⟨by decide, by decide, fun _ _ => rfl⟩⟩
    · exact hone
  rename_i hparen
  split
  · rename_i hc
    have hbracket : c ≠ '[' ∧ c ≠ ']' := by
      simp only [Bool.or_eq_true, decide_eq_true_eq] at hc
      rcases hc with (rfl | rfl) | rfl <;> decide
    split
    · rename_i hq
      obtain ⟨ds, rfl⟩ := List.head?_eq_some_iff.1 (beq_iff_eq.1 hq)
      exact ⟨['?'], rfl, List.all_eq_true.1 rfl,
        fun _ => ⟨hbracket.1, hbracket.2, fun h => absurd h hparen⟩⟩
    · exact hone
  split
  · rename_i hc
    subst hc
    have hbrace : ('\x7b' : Char) ≠ '[' ∧ ('\x7b' : Char) ≠ ']' ∧
        (('\x7b' : Char) = '(' → ∀ w next, opensCapture (w ++ next) = false) :=
      ⟨by decide, by decide, fun h => absurd h (by decide)⟩
    cases hb : bracedLength? ('{' :: t) with
    | none => exact hone
    | some n =>
      obtain ⟨b, hbounds, rfl⟩ := Option.map_eq_some_iff.1 hb
      obtain ⟨-, hplain⟩ := plain_bracedBounds hbounds
      simp only
      split
      · rename_i hq
        refine ⟨t.take (b.2.2 + 1), rfl, fun e he => ?_, fun _ =>
          ⟨hbrace.1, hbrace.2.1, fun h => hbrace.2.2 h _⟩⟩
        rw [List.take_add_one, List.mem_append] at he
        rcases he with he | he
        · exact hplain e he
        · have hdrop : ('\x7b' :: t).drop (b.2.2 + 1) = t.drop b.2.2 := rfl
          rw [beq_iff_eq, hdrop] at hq
          rw [← List.head?_drop, hq] at he
          obtain rfl : e = '?' := by simpa using he
          rfl
      · exact ⟨t.take b.2.2, rfl, hplain, fun _ => ⟨hbrace.1, hbrace.2.1, fun h => hbrace.2.2 h _⟩⟩
  · exact hone

/-- Native text outside of classes is a single character, or holds nothing that marks. -/
theorem verbatim_pattern (c : Char) (t : Text) (hescape : c ≠ '\\') :
    (c :: t).take (verbatimLength .pattern (c :: t)) = [c] ∨
      ∃ d ds, (c :: t).take (verbatimLength .pattern (c :: t)) = c :: d :: ds ∧
        ∀ next, captureMarks false (c :: d :: ds ++ next) = captureMarks false next := by
  obtain ⟨w, hw, hplain, hmore⟩ := plain_verbatim c t hescape
  cases w with
  | nil => exact .inl hw
  | cons d ds =>
    obtain ⟨hopen, hclose, hparen⟩ := hmore (List.cons_ne_nil d ds)
    refine .inr ⟨d, ds, hw, fun next => ?_⟩
    by_cases hc : c = '('
    · rw [hc, List.cons_append, captureMarks_paren, captureMarks_append next hplain, parenMarks,
        hparen hc]
      rfl
    · have hcplain : isPlain c = true := by simp [isPlain, hescape, hopen, hclose, hc]
      exact captureMarks_append next (w := c :: d :: ds) fun e he => by
        rcases List.mem_cons.1 he with rfl | he
        · exact hcplain
        · exact hplain e he

/-- **The marks of native text that is copied.** -/
theorem marks_copied (scope : Scope) (c : Char) (t next : Text)
    (hend : c :: t = ['\\'] → next = []) :
    captureMarks (scope = .charClass) ((c :: t).take (verbatimLength scope (c :: t)) ++ next) =
      (Segment.copied ((c :: t).take (verbatimLength scope (c :: t)))).marks scope next ++
        captureMarks (Run.scopeAfter scope ((c :: t).take (verbatimLength scope (c :: t))) = .charClass)
          next := by
  have hone : (c :: t).take 1 = [c] := rfl
  by_cases hescape : c = '\\'
  · subst hescape
    have hlength : verbatimLength scope ('\\' :: t) = escapeLength scope t + 1 := by
      cases scope <;> simp [verbatimLength, Nat.add_comm]
    rw [hlength, List.take_succ_cons]
    have hscope (w : Text) : Run.scopeAfter scope ('\\' :: w) = scope := by
      cases scope <;> simp [Run.scopeAfter]
    have hmarks (w : Text) : (Segment.copied ('\\' :: w)).marks scope next = [] := by
      simp [Segment.marks]
    rw [hscope, hmarks, List.nil_append]
    cases t with
    | nil =>
      rw [hend rfl]
      simp [captureMarks]
    | cons d ds =>
      obtain ⟨k, hk, hplain⟩ := escapeLength_cons scope d ds
      rw [hk, List.take_succ_cons]
      exact (unmarked_escape d hplain _).marks next
  cases scope with
  | charClass =>
    have hlength : verbatimLength .charClass (c :: t) = 1 := by
      simp [verbatimLength]
    rw [hlength, hone]
    by_cases hclose : c = ']'
    · subst hclose
      simp [captureMarks, Segment.marks, Run.scopeAfter]
    · simp [captureMarks, Segment.marks, Run.scopeAfter, hclose, hescape]
  | pattern =>
    rcases verbatim_pattern c t hescape with hw | ⟨d, ds, hw, hunmarked⟩
    · rw [hw]
      by_cases hparen : c = '('
      · subst hparen
        simp only [List.cons_append, List.nil_append]
        show captureMarks false ('(' :: next) = _
        rw [captureMarks_paren]
        simp [Segment.marks, Run.scopeAfter]
      · by_cases hopen : c = '['
        · subst hopen
          simp [captureMarks, Segment.marks, Run.scopeAfter]
        · simp [captureMarks, Segment.marks, Run.scopeAfter, hopen, hparen, hescape]
    · rw [hw]
      refine (hunmarked next).trans ?_
      simp [Segment.marks, Run.scopeAfter]

/-- **Native text that is copied leads to the spot of the scope after it.** -/
theorem after_copied (scope : Scope) (c : Char) (t : Text) (hend : c :: t ≠ ['\\']) :
    scope.spot.after ((c :: t).take (verbatimLength scope (c :: t))) =
      (Run.scopeAfter scope ((c :: t).take (verbatimLength scope (c :: t)))).spot := by
  by_cases hescape : c = '\\'
  · subst hescape
    have hlength : verbatimLength scope ('\\' :: t) = escapeLength scope t + 1 := by
      cases scope <;> simp [verbatimLength, Nat.add_comm]
    cases t with
    | nil => exact absurd rfl hend
    | cons d ds =>
      obtain ⟨k, hk, hplain⟩ := escapeLength_cons scope d ds
      rw [hlength, hk, List.take_succ_cons, List.take_succ_cons]
      cases scope with
      | pattern => exact (unmarked_escape d hplain false).after
      | charClass => exact (unmarked_escape d hplain true).after
  cases scope with
  | charClass =>
    have hlength : verbatimLength .charClass (c :: t) = 1 := by
      simp [verbatimLength]
    rw [hlength]
    show Spot.inside.next c = _
    by_cases hclose : c = ']'
    · subst hclose
      rfl
    · simp [Spot.next, Run.scopeAfter, Scope.spot, hclose, hescape]
  | pattern =>
    obtain ⟨w, hw, hplain, hmore⟩ := plain_verbatim c t hescape
    rw [hw]
    show (Spot.outside.next c).after w = _
    by_cases hopen : c = '['
    · have hnil : w = [] := by
        by_contra hne
        exact (hmore hne).1 hopen
      subst hopen
      subst hnil
      rfl
    · have hnext : Spot.outside.next c = .outside := by simp [Spot.next, hescape, hopen]
      have hscope : Run.scopeAfter .pattern (c :: w) = .pattern := by simp [Run.scopeAfter, hopen]
      rw [hnext, hscope]
      exact after_of_isPlain hplain

/-! ## 3. The groups of a reading -/

namespace Reader

variable {r : Reader} {scope : Scope} {ledger : Ledger} {behind t : Text} {pieces : List Segment}

theorem segment_eq_ok {piece : Segment} {n : Nat}
    (h : r.segment scope ledger behind t = .ok (piece, n)) :
    r.token? scope ledger behind t = .ok (some (piece, n)) ∨
      r.token? scope ledger behind t = .ok none ∧
        piece = .copied (t.take (verbatimLength scope t)) ∧ n = verbatimLength scope t := by
  unfold segment at h
  split at h
  · cases h
    exact .inl ‹_›
  · cases h
    exact .inr ⟨‹_›, rfl, rfl⟩
  · cases h

/-- The marks of pieces, each before what is written for the others. -/
def marks : Scope → List Segment → List Bool
  | _, [] => []
  | scope, piece :: pieces => piece.marks scope (render pieces) ++ marks (piece.scopeAfter scope) pieces

/-- **The marks of what is written for a text are those of its pieces.** -/
theorem Reads.captureMarks_render (h : r.Reads scope ledger behind t pieces) :
    captureMarks (scope = .charClass) (render pieces) = marks scope pieces := by
  induction h with
  | nil => rfl
  | @cons scope ledger behind t piece n pieces hne hpos hfirst hrest ih =>
    have hrender : render (piece :: pieces) = piece.text ++ render pieces := rfl
    rw [hrender]
    unfold marks
    rw [← ih]
    rcases segment_eq_ok hfirst with htoken | ⟨-, rfl, rfl⟩
    · rcases unmarked_of_token? htoken with ⟨⟨name, rfl⟩, rfl⟩ | ⟨w, rfl, hunmarked⟩
      · exact captureMarks_paren _
      · exact hunmarked.marks _
    · obtain ⟨c, cs, rfl⟩ := List.exists_cons_of_ne_nil hne
      refine marks_copied scope c cs (render pieces) fun hend => ?_
      -- after a lone backslash the text is over
      have hdrop : (c :: cs).drop (verbatimLength scope (c :: cs)) = [] := by
        rw [hend]
        cases scope <;> rfl
      rw [hdrop] at hrest
      cases hrest with
      | nil => rfl
      | cons hne' => exact absurd rfl hne'

/-- All pieces are clear. -/
def Clear : Scope → List Segment → Prop
  | _, [] => True
  | scope, piece :: pieces =>
    piece.Clear scope (render pieces) ∧ Clear (piece.scopeAfter scope) pieces

instance decidableClear : ∀ (scope : Scope) (pieces : List Segment), Decidable (Clear scope pieces)
  | _, [] => inferInstanceAs (Decidable True)
  | scope, piece :: pieces =>
    have := decidableClear (piece.scopeAfter scope) pieces
    inferInstanceAs (Decidable (_ ∧ _))

theorem token?_question (cs : Text) : r.token? .pattern ledger behind ('?' :: cs) = .ok none := by
  have hblank : Trigger.blank ('?' :: cs) = none := rfl
  simp [token?, blank, hblank]

/-- No token takes a parenthesis that is copied, so a question mark follows. -/
theorem head?_of_token?_paren {cs : Text}
    (h : r.token? .pattern ledger behind ('(' :: cs) = .ok none) : cs.head? = some '?' := by
  by_contra hq
  have hplain : Trigger.openPlain ('(' :: cs) = some ⟨1, none⟩ := if_neg hq
  have htoken : r.token? .pattern ledger behind ('(' :: cs) =
      r.parenthesis ledger behind ('(' :: cs) := by simp [token?]
  rw [htoken] at h
  unfold parenthesis at h
  rw [hplain] at h
  simp only at h
  split at h <;> cases h

/-- After a copied parenthesis a question mark is written. -/
theorem head?_of_copied_paren {n : Nat}
    (hfirst : r.segment .pattern ledger behind t = .ok (.copied ['('], n)) (hpos : 0 < n)
    (hrest : r.Reads .pattern ledger ((t.take n).reverse ++ behind) (t.drop n) pieces) :
    (render pieces).head? = some '?' := by
  rcases segment_eq_ok hfirst with htoken | ⟨hnone, hcopied, hn⟩
  · rcases unmarked_of_token? htoken with ⟨⟨name, hname⟩, -⟩ | ⟨w, hw, -⟩
    · cases hname
    · cases hw
  · have htake : t.take n = ['('] := by
      rw [hn]
      exact (Segment.copied.inj hcopied).symm
    obtain ⟨k, rfl⟩ := Nat.exists_eq_add_of_lt hpos
    obtain ⟨cs, rfl⟩ : ∃ cs, t = '(' :: cs := by
      cases t with
      | nil => cases htake
      | cons c cs =>
        rw [List.take_succ_cons] at htake
        exact ⟨cs, by rw [(List.cons.inj htake).1]⟩
    obtain ⟨ds, rfl⟩ := List.head?_eq_some_iff.1 (head?_of_token?_paren hnone)
    have hk : k = 0 := by
      have := congrArg List.length htake
      simp at this
      omega
    subst hk
    cases hrest with
    | @cons _ _ _ _ piece m rest hne hpos hfirst hrest =>
      rcases segment_eq_ok hfirst with htoken | ⟨-, rfl, rfl⟩
      · have hnone := htoken.symm.trans (token?_question ds)
        cases hnone
      · obtain ⟨m, hm⟩ := Nat.exists_eq_add_of_lt hpos
        rw [hm]
        simp [render, Segment.text]

theorem Reads.marks_of_clear (h : r.Reads scope ledger behind t pieces)
    (hclear : Clear scope pieces) :
    marks scope pieces = List.replicate (names pieces).length false := by
  induction h with
  | nil => rfl
  | @cons scope ledger behind t piece n pieces hne hpos hfirst hrest ih =>
    have htail := ih hclear.2
    unfold marks
    cases piece with
    | opens name =>
      have hhead : (Segment.opens name).marks scope (render pieces) = [false] :=
        parenMarks_of_ne hclear.1
      rw [hhead, htail]
      rfl
    | copied w =>
      rw [Segment.marks_copied_of_clear hclear.1, htail]
      rfl
    | written w =>
      rw [htail]
      rfl

/-- Without a mark of a name, there are at most as many marks as groups, and fewer unless all pieces
are clear. -/
theorem Reads.clear_of_marks (h : r.Reads scope ledger behind t pieces)
    (hfalse : ∀ b ∈ marks scope pieces, b = false) :
    (marks scope pieces).length ≤ (names pieces).length ∧
      ((marks scope pieces).length = (names pieces).length → Clear scope pieces) := by
  induction h with
  | nil => exact ⟨Nat.le_refl _, fun _ => trivial⟩
  | @cons scope ledger behind t piece n pieces hne hpos hfirst hrest ih =>
    obtain ⟨hle, hclear⟩ := ih fun b hb => hfalse b (List.mem_append_right _ hb)
    have hhead : ∀ b ∈ piece.marks scope (render pieces), b = false :=
      fun b hb => hfalse b (List.mem_append_left _ hb)
    have hlength : (marks scope (piece :: pieces)).length =
        (piece.marks scope (render pieces)).length +
          (marks (piece.scopeAfter scope) pieces).length := List.length_append
    have hquiet (hnext : (render pieces).head? = some '?')
        (hall : ∀ b ∈ parenMarks (render pieces), b = false) :
        opensCapture (render pieces) = false := by
      rw [parenMarks_of_eq hnext] at hall
      by_contra hopens
      rw [Bool.not_eq_false] at hopens
      rw [if_pos hopens] at hall
      cases hall true List.mem_cons_self
    cases piece with
    | opens name =>
      have hnames : (names (.opens name :: pieces)).length = (names pieces).length + 1 := rfl
      by_cases hq : (render pieces).head? = some '?'
      · have hnone : (Segment.opens name).marks scope (render pieces) = [] := by
          simp [Segment.marks, parenMarks, hquiet hq hhead]
        rw [hlength, hnone, hnames]
        refine ⟨by simp only [List.length_nil]; omega, fun heq => ?_⟩
        simp only [List.length_nil] at heq
        omega
      · have hone : (Segment.opens name).marks scope (render pieces) = [false] :=
          parenMarks_of_ne hq
        rw [hlength, hone, hnames]
        refine ⟨by simp only [List.length_singleton]; omega, fun heq => ⟨hq, hclear ?_⟩⟩
        simp only [List.length_singleton] at heq
        omega
    | copied w =>
      have hnames : names (.copied w :: pieces) = names pieces := rfl
      have hnone : scope = .pattern ∧ w = ['('] → opensCapture (render pieces) = false := by
        rintro ⟨rfl, rfl⟩
        exact hquiet (head?_of_copied_paren hfirst hpos hrest) hhead
      rw [hlength, Segment.marks_copied_of_clear hnone, hnames]
      refine ⟨by simp only [List.length_nil]; omega, fun heq => ⟨hnone, hclear ?_⟩⟩
      simp only [List.length_nil] at heq
      omega
    | written w =>
      have hempty : (Segment.written w).marks scope (render pieces) = [] := rfl
      have hnames : names (.written w :: pieces) = names pieces := rfl
      rw [hlength, hempty, hnames]
      refine ⟨by simp only [List.length_nil]; omega, fun heq => ⟨trivial, hclear ?_⟩⟩
      simp only [List.length_nil] at heq
      omega

/-- **The marks are those of the groups just when all pieces are clear.** -/
theorem Reads.marks_iff (h : r.Reads scope ledger behind t pieces) :
    marks scope pieces = List.replicate (names pieces).length false ↔ Clear scope pieces := by
  constructor
  · intro hmarks
    refine (h.clear_of_marks fun b hb => ?_).2 ?_
    · rw [hmarks] at hb
      exact List.eq_of_mem_replicate hb
    · rw [hmarks, List.length_replicate]
  · exact h.marks_of_clear

/-- Pieces that stand later in a text are read there. -/
theorem Reads.of_append : ∀ {before : List Segment} {scope : Scope} {ledger : Ledger}
    {behind t : Text}, r.Reads scope ledger behind t (before ++ pieces) →
    ∃ ledger' behind' t', r.Reads (before.foldl Segment.scopeAfter scope) ledger' behind' t' pieces
  | [], _, ledger, behind, t, h => ⟨ledger, behind, t, h⟩
  | _ :: _, _, _, _, _, .cons _ _ _ rest => rest.of_append

theorem clear_of_append : ∀ (before : List Segment) (scope : Scope),
    Clear scope (before ++ pieces) → Clear (before.foldl Segment.scopeAfter scope) pieces
  | [], _, h => h
  | piece :: before, scope, h => clear_of_append before (piece.scopeAfter scope) h.2

/-- From a group on, a clear text has as many groups as were opened. -/
theorem Reads.countGroups_from {name : Option Text} {before after : List Segment}
    (h : r.Reads .pattern ledger behind t (before ++ .opens name :: after))
    (hclear : Clear .pattern (before ++ .opens name :: after)) :
    countGroups (render (.opens name :: after)) = (names after).length + 1 := by
  obtain ⟨ledger', behind', t', hlater⟩ := h.of_append
  have hlaterClear := clear_of_append before _ hclear
  generalize before.foldl Segment.scopeAfter .pattern = scope at hlater hlaterClear
  have hscope : scope = .pattern := by
    cases hlater with
    | cons _ _ hfirst _ =>
      rcases segment_eq_ok hfirst with htoken | ⟨-, hcopied, -⟩
      · rcases unmarked_of_token? htoken with ⟨-, hscope⟩ | ⟨w, hw, -⟩
        · exact hscope
        · cases hw
      · cases hcopied
  subst hscope
  have hmarks := hlater.captureMarks_render
  rw [hlater.marks_of_clear hlaterClear] at hmarks
  have hlength := congrArg List.length hmarks
  rw [List.length_replicate] at hlength
  rw [countGroups, countGroupsFrom_eq, Nat.zero_add]
  exact hlength

/-- Where a group opens: at a parenthesis without a question mark, or at one with a name that no
group has yet. -/
theorem of_opens {name : Option Text} {n : Nat}
    (h : r.token? scope ledger behind t = .ok (some (.opens name, n))) :
    scope = .pattern ∧ match name with
      | none => r.flags.contains 'n' = false ∧ ∃ cs, t = '(' :: cs ∧ cs.head? ≠ some '?' ∧ n = 1
      | some w => ledger.index? w = none ∧ ∃ before rest,
          (before = ['(', '?', '<'] ∨ before = ['(', '?', 'P', '<']) ∧ w ≠ [] ∧
          (∀ c ∈ w, isNameChar c = true) ∧ t = before ++ (w ++ '>' :: rest) ∧
          n = before.length + w.length + 1 := by
  have hscope : scope = .pattern := by
    rcases unmarked_of_token? h with ⟨-, hscope⟩ | ⟨w, hw, -⟩
    · exact hscope
    · cases hw
  subst hscope
  refine ⟨rfl, ?_⟩
  unfold token? at h
  split at h
  · obtain ⟨w, hw, -⟩ := unmarked_of_escape h
    cases hw
  simp only at h
  split at h
  · unfold parenthesis at h
    split at h
    · rename_i e hplain
      obtain ⟨cs, hcs, hq, he⟩ := Trigger.of_openPlain hplain
      split at h
      · cases write_eq_ok h
      · rename_i hn
        cases h
        exact ⟨Bool.eq_false_iff.2 hn, cs, hcs, hq, by rw [he]⟩
    split at h
    · rename_i e hnamed
      obtain ⟨before, w, rest, hbefore, hne, hw, ht, hlength, -, -, hcaptured⟩ :=
        Trigger.of_openNamed hnamed
      simp only at h
      split at h
      · cases h
      split at h
      · cases h
      split at h
      · cases h
      · rename_i htwice
        cases h
        rw [hcaptured] at htwice
        simp only [hcaptured]
        exact ⟨by simpa using htwice, before, rest, hbefore, hne, hw, ht, hlength⟩
    split at h
    · cases write_eq_ok h
    split at h <;> cases h
  split at h
  · unfold bareClass at h
    split at h
    · cases write_eq_ok h
    · cases h
  split at h
  · unfold dot at h
    split at h
    · cases write_eq_ok h
    · cases h
  · unfold blank at h
    split at h
    · cases write_eq_ok h
    · cases h

/-- The groups are opened with different names. -/
theorem Reads.nodup_names (h : r.Reads scope ledger behind t pieces)
    (hledger : (ledger.names.toList.filterMap id).Nodup) :
    ((ledger.names.toList ++ names pieces).filterMap id).Nodup := by
  induction h with
  | nil => simpa [names] using hledger
  | @cons scope ledger behind t piece n pieces hne hpos hfirst hrest ih =>
    cases piece with
    | opens name =>
      have hpush : (ledger.push name).names.toList = ledger.names.toList ++ [name] := by
        simp [Ledger.push]
      have hnames : names (.opens name :: pieces) = name :: names pieces := rfl
      simp only [Segment.enter] at ih
      rw [hpush] at ih
      rw [hnames, List.append_cons]
      refine ih ?_
      rcases segment_eq_ok hfirst with htoken | ⟨-, hcopied, -⟩
      · have hopens := (of_opens htoken).2
        cases name with
        | none => simpa using hledger
        | some w =>
          have hnew : some w ∉ ledger.names.toList := by
            have hindex := hopens.1
            unfold Ledger.index? at hindex
            rw [Option.map_eq_none_iff, Array.findIdx?_eq_none_iff] at hindex
            intro hmem
            have := hindex (some w) (by simpa using hmem)
            simp at this
          have hfilter : (ledger.names.toList ++ [some w]).filterMap id =
              ledger.names.toList.filterMap id ++ [w] := by simp
          rw [hfilter, List.nodup_append]
          refine ⟨hledger, List.nodup_singleton w, ?_⟩
          intro a ha b hb
          obtain rfl := List.mem_singleton.1 hb
          rintro rfl
          obtain ⟨x, hx, hxa⟩ := List.mem_filterMap.1 ha
          exact hnew (by rw [← hxa]; exact hx)
      · cases hcopied
    | copied w => exact ih hledger
    | written w => exact ih hledger

end Reader

end ExtensibleRegex
