import ExtensibleRegex.Proofs.Expansion.Omission
import ExtensibleRegex.Proofs.Expansion.Passage
import Mathlib.Tactic

/-!
# Seams

Where a comment has been taken out, the texts on its two sides meet. Nothing has to stand between
them where the text before ends, or the text after begins, with a delimiter. This file says why:

* `Reader.Ending` compares how a piece ends with how the text that it was read from does, and
  `Reader.Passes.endsAtSeam` carries that to a whole front: it ends with a delimiter, or with what
  opens a group, where its text does, unless the last piece has left nothing behind;
* `meaning_apart` says that in such a place an empty group makes no difference;
* `Reader.Passes.behind` says that what has been read before a closing parenthesis does not matter
  for the pieces after it.
-/

namespace ExtensibleRegex

open Native

/-! ## 1. How pieces end -/

/-- The characters of delimiters and of what opens a group. -/
def isSeam (c : Char) : Bool :=
  c == '(' || c == ')' || c == '|' || c == '?' || c == ':' || c == '=' || c == '!' || c == '<'

/-- Characters with a property that no delimiter and nothing that opens a group has. -/
theorem isSeam_of {q : Char → Bool} {c : Char} (h : q c = true)
    (hq : ['(', ')', '|', '?', ':', '=', '!', '<'].any q = false) : isSeam c = false := by
  have hne (d : Char) (hd : d ∈ ['(', ')', '|', '?', ':', '=', '!', '<']) : (c == d) = false := by
    rw [beq_eq_false_iff_ne]
    rintro rfl
    exact List.any_eq_false.1 hq c hd h
  simp [isSeam, hne]

namespace Reader

/-- How a piece ends, which is read from `w` before `rest`. -/
inductive Ending (w rest : Text) (piece : Segment) : Prop where
  /-- What is written is what was read. -/
  | same (text_eq : piece.text = w)
  /-- The parenthesis of a group. -/
  | opens (read : w = ['(']) (next : rest.head? ≠ some '?')
      (text_eq : piece.text = ['('] ∨ piece.text = ['(', '?', ':'])
  /-- A comment. -/
  | separates (before : Text) (read : w = before ++ [')'])
      (text_eq : piece.text = [] ∨ piece.text = emptyGroup)
  /-- Anything that ends in another way. -/
  | other (before : Text) (c : Char) (read : w = before ++ [c]) (noSeam : isSeam c = false)

/-- What a token takes is the text of the piece. -/
theorem eq_of_taken {w rest t : Text} (v : Text) (ht : w ++ rest = v ++ t)
    (hlength : w.length = v.length) : w = v ∧ rest = t :=
  List.append_inj ht hlength

theorem separator_eq (behind ahead flags : Text) :
    separator behind ahead flags = [] ∨ separator behind ahead flags = emptyGroup := by
  unfold separator
  split
  · exact .inl rfl
  · exact .inr rfl

variable {r : Reader} {next : Text} {scope : Scope} {ledger : Ledger} {behind w rest : Text}
  {piece : Segment} {n : Nat}

theorem ending_of_escape (h : r.escape scope ledger (w ++ rest) = .ok (some (piece, n)))
    (hn : n = w.length) : Ending w rest piece := by
  have hbraced {d t : Text} (read : w ++ rest = ['\\', 'u', '\x7b'] ++ (d ++ '\x7d' :: t))
      (hlength : 3 + d.length + 1 = w.length) : Ending w rest piece := by
    have hw : w = ['\\', 'u', '\x7b'] ++ d ++ ['\x7d'] :=
      (eq_of_taken (t := t) _ (by rw [read]; simp) (by rw [← hlength]; simp; omega)).1
    exact .other _ '\x7d' hw rfl
  cases of_escape h with
  | @number d t _ _ _ _ read => exact .same (eq_of_taken ('\\' :: d) read hn.symm).1.symm
  | @name d t _ _ _ _ read =>
    have hw : w = ['\\', 'k', '<'] ++ d ++ ['>'] :=
      (eq_of_taken (t := t) _ (by rw [read]; simp) (by rw [← hn]; simp; omega)).1
    exact .other _ '>' hw rfl
  | unit _ _ read => exact hbraced read hn
  | point _ _ read => exact hbraced read hn
  | inside _ read => exact .same (eq_of_taken ['\\', 'B'] read hn.symm).1.symm

theorem ending_of_parenthesis (h : r.parenthesis ledger behind (w ++ rest) = .ok (some (piece, n)))
    (hn : n = w.length) : Ending w rest piece := by
  unfold parenthesis at h
  split at h
  · rename_i e he
    obtain ⟨cs, ht, hnext, rfl⟩ := Trigger.of_openPlain he
    split at h
    · cases h
      obtain ⟨hw, hrest⟩ := eq_of_taken ['('] ht hn.symm
      exact .opens hw (hrest ▸ hnext) (.inr rfl)
    · cases h
      obtain ⟨hw, hrest⟩ := eq_of_taken ['('] ht hn.symm
      exact .opens hw (hrest ▸ hnext) (.inl rfl)
  split at h
  · rename_i e he
    obtain ⟨before, d, t, -, -, -, ht, hlength, -⟩ := Trigger.of_openNamed he
    simp only at h
    split at h
    · cases h
    split at h
    · cases h
    split at h
    · cases h
    · cases h
      have hw : w = before ++ d ++ ['>'] :=
        (eq_of_taken (t := t) _ (by rw [ht]; simp) (by rw [← hn, hlength]; simp; omega)).1
      exact .other _ '>' hw rfl
  split at h
  · rename_i e he
    obtain ⟨d, t, -, ht, rfl⟩ := Trigger.of_comment he
    cases h
    have hw : w = ['(', '?', '#'] ++ d ++ [')'] :=
      (eq_of_taken (t := t) _ (by rw [ht]; simp) (by rw [← hn]; simp)).1
    exact .separates _ hw (separator_eq _ _ _)
  split at h
  · cases h
  · cases h

/-- Blanks end with one, and a comment up to the end of its line ends with that or with the text. -/
theorem of_blank_text {t : Text} {e : Extent} (h : Trigger.blank t = some e) :
    (∃ x c, t = x ++ [c] ++ t.drop e.length ∧ x.length + 1 = e.length ∧ isSeam c = false) ∨
      t.drop e.length = [] := by
  unfold Trigger.blank at h
  split at h
  · rename_i cs
    cases h
    have hsplit := takeWhile_append_drop (· != '\n') cs
    have hstop := head?_drop_takeWhile (· != '\n') cs
    simp only
    generalize cs.takeWhile (· != '\n') = line at hsplit hstop
    cases hrest : cs.drop line.length with
    | nil => exact .inr (by simp [Nat.add_comm 1, hrest])
    | cons c rest =>
      rw [hrest] at hsplit hstop
      obtain rfl : c = '\n' := by simpa using hstop
      refine .inl ⟨'#' :: line, '\n', ?_, by simp; omega, rfl⟩
      subst hsplit
      simp [Nat.add_comm 1]
  · simp only at h
    split at h
    · rename_i hpos
      cases h
      have hsplit := takeWhile_append_drop Trigger.isSpace t
      have hspaces : ∀ c ∈ t.takeWhile Trigger.isSpace, Trigger.isSpace c = true :=
        List.all_eq_true.1 List.all_takeWhile
      obtain ⟨x, c, hx⟩ := List.eq_nil_or_concat (t.takeWhile Trigger.isSpace) |>.resolve_left
        (List.length_pos_iff.1 hpos)
      refine .inl ⟨x, c, ?_, ?_, isSeam_of (hspaces c ?_) (by decide +kernel)⟩
      · rw [hx, List.concat_eq_append] at hsplit
        rw [hx, List.concat_eq_append]
        exact hsplit
      · simp [hx]
      · simp [hx]
    · cases h

theorem ending_of_blank (h : r.blank behind (w ++ rest) = .ok (some (piece, n)))
    (hn : n = w.length) (hrest : rest ≠ []) : Ending w rest piece := by
  unfold blank at h
  split at h
  · rename_i e he
    cases h
    split at he
    · rcases of_blank_text he with ⟨x, c, ht, hlength, hseam⟩ | hend
      · exact .other x c (eq_of_taken _ ht (by simp [hlength, hn])).1 hseam
      · rw [hn, List.drop_left] at hend
        exact absurd hend hrest
    · cases he
  · cases h

/-- **How a piece ends**, before a text that is not empty. -/
theorem ending_of_segment (h : r.segment scope ledger behind (w ++ rest) = .ok (piece, n))
    (hn : n = w.length) (hrest : rest ≠ []) : Ending w rest piece := by
  rcases segment_eq_ok h with htoken | ⟨-, rfl, hlength⟩
  · unfold token? at htoken
    split at htoken
    · exact ending_of_escape htoken hn
    split at htoken
    · cases htoken
    split at htoken
    · exact ending_of_parenthesis htoken hn
    split at htoken
    · unfold bareClass at htoken
      split at htoken
      · rename_i e he
        cases htoken
        rcases Trigger.of_bareClass he with ⟨cs, ht, rfl⟩ | ⟨cs, ht, rfl⟩
        · exact .other ['['] ']' (eq_of_taken ['[', ']'] ht hn.symm).1 rfl
        · exact .other ['[', '^'] ']'
            (eq_of_taken ['[', '^', ']'] ht hn.symm).1 rfl
      · cases htoken
    split at htoken
    · unfold dot at htoken
      split at htoken
      · rename_i e he
        cases htoken
        split at he
        · obtain ⟨cs, ht, rfl⟩ := Trigger.of_dot he
          exact .other [] '.' (eq_of_taken ['.'] ht hn.symm).1 rfl
        · cases he
      · cases htoken
    · exact ending_of_blank htoken hn hrest
  · refine .same ?_
    show (w ++ rest).take _ = w
    rw [← hlength, hn, List.take_left]

/-! ## 2. How fronts end -/

/-- A piece is written as it was read if it ends as what opens a group does. -/
theorem Ending.text_eq_of_last {x : Text} {d : Char} (h : Ending (x ++ [d]) rest piece)
    (hseam : isSeam d = true) (hclose : d ≠ ')') (hopen : d = '(' → rest.head? = some '?') :
    piece.text = x ++ [d] := by
  cases h with
  | same htext => exact htext
  | opens hread hnext htext =>
    have hd : d = '(' := by
      have := congrArg List.getLast? hread
      simpa using this
    exact absurd (hopen hd) hnext
  | separates before hread htext => exact absurd (List.append_inj' hread rfl).2 (by simpa using hclose)
  | other before c hread hnone =>
    obtain rfl : d = c := by simpa using (List.append_inj' hread rfl).2
    rw [hseam] at hnone
    cases hnone

/-- The characters behind the parenthesis of what opens a group. -/
def isOpener (c : Char) : Bool := c == '?' || c == ':' || c == '=' || c == '!' || c == '<'

theorem isSeam_of_isOpener {c : Char} (h : isOpener c = true) :
    isSeam c = true ∧ c ≠ ')' ∧ c ≠ '(' := by
  simp only [isOpener, Bool.or_eq_true, beq_iff_eq] at h
  rcases h with (((rfl | rfl) | rfl) | rfl) | rfl <;> decide

theorem ne_nil_of_next {t : Text} (h : next ≠ []) : t ++ next ≠ [] := by simp [h]

/-- What stands between the parenthesis of a group and its content is written as it was read. -/
theorem Passes.written_of_opener (hnext : next ≠ []) : ∀ {cut : Cut} {scope : Scope} {ledger : Ledger}
    {behind : Text}, r.Passes next scope ledger behind cut →
    (∀ c ∈ source cut, isOpener c = true) → written cut = source cut
  | [], _, _, _, _, _ => rfl
  | (w, piece) :: cut, scope, ledger, behind, h, hall => by
      obtain ⟨hne, hsegment, hrest⟩ := h
      rw [source_cons] at hall
      have ih := hrest.written_of_opener hnext fun c hc => hall c (List.mem_append_right w hc)
      obtain ⟨x, d, rfl⟩ := (List.eq_nil_or_concat' w).resolve_left hne
      obtain ⟨hseam, hclose, hopen⟩ := isSeam_of_isOpener (hall d (by simp))
      have htext := (ending_of_segment hsegment rfl (ne_nil_of_next hnext)).text_eq_of_last hseam hclose
        fun hd => absurd hd hopen
      rw [written_cons, source_cons, ih, htext]

/-- What opens a group at the end of a front is written at its end. -/
theorem Passes.written_opening (hnext : next ≠ []) {e : Text} (he : ∀ c ∈ e, isOpener c = true)
    (hquestion : e.head? = some '?') : ∀ {cut : Cut} {scope : Scope} {ledger : Ledger}
    {behind x : Text}, r.Passes next scope ledger behind cut → source cut = x ++ '(' :: e →
    ∃ z, written cut = z ++ '(' :: e
  | [], _, _, _, x, _, hsource => by
      cases x <;> cases hsource
  | (w, piece) :: cut, scope, ledger, behind, x, h, hsource => by
      obtain ⟨hne, hsegment, hrest⟩ := h
      rw [source_cons] at hsource
      rw [written_cons]
      rcases List.append_eq_append_iff.1 hsource with ⟨a, hx, hcut⟩ | ⟨c, hw, hcut⟩
      · obtain ⟨z, hz⟩ := hrest.written_opening hnext he hquestion hcut
        exact ⟨piece.text ++ z, by rw [hz, List.append_assoc]⟩
      · cases c with
        | nil =>
          rw [List.nil_append] at hcut
          obtain ⟨z, hz⟩ := hrest.written_opening hnext he hquestion (x := []) hcut.symm
          exact ⟨piece.text ++ z, by rw [hz, List.append_assoc]⟩
        | cons d f =>
          -- the piece reaches over the parenthesis
          obtain ⟨rfl, hf⟩ : '(' = d ∧ e = f ++ source cut := List.cons.inj hcut
          have hwritten := hrest.written_of_opener hnext fun c hc =>
            he c (hf ▸ List.mem_append_right f hc)
          have hending := ending_of_segment hsegment rfl (ne_nil_of_next hnext)
          have htext : piece.text = w := by
            rcases List.eq_nil_or_concat' f with rfl | ⟨y, d, rfl⟩
            · rw [hw] at hending ⊢
              refine hending.text_eq_of_last rfl (by decide) fun _ => ?_
              rw [List.nil_append] at hf
              rw [List.head?_append, ← hf, hquestion]
              rfl
            · obtain ⟨hseam, hclose, hopen⟩ := isSeam_of_isOpener (he d (by rw [hf]; simp))
              have hw' : w = (x ++ '(' :: y) ++ [d] := by rw [hw]; simp
              rw [hw'] at hending ⊢
              exact hending.text_eq_of_last hseam hclose fun hd => absurd hd hopen
          exact ⟨x, by rw [htext, hwritten, hw, hf]; simp⟩

end Reader

/-- The delimiters, and what opens a group that does not capture. -/
def seams : List Text := [['('], [')'], ['|']] ++ openersReversed.map List.reverse

/-- A text that ends with a delimiter or with what opens a group. -/
def EndsAtSeam (t : Text) : Prop := ∃ x, ∃ s ∈ seams, t = x ++ s

theorem EndsAtSeam.append_left {t : Text} (h : EndsAtSeam t) (u : Text) : EndsAtSeam (u ++ t) := by
  obtain ⟨x, s, hs, rfl⟩ := h
  exact ⟨u ++ x, s, hs, by rw [List.append_assoc]⟩

theorem endsAtSeam_of_isDelimiter {d : Char} (h : isDelimiter d = true) (x : Text) :
    EndsAtSeam (x ++ [d]) := by
  simp only [isDelimiter, Bool.or_eq_true, beq_iff_eq] at h
  rcases h with (rfl | rfl) | rfl
  · exact ⟨x, ['('], by decide, rfl⟩
  · exact ⟨x, [')'], by decide, rfl⟩
  · exact ⟨x, ['|'], by decide, rfl⟩

theorem isSeam_of_isDelimiter {d : Char} (h : isDelimiter d = true) : isSeam d = true := by
  simp only [isDelimiter, Bool.or_eq_true, beq_iff_eq] at h
  rcases h with (rfl | rfl) | rfl <;> decide

namespace Reader

variable {r : Reader} {next : Text} {scope : Scope} {ledger : Ledger} {behind rest : Text}
  {piece : Segment}

/-- A piece that ends at a delimiter, and that is not removed, is written with a seam at its end. -/
theorem Ending.endsAtSeam {x : Text} {d : Char} (h : Ending (x ++ [d]) rest piece)
    (hd : isDelimiter d = true) (hleft : piece.text ≠ []) : EndsAtSeam piece.text := by
  cases h with
  | same htext =>
    rw [htext]
    exact endsAtSeam_of_isDelimiter hd x
  | opens hread hnext htext =>
    rcases htext with htext | htext
    · rw [htext]
      exact ⟨[], ['('], by decide, rfl⟩
    · rw [htext]
      exact ⟨[], ['(', '?', ':'], by decide, rfl⟩
  | separates before hread htext =>
    rcases htext with htext | htext
    · exact absurd htext hleft
    · rw [htext]
      exact ⟨['(', '?', ':'], [')'], by decide, rfl⟩
  | other before c hread hnone =>
    obtain rfl : d = c := by simpa using (List.append_inj' hread rfl).2
    rw [isSeam_of_isDelimiter hd] at hnone
    cases hnone

theorem Passes.endsAtSeam_of_isDelimiter (hnext : next ≠ []) {d : Char}
    (hd : isDelimiter d = true) : ∀ {cut : Cut} {scope : Scope} {ledger : Ledger} {behind x : Text},
    r.Passes next scope ledger behind cut → source cut = x ++ [d] →
    cut.getLast?.all (fun y => y.2.text ≠ []) = true → EndsAtSeam (written cut)
  | [], _, _, _, x, _, hsource, _ => by
      cases x <;> cases hsource
  | [(w, piece)], scope, ledger, behind, x, h, hsource, hlast => by
      obtain ⟨hne, hsegment, -⟩ := h
      have hw : w = x ++ [d] := by simpa [source] using hsource
      have hending := ending_of_segment hsegment rfl (ne_nil_of_next hnext)
      rw [hw] at hending
      have hseam := hending.endsAtSeam hd (by simpa using hlast)
      simpa [written, render] using hseam
  | (w, piece) :: (v, piece') :: cut, scope, ledger, behind, x, h, hsource, hlast => by
      obtain ⟨hne, hsegment, hrest⟩ := h
      have hsource' : ∃ y, source ((v, piece') :: cut) = y ++ [d] := by
        obtain ⟨y, c, hy⟩ := (List.eq_nil_or_concat' (source ((v, piece') :: cut))).resolve_left (by
          rw [source_cons]
          simp [hrest.1])
        rw [source_cons, hy, ← List.append_assoc] at hsource
        obtain ⟨-, hc⟩ := List.append_inj' hsource rfl
        exact ⟨y, hy.trans (by rw [hc])⟩
      obtain ⟨y, hy⟩ := hsource'
      rw [written_cons]
      exact (hrest.endsAtSeam_of_isDelimiter hnext hd hy hlast).append_left piece.text

/-- **A front ends at a seam where its text does**, unless the last piece has left nothing behind. -/
theorem Passes.endsAtSeam (hnext : next ≠ []) {cut : Cut}
    (h : r.Passes next scope ledger behind cut)
    (hlast : cut.getLast?.all (fun y => y.2.text ≠ []) = true)
    (hends : (source cut).reverse.head?.any isDelimiter = true ∨
      openersReversed.any (·.isPrefixOf (source cut).reverse) = true) :
    EndsAtSeam (written cut) := by
  rcases hends with hends | hends
  · obtain ⟨d, hd, hdelimiter⟩ := (Option.any_eq_true _ _).1 hends
    obtain ⟨x, hx⟩ := List.head?_eq_some_iff.1 hd
    refine h.endsAtSeam_of_isDelimiter hnext hdelimiter (x := x.reverse) ?_ hlast
    rw [← List.reverse_reverse (source cut), hx, List.reverse_cons]
  · obtain ⟨o, ho, hprefix⟩ := List.any_eq_true.1 hends
    obtain ⟨x, hx⟩ := List.isPrefixOf_iff_prefix.1 hprefix
    have hsource : source cut = x.reverse ++ o.reverse := by
      rw [← List.reverse_append, hx, List.reverse_reverse]
    have hopening : ∃ e, o.reverse = '(' :: e ∧ (∀ c ∈ e, isOpener c = true) ∧
        e.head? = some '?' := by
      simp only [openersReversed, List.mem_cons, List.not_mem_nil, or_false] at ho
      rcases ho with rfl | rfl | rfl | rfl | rfl <;>
        exact ⟨_, rfl, List.all_eq_true.1 rfl, rfl⟩
    obtain ⟨e, he, hall, hquestion⟩ := hopening
    rw [he] at hsource
    obtain ⟨z, hz⟩ := h.written_opening hnext hall hquestion hsource
    refine ⟨z, o.reverse, ?_, by rw [hz, he]⟩
    exact List.mem_append_right _ (List.mem_map_of_mem ho)

end Reader

/-! ## 3. Seams of native patterns -/

variable {strict named : Bool} {mode : Mode}

/-- A text whose lexemes are the same before every text that begins with no question mark. -/
def Severs (strict named : Bool) (s : Text) : Prop :=
  ∃ ls, ∀ t, t.head? ≠ some '?' →
    lexAll? strict named 0 (s ++ t) [] = (lexAll? strict named 0 t []).map (ls ++ ·)

namespace Severs

theorem nil : Severs strict named [] := ⟨[], fun t _ => by
  rw [List.nil_append]
  cases lexAll? strict named 0 t [] <;> rfl⟩

/-- One lexeme more in front. -/
theorem cons {c : Char} {s u : Text} {l : Lexeme} {n : Nat}
    (h : ∀ t, t.head? ≠ some '?' →
      lexeme? strict named c (s ++ t) = some (l, n) ∧ (s ++ t).drop n = u ++ t)
    (hu : Severs strict named u) : Severs strict named (c :: s) := by
  obtain ⟨ls, hls⟩ := hu
  refine ⟨l :: ls, fun t ht => ?_⟩
  obtain ⟨hl, hdrop⟩ := h t ht
  show lexAll? strict named 0 (c :: (s ++ t)) [] = _
  simp only [lexAll?, hl]
  rw [lexAll?_skip, hdrop, lexAll?_read, hls t ht, Option.map_map]
  rfl

/-- A character that stands for itself. -/
theorem literal {c : Char} {u : Text} (h : ∀ t, lexeme? strict named c t = some (.literal c.toNat, 0))
    (hu : Severs strict named u) : Severs strict named (c :: u) :=
  cons (fun _ _ => ⟨h _, rfl⟩) hu

/-- A question mark before another character is a quantifier. -/
theorem question {c : Char} {u : Text} (hc : c ≠ '?') (hu : Severs strict named (c :: u)) :
    Severs strict named ('?' :: c :: u) := by
  refine cons (l := .quantifier 0 (some 1) true) (n := 0) (fun t _ => ⟨?_, rfl⟩) hu
  have hnext : (c :: u ++ t).head? ≠ some '?' := by simpa using hc
  show quantifier? 0 (some 1) (c :: u ++ t) 0 = _
  unfold quantifier?
  rw [if_pos (by rfl), List.drop_zero, if_neg hnext]

/-- A character with a meaning of its own, behind a backslash. -/
theorem escaped {c : Char} {u : Text} (hc : c = '(' ∨ c = ')' ∨ c = '|')
    (hu : Severs strict named u) : Severs strict named ('\\' :: c :: u) := by
  refine cons (l := .literal c.toNat) (n := 1) (fun _ _ => ⟨?_, rfl⟩) hu
  rcases hc with rfl | rfl | rfl <;> cases strict <;> rfl

end Severs

/-- **A seam is read for itself**, also when its first character is escaped. -/
theorem severs_seam {s : Text} (hs : s ∈ seams) :
    Severs strict named s ∧ Severs strict named ('\\' :: s) := by
  have hopening {e : Text} {kind : Opening}
      (h : ∀ t, opening? (e ++ t) = some (kind, e.length)) : Severs strict named ('(' :: e) := by
    refine .cons (l := .opening kind) (n := e.length) (fun t _ => ⟨?_, by simp⟩) .nil
    show (opening? (e ++ t)).map _ = _
    rw [h]
    rfl
  simp only [seams, openersReversed, List.map_cons, List.map_nil, List.cons_append, List.nil_append,
    List.mem_cons, List.not_mem_nil, or_false] at hs
  rcases hs with rfl | rfl | rfl | rfl | rfl | rfl | rfl | rfl
  · refine ⟨.cons (l := .opening (.capture none)) (n := 0) (fun t ht => ⟨?_, rfl⟩) .nil,
      .escaped (.inl rfl) .nil⟩
    show (opening? t).map _ = _
    rw [opening?_of_ne ht]
    rfl
  · exact ⟨.cons (fun t _ => ⟨rfl, rfl⟩) .nil, .escaped (.inr (.inl rfl)) .nil⟩
  · exact ⟨.cons (fun t _ => ⟨rfl, rfl⟩) .nil, .escaped (.inr (.inr rfl)) .nil⟩
  · have hplain (t : Text) : opening? (['?', ':'] ++ t) = some (.plain [] [], 2) := by
      show opening? ('?' :: ':' :: t) = _
      rw [opening?_modifiers (by decide) (by decide) (by decide)]
      rfl
    exact ⟨hopening hplain,
      .escaped (.inl rfl) (.question (by decide) (.literal (fun _ => rfl) .nil))⟩
  · exact ⟨hopening (e := ['?', '=']) fun t => rfl,
      .escaped (.inl rfl) (.question (by decide) (.literal (fun _ => rfl) .nil))⟩
  · exact ⟨hopening (e := ['?', '!']) fun t => rfl,
      .escaped (.inl rfl) (.question (by decide) (.literal (fun _ => rfl) .nil))⟩
  · exact ⟨hopening (e := ['?', '<', '=']) fun t => rfl, .escaped (.inl rfl) (.question (by decide)
      (.literal (fun _ => rfl) (.literal (fun _ => rfl) .nil)))⟩
  · exact ⟨hopening (e := ['?', '<', '!']) fun t => rfl, .escaped (.inl rfl) (.question (by decide)
      (.literal (fun _ => rfl) (.literal (fun _ => rfl) .nil)))⟩

theorem inert_seam {s : Text} (hs : s ∈ seams) (t : Text) :
    (Inert (s ++ t) ∧ isLandmark (s ++ t) = true) ∧
      Inert ('\\' :: s ++ t) ∧ isLandmark ('\\' :: s ++ t) = true := by
  simp only [seams, openersReversed, List.map_cons, List.map_nil, List.cons_append, List.nil_append,
    List.mem_cons, List.not_mem_nil, or_false] at hs
  rcases hs with rfl | rfl | rfl | rfl | rfl | rfl | rfl | rfl <;>
    exact ⟨⟨⟨by decide, fun h => absurd h (by decide)⟩, rfl⟩,
      ⟨by decide, fun _ h => absurd (Option.some.inj h) (by decide)⟩, rfl⟩

/-- A seam that ends outside of classes and escapes begins there, or an escape that begins there
does with its first character. -/
theorem EndsAtSeam.exists_landmark {t : Text} (h : EndsAtSeam t)
    (hspot : Spot.outside.after t = .outside) :
    ∃ x, ∃ s ∈ seams, Spot.outside.after x = .outside ∧ (t = x ++ s ∨ t = x ++ '\\' :: s) := by
  obtain ⟨x, s, hs, rfl⟩ := h
  have hclass (b : Bool) : Spot.after ⟨true, b⟩ s ≠ .outside := by
    have hall : ∀ b : Bool, ∀ s ∈ seams, Spot.after ⟨true, b⟩ s ≠ .outside := by decide
    exact hall b s hs
  rw [Spot.after_append] at hspot
  rcases List.eq_nil_or_concat' x with rfl | ⟨y, c, rfl⟩
  · exact ⟨[], s, hs, rfl, .inl rfl⟩
  · cases hx : Spot.outside.after (y ++ [c]) with
    | mk inClass escaped =>
      rw [hx] at hspot
      cases inClass with
      | true => exact absurd hspot (hclass escaped)
      | false =>
        cases escaped with
        | false => exact ⟨y ++ [c], s, hs, hx, .inl rfl⟩
        | true =>
          -- the character before it is the backslash
          rw [Spot.after_append] at hx
          cases hy : Spot.outside.after y with
          | mk inClass escaped =>
            rw [hy] at hx
            change Spot.next ⟨inClass, escaped⟩ c = ⟨false, true⟩ at hx
            unfold Spot.next at hx
            cases escaped with
            | true => cases hx
            | false =>
              simp only [Bool.false_eq_true, if_false] at hx
              split at hx
              · rename_i hc
                obtain rfl : inClass = false := congrArg Spot.inClass hx
                exact ⟨y, s, hs, hy, .inr (by rw [hc]; simp)⟩
              · split at hx <;> cases congrArg Spot.escaped hx

/-- An empty group may stand in front of what does not begin with a quantifier. -/
theorem interchange_emptyGroup {t : Text} (h : leastRounds? t = none) :
    Option.Rel Interchange (lexAll? strict named 0 t [])
      (lexAll? strict named 0 (emptyGroup ++ t) []) := by
  rw [lexAll?_emptyGroup]
  cases ht : lexAll? strict named 0 t [] with
  | none => exact .none
  | some ls =>
    refine .some (.plainGroup ?_)
    cases hl : ls.head? with
    | none => rfl
    | some l =>
      cases l with
      | quantifier min max greedy =>
        rw [leastRounds?_of_lexAll? ht hl] at h
        cases h
      | _ => rfl

/-- Texts that do not run together: there is none on one side, or a delimiter stands between
them. -/
def Apart (a b : Text) : Prop :=
  a = [] ∨ b = [] ∨ EndsAtSeam a ∨ b.head?.any isDelimiter = true

/-- **Between texts that do not run together an empty group makes no difference**, if the second
does not begin with a quantifier. -/
theorem meaning_apart {a b : Text} (h : Apart a b) (ha : Spot.outside.after a = .outside)
    (hb : leastRounds? b = none) :
    meaning mode (a ++ b) = meaning mode (a ++ (emptyGroup ++ b)) := by
  have hinert := inert_emptyGroup_append b
  rcases h with rfl | rfl | hseam | hdelimiter
  · exact meaning_congr fun named => interchange_emptyGroup hb
  · refine meaning_congr fun named => ?_
    rw [lexAll?_split ha hinert.1 hinert.2, List.append_nil]
    cases lexAll? mode.unicode named 0 a [] with
    | none => exact .none
    | some ls =>
      rw [Option.bind_some, lexAll?_read, List.reverse_reverse, lexAll?_emptyGroup]
      have hgroup : Interchange [] [.opening (.plain [] []), .close] := .plainGroup rfl
      have happend := hgroup.append_left ls
      rw [List.append_nil] at happend
      exact .some happend
  · obtain ⟨x, s, hs, hx, hcase⟩ := hseam.exists_landmark ha
    have hquestion : b.head? ≠ some '?' := by
      intro hhead
      obtain ⟨t, rfl⟩ := List.head?_eq_some_iff.1 hhead
      cases hb
    -- the seam is a landmark, with or without a backslash
    have hsevered {u : Text} (hu : ∀ named, Severs mode.unicode named u)
        (hmark : ∀ t, Inert (u ++ t) ∧ isLandmark (u ++ t) = true) :
        meaning mode (x ++ u ++ b) = meaning mode (x ++ u ++ (emptyGroup ++ b)) := by
      rw [List.append_assoc, List.append_assoc]
      refine meaning_exchange hx (hmark b) (hmark (emptyGroup ++ b)) fun named => ?_
      obtain ⟨ls, hls⟩ := hu named
      rw [hls b hquestion, hls (emptyGroup ++ b) (by simp [emptyGroup])]
      have hb' : Option.Rel Interchange (lexAll? mode.unicode named 0 b [])
          (lexAll? mode.unicode named 0 (emptyGroup ++ b) []) := interchange_emptyGroup hb
      generalize lexAll? mode.unicode named 0 b [] = y at hb'
      generalize lexAll? mode.unicode named 0 (emptyGroup ++ b) [] = z at hb'
      cases hb' with
      | none => exact .none
      | some hms => exact .some (hms.append_left ls)
    rcases hcase with rfl | rfl
    · exact hsevered (fun named => (severs_seam hs).1) fun t => (inert_seam hs t).1
    · exact hsevered (fun named => (severs_seam hs).2) fun t => (inert_seam hs t).2
  · have hmark : Inert b ∧ isLandmark b = true := by
      obtain ⟨d, hd, hmark⟩ := (Option.any_eq_true _ _).1 hdelimiter
      obtain ⟨t, rfl⟩ := List.head?_eq_some_iff.1 hd
      simp only [isDelimiter, Bool.or_eq_true, beq_iff_eq] at hmark
      rcases hmark with (rfl | rfl) | rfl <;>
        exact ⟨⟨by decide, fun h => absurd h (by decide)⟩, rfl⟩
    exact meaning_exchange ha hmark hinert fun named => interchange_emptyGroup hb

/-! ## 4. What comes before a closing parenthesis -/

theorem isPrefixOf_append_close {o : Text} (h : ')' ∉ o) (x y : Text) : ∀ b : Text,
    o.isPrefixOf (b ++ ')' :: x) = o.isPrefixOf (b ++ ')' :: y) := by
  induction o with
  | nil => intro b; rfl
  | cons c o ih =>
    intro b
    simp only [List.mem_cons, not_or] at h
    cases b with
    | nil =>
      have hc : (c == ')') = false := by simpa using Ne.symm h.1
      simp [List.isPrefixOf, hc]
    | cons d b => simp only [List.cons_append, List.isPrefixOf, ih h.2 b]

namespace Reader

variable {r : Reader} {next : Text}

theorem separator_close (x y b ahead flags : Text) :
    separator (b ++ ')' :: x) ahead flags = separator (b ++ ')' :: y) ahead flags := by
  have hclose : ∀ o ∈ openersReversed, ')' ∉ o := by decide
  have hopeners : openersReversed.any (·.isPrefixOf (b ++ ')' :: x)) =
      openersReversed.any (·.isPrefixOf (b ++ ')' :: y)) := by
    rw [Bool.eq_iff_iff, List.any_eq_true, List.any_eq_true]
    refine exists_congr fun o => and_congr_right fun ho => ?_
    rw [isPrefixOf_append_close (hclose o ho) x y b]
  unfold separator
  rw [hopeners]
  cases b <;> rfl

theorem segment_close (r : Reader) (scope : Scope) (ledger : Ledger) (x y b t : Text) :
    r.segment scope ledger (b ++ ')' :: x) t = r.segment scope ledger (b ++ ')' :: y) t := by
  have hparenthesis : r.parenthesis ledger (b ++ ')' :: x) t =
      r.parenthesis ledger (b ++ ')' :: y) t := by
    unfold parenthesis
    split
    · rfl
    split
    · rfl
    split
    · rw [separator_close x y b]
    · rfl
  have hblank : r.blank (b ++ ')' :: x) t = r.blank (b ++ ')' :: y) t := by
    unfold blank
    split
    · rw [separator_close x y b]
    · rfl
  unfold segment token?
  rw [hparenthesis, hblank]

/-- **What has been read before a closing parenthesis does not matter** for the pieces after it. -/
theorem Passes.behind (x y : Text) : ∀ {cut : Cut} {scope : Scope} {ledger : Ledger} {b : Text},
    r.Passes next scope ledger (b ++ ')' :: x) cut → r.Passes next scope ledger (b ++ ')' :: y) cut
  | [], _, _, _, _ => trivial
  | (w, piece) :: cut, scope, ledger, b, h => by
      obtain ⟨hne, hsegment, hrest⟩ := h
      rw [← List.append_assoc] at hrest
      refine ⟨hne, ?_, ?_⟩
      · rw [segment_close r scope ledger y x b]
        exact hsegment
      · rw [← List.append_assoc]
        exact hrest.behind x y

end Reader

end ExtensibleRegex
