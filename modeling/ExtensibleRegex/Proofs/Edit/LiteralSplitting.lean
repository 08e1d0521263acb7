import ExtensibleRegex.Proofs.Edit.Splitting

/-!
# Splitting at a text taken literally

A separator taken literally is looked for in the text itself, without a regex (`splitLiteral`). Here it is
compared with the regex of the escaped separator, which finds the separator and nothing else
(`Regex.Seeks`).

* A separator that is not empty: both go on behind the first occurrence ahead (`splitLiteralFrom_first`),
  and each match cuts. The regex does not match the empty text, so that the last piece always counts.
* The empty separator: the regex matches at every place. Its matches cut behind each character, the last
  one at the end of the text, where the empty piece behind it does not count.

`split_literal_eq` says that both answer the same.
-/

namespace ExtensibleRegex

/-! ## 1. Occurrences -/

variable {s : Text}

/-- The characters of an occurrence are passed over. -/
theorem splitLiteralFrom_skip (s : Text) : ∀ (k : Nat) (piece t : Text),
    splitLiteralFrom s k piece t = splitLiteralFrom s 0 piece (t.drop k)
  | 0, _, _ => rfl
  | _ + 1, _, [] => rfl
  | k + 1, piece, _ :: t => splitLiteralFrom_skip s k piece t

/-- Without an occurrence there is one piece. -/
theorem splitLiteralFrom_absent : ∀ (t piece : Text), ¬s <:+: t →
    splitLiteralFrom s 0 piece t = [piece.reverse ++ t]
  | [], piece, _ => by
      rw [splitLiteralFrom, List.append_nil]
  | c :: t, piece, h => by
      have hhere : ¬s <+: c :: t := fun hs => h (List.infix_cons_iff.2 (.inl hs))
      have hrest : ¬s <:+: t := fun hs => h (List.infix_cons_iff.2 (.inr hs))
      rw [splitLiteralFrom, if_neg (List.isPrefixOf_iff_prefix.not.2 hhere),
        splitLiteralFrom_absent t (c :: piece) hrest, List.reverse_cons, List.append_assoc]
      rfl

/-- Before the first occurrence stands a piece, and behind it the text is split on. -/
theorem splitLiteralFrom_first (hs : s ≠ []) (t : Text) : ∀ u piece : Text,
    (∀ m < u.length, ¬s <+: (u ++ (s ++ t)).drop m) →
      splitLiteralFrom s 0 piece (u ++ (s ++ t)) =
        (piece.reverse ++ u) :: splitLiteralFrom s 0 [] t
  | [], piece, _ => by
      obtain ⟨c, s', rfl⟩ := List.exists_cons_of_ne_nil hs
      have hhere : c :: s' <+: c :: (s' ++ t) := List.prefix_append (c :: s') t
      rw [List.nil_append, List.cons_append, splitLiteralFrom,
        if_pos (List.isPrefixOf_iff_prefix.2 hhere), splitLiteralFrom_skip, List.length_cons,
        Nat.add_sub_cancel, List.drop_left, List.append_nil]
  | c :: u, piece, hbefore => by
      have hhere : ¬s <+: c :: (u ++ (s ++ t)) := hbefore 0 (Nat.succ_pos _)
      rw [List.cons_append, splitLiteralFrom, if_neg (List.isPrefixOf_iff_prefix.not.2 hhere),
        splitLiteralFrom_first hs t u (c :: piece) fun m hm => hbefore (m + 1) (Nat.succ_lt_succ hm),
        List.reverse_cons, List.append_assoc]
      rfl

/-! ## 2. The regex of an escaped text -/

namespace Regex.Seeks

variable {re : Regex} {p : Place} {c : Captures}

theorem groups_eq (h : re.Seeks s) : re.engine.program.groups = 0 := by
  rw [h.program]

theorem searchAt?_eq (h : re.Seeks s) (p : Place) : re.searchAt? p re.sticky =
    (Native.Program.search? ⟨Native.Node.chars s .empty, 0⟩ p).map re.captures := by
  rw [searchAt?, h.sticky, Native.Engine.search?, h.program]
  rfl

/-- What is found is the first occurrence ahead. -/
theorem first_of_found (h : re.Seeks s) (hfound : re.searchAt? p re.sticky = some c) : ∃ u,
    p.Stretch u c.whole.start ∧ c.whole.start.Stretch s c.whole.stop ∧
      ∀ m < u.length, ¬s <+: p.ahead.drop m := by
  rw [h.searchAt?_eq] at hfound
  obtain ⟨f, hsearch, rfl⟩ := Option.map_eq_some_iff.1 hfound
  obtain ⟨n, hn, hmatch, hbefore⟩ := Native.Program.search?_eq_some hsearch
  rw [Native.matchAt?_chars] at hmatch
  split at hmatch
  · rename_i hat
    cases hmatch
    have hwhole := (p.advance n).stretch_advance s.length
    rw [← List.prefix_iff_eq_take.1 hat] at hwhole
    refine ⟨p.ahead.take n, p.stretch_advance n, hwhole, fun m hm => ?_⟩
    rw [List.length_take_of_le hn] at hm
    rw [← Place.ahead_advance]
    exact Native.matchAt?_chars_eq_none.1 (hbefore m hm)
  · cases hmatch

/-- Where nothing is found, the text does not occur ahead. -/
theorem absent_of_ended (h : re.Seeks s) (hended : re.searchAt? p re.sticky = none) :
    ¬s <:+: p.ahead := by
  rintro ⟨u, v, hahead⟩
  rw [h.searchAt?_eq, Option.map_eq_none_iff] at hended
  have hlength : u.length ≤ p.ahead.length := by
    rw [← hahead]
    simp only [List.length_append]
    omega
  have hnone := Native.Program.search?_eq_none hended u.length hlength
  refine Native.matchAt?_chars_eq_none.1 hnone ⟨v, ?_⟩
  rw [Place.ahead_advance, ← hahead, List.append_assoc, List.drop_left]

/-! ## 3. Separators that are not empty -/

/-- The pieces around the matches are those around the occurrences. -/
theorem pieces_of_walk (h : re.Seeks s) (hs : s ≠ []) {o : Option Place} {cs : List Captures}
    (hwalk : re.Walk o cs) : (∀ c ∈ cs, c.between = []) → ∀ p, o = some p →
      piecesBefore p (cutsFrom p cs) ++ [(cutAfter p (cutsFrom p cs)).ahead] =
        splitLiteralFrom s 0 [] p.ahead := by
  induction hwalk with
  | past =>
    intro _ p hp
    cases hp
  | ended hnone =>
    rintro - p ⟨rfl⟩
    rw [splitLiteralFrom_absent _ _ (h.absent_of_ended hnone)]
    rfl
  | @found p c cs hfound _ ih =>
    rintro hbetween _ ⟨rfl⟩
    obtain ⟨u, hu, hw, hbefore⟩ := h.first_of_found hfound
    have hempty : c.whole.isEmpty = false := by
      rw [hw.isEmpty_span, List.isEmpty_eq_false_iff]
      exact hs
    have hlt : p.index < c.whole.stop.index := (hu.trans hw).index_lt_iff.2 (by simp [hs])
    have hrest := ih (fun d hd => hbetween d (List.mem_cons_of_mem c hd)) c.whole.stop
      (Span.resume?_of_not_empty hempty)
    rw [cutsFrom, if_pos hlt, piecesBefore, hbetween c List.mem_cons_self, hu.text_span]
    rw [hu.ahead, hw.ahead] at hbefore ⊢
    rw [splitLiteralFrom_first hs _ u [] hbefore, ← hrest]
    rfl

theorem find?_nil (h : re.Seeks s) (hs : s ≠ []) : re.find? [] = none := by
  rw [find?, ← h.sticky]
  cases hfound : re.searchAt? (.first []) re.sticky with
  | none => rfl
  | some c =>
    obtain ⟨u, hu, hw, -⟩ := h.first_of_found hfound
    have hahead : [] = u ++ (s ++ c.whole.stop.ahead) := hu.ahead.trans (hw.ahead ▸ rfl)
    exact absurd (List.append_eq_nil_iff.1 (List.append_eq_nil_iff.1 hahead.symm).2).1 hs

/-- **A separator that is not empty** splits as the text that it seeks. -/
theorem pieces_eq_splitLiteralFrom (h : re.Seeks s) (hs : s ≠ []) (text : Text) :
    re.pieces text = splitLiteralFrom s 0 [] text := by
  have hrounded : ¬re.Rounded text := by
    intro hrounded
    have hmatch := hrounded.isMatch
    rw [isMatch, h.find?_nil hs] at hmatch
    cases hmatch
  rw [pieces_eq hrounded]
  exact h.pieces_of_walk hs (re.walk_allMatches text) (between_of_mem h.groups_eq) (.first text) rfl

/-! ## 4. The empty separator -/

/-- The empty text is found where it is looked for. -/
theorem whole_of_found (h : re.Seeks []) (hfound : re.searchAt? p re.sticky = some c) :
    c.whole = ⟨p, p⟩ := by
  obtain ⟨u, hu, hw, hbefore⟩ := h.first_of_found hfound
  have hnil : u = [] := by
    by_contra hne
    exact hbefore 0 (List.length_pos_iff.2 hne) List.nil_prefix
  subst hnil
  have hstart := hu.eq_of_nil
  have hstop := hw.eq_of_nil
  rw [← hstart] at hstop
  exact congrArg₂ Span.mk hstart.symm hstop.symm

theorem searchAt?_ne_none (h : re.Seeks []) (p : Place) : re.searchAt? p re.sticky ≠ none :=
  fun hnone => h.absent_of_ended hnone List.nil_infix

/-- Behind a cut, each character is cut off, up to the last. -/
theorem cutsFrom_of_walk (h : re.Seeks []) {o : Option Place} {cs : List Captures}
    (hwalk : re.Walk o cs) : (∀ c ∈ cs, c.between = []) → ∀ p : Place, o = p.next?.map Prod.snd →
      piecesBefore p (cutsFrom p cs) = p.ahead.map ([·]) ∧
      (cutAfter p (cutsFrom p cs)).atEnd = true := by
  induction hwalk with
  | past =>
    intro _ p hp
    have hend : p.atEnd = true := p.next?_eq_none_iff.1 (Option.map_eq_none_iff.1 hp.symm)
    have hahead : p.ahead = [] := List.isEmpty_iff.1 hend
    rw [hahead]
    exact ⟨rfl, hend⟩
  | @ended q hnone => exact absurd hnone (h.searchAt?_ne_none q)
  | @found q c cs hfound _ ih =>
    intro hbetween p hp
    obtain ⟨⟨d, q'⟩, hnext, rfl⟩ := Option.map_eq_some_iff.1 hp.symm
    have hstep := Place.stretch_next hnext
    have hwhole := h.whole_of_found hfound
    have hresume : c.whole.resume? = q'.next?.map Prod.snd := hwhole ▸ Span.resume?_refl q'
    obtain ⟨hpieces, hend⟩ := ih (fun d hd => hbetween d (List.mem_cons_of_mem c hd)) q' hresume
    have hlt : p.index < c.whole.stop.index := by
      rw [hwhole]
      exact hstep.index_lt_iff.2 (List.cons_ne_nil d [])
    rw [cutsFrom, if_pos hlt]
    constructor
    · rw [piecesBefore, hbetween c List.mem_cons_self, hwhole, hstep.text_span, hstep.ahead, hpieces]
      rfl
    · show (cutAfter c.whole.stop (cutsFrom c.whole.stop cs)).atEnd = true
      rw [hwhole]
      exact hend

/-- The match where the walk begins does not cut. -/
theorem cutsFrom_of_found (h : re.Seeks []) {cs : List Captures} (hwalk : re.Walk (some p) cs)
    (hbetween : ∀ c ∈ cs, c.between = []) :
    piecesBefore p (cutsFrom p cs) = p.ahead.map ([·]) ∧
      (cutAfter p (cutsFrom p cs)).atEnd = true := by
  cases hwalk with
  | ended hnone => exact absurd hnone (h.searchAt?_ne_none p)
  | @found _ c cs hfound hrest =>
    have hwhole := h.whole_of_found hfound
    rw [hwhole, Span.resume?_refl] at hrest
    rw [cutsFrom, hwhole, if_neg (Nat.lt_irrefl _)]
    exact h.cutsFrom_of_walk hrest (fun d hd => hbetween d (List.mem_cons_of_mem c hd)) p rfl

/-- **The empty separator** splits into characters. -/
theorem pieces_eq_map (h : re.Seeks []) (text : Text) : re.pieces text = text.map ([·]) := by
  obtain ⟨hpieces, hend⟩ :=
    h.cutsFrom_of_found (re.walk_allMatches text) (between_of_mem h.groups_eq)
  have hrounded : re.Rounded text := by
    refine ⟨hend, ?_, fun c hc => ?_⟩
    · rw [isMatch, find?, ← h.sticky, Option.isSome_iff_ne_none]
      exact h.searchAt?_ne_none _
    · have hmem := (cutsFrom_sublist _ _).mem (List.mem_of_getLast? hc)
      obtain ⟨p, hp⟩ := (re.walk_allMatches text).searchAt?_of_mem c hmem
      rw [h.whole_of_found hp]
      exact beq_self_eq_true _
  exact hrounded.pieces_eq.trans hpieces

end Regex.Seeks

/-! ## 5. Splitting -/

/-- **Both ways of splitting agree**: at a text taken literally, and at the matches of the regex of the
escaped text, whatever the limit is. With a limit there are the first pieces of those without one. -/
theorem split_literal_eq (separator : Text) : ∃ re, Regex.native (escape separator) [] = .ok re ∧
    ∀ text, (∀ limit, ((RegexTask.split text limit).perform.run (.create re)).1 =
        .texts (splitAtText separator text limit)) ∧
      ∀ n, splitAtText separator text (some n) = (splitAtText separator text none).take n := by
  obtain ⟨re, hre, hseeks⟩ := exists_literalRegex separator
  refine ⟨re, hre, fun text => ⟨fun limit => ?_, fun n => rfl⟩⟩
  have hpieces : re.pieces text = splitLiteral separator text := by
    unfold splitLiteral
    split
    · rename_i hnil
      subst hnil
      exact hseeks.pieces_eq_map text
    · rename_i hs
      exact hseeks.pieces_eq_splitLiteralFrom hs text
  rw [RegexTask.run_split, splitAtText, ← hpieces]
  rfl

end ExtensibleRegex
