import ExtensibleRegex.Proofs.Dialect.Groups
import ExtensibleRegex.Proofs.Edit.Splicing

/-!
# Pieces of a text

A split goes through the matches of its separator and cuts the text at those that end further than the
cut before them (`cutsFrom`). What it puts down is the text before each cut and what lies behind the last
one (`Regex.pieces_eq`). That last piece is left out where the text has ended, the last cut was empty and
the separator matches the empty text (`Regex.Rounded`).

* Matches that do not cut are empty and stand where the last cut ends (`Follow.cutsFrom_cons`), so the
  pieces and the cuts make up the text (`Regex.exists_woven`). `split_keeps_text` says it of regexes in
  use.
* An empty cut lies behind the cut before it, so that the piece before it is not empty
  (`Follow.ne_nil_of_mem_piecesBefore`). The last piece, behind an empty cut at the end of the text, is
  empty, and left out only if the separator matches the empty text as well: `split_at_empty_matches`
  says when.
-/

namespace ExtensibleRegex

/-! ## 1. Cuts -/

/-- The matches at which a text is cut, behind a first cut: each ends further than the cut before it. -/
def cutsFrom : Place → List Captures → List Captures
  | _, [] => []
  | cut, c :: cs =>
    if cut.index < c.whole.stop.index then c :: cutsFrom c.whole.stop cs else cutsFrom cut cs

/-- Where the last of some cuts ends. -/
def cutAfter (cut : Place) (cs : List Captures) : Place := cs.foldl (fun _ c => c.whole.stop) cut

/-- What stands between two pieces: the texts of the groups of the cut, unless it is at the end of the
text. -/
def Captures.between (c : Captures) : List Text :=
  if c.whole.start.atEnd then [] else c.groups.map fun g => (g.map Span.text).getD []

/-- The text before each of some cuts, with what stands between. -/
def piecesBefore : Place → List Captures → List Text
  | _, [] => []
  | cut, c :: cs => (Span.mk cut c.whole.start).text :: (c.between ++ piecesBefore c.whole.stop cs)

/-- What a fold is left with that keeps the last element only. -/
theorem foldl_last {α β : Type} (f : α → β) : ∀ (b : β) (as : List α),
    as.foldl (fun _ a => f a) b = (as.getLast?.map f).getD b
  | _, [] => rfl
  | b, a :: as => by
      rw [List.foldl_cons, foldl_last f (f a) as, List.getLast?_cons]
      cases as.getLast? <;> rfl

/-- A split only sees the cuts among the matches. -/
theorem foldl_step : ∀ (ms : List Captures) (s : SplitState), ms.foldl SplitState.step s =
    ⟨cutAfter s.cut (cutsFrom s.cut ms),
      (cutsFrom s.cut ms).foldl (fun _ c => !c.whole.isEmpty) s.wideCut,
      (piecesBefore s.cut (cutsFrom s.cut ms)).reverse ++ s.pieces⟩
  | [], _ => rfl
  | c :: ms, s => by
      rw [List.foldl_cons, foldl_step ms, cutsFrom, SplitState.step]
      by_cases h : s.cut.index < c.whole.stop.index
      · simp only [if_pos h, cutAfter, List.foldl_cons, piecesBefore, Captures.between,
          List.reverse_cons, List.reverse_append, List.append_assoc, List.singleton_append]
      · simp only [if_neg h]

namespace Regex

/-- The matches of a text at which it is split. -/
def cuts (re : Regex) (text : Text) : List Captures := cutsFrom (.first text) (re.allMatches text)

/-- Where the last cut of a text ends. -/
def lastCut (re : Regex) (text : Text) : Place := cutAfter (.first text) (re.cuts text)

/-- A text has ended with an empty cut, or without any, and the separator matches the empty text. -/
structure Rounded (re : Regex) (text : Text) : Prop where
  atEnd : (re.lastCut text).atEnd = true
  isMatch : re.isMatch [] = true
  isEmpty : ∀ c ∈ (re.cuts text).getLast?, c.whole.isEmpty = true

variable {re : Regex} {text : Text}

/-- What a split has seen of a text when it comes to the last piece. -/
theorem pieces_eq_ite (re : Regex) (text : Text) : re.pieces text =
    (if (re.lastCut text).atEnd then
      if (re.find? []).isNone || ((re.cuts text).getLast?.map fun c => !c.whole.isEmpty).getD false
      then [] :: (piecesBefore (.first text) (re.cuts text)).reverse
      else (piecesBefore (.first text) (re.cuts text)).reverse
    else (re.lastCut text).ahead :: (piecesBefore (.first text) (re.cuts text)).reverse).reverse := by
  rw [pieces]
  simp only [foldl_step, foldl_last, List.append_nil]
  rfl

/-- An empty piece at the end is left out behind an empty cut or none, and only if the separator matches
the empty text. -/
theorem isNone_or_eq_false : ((re.find? []).isNone ||
      ((re.cuts text).getLast?.map fun c => !c.whole.isEmpty).getD false) = false ↔
    re.isMatch [] = true ∧ ∀ c ∈ (re.cuts text).getLast?, c.whole.isEmpty = true := by
  unfold isMatch
  cases re.find? [] <;> cases (re.cuts text).getLast? <;> simp

/-- **The pieces of a text** are what stands before its cuts, and what is left behind the last one. -/
theorem pieces_eq (h : ¬re.Rounded text) : re.pieces text =
    piecesBefore (.first text) (re.cuts text) ++ [(re.lastCut text).ahead] := by
  rw [pieces_eq_ite]
  by_cases hend : (re.lastCut text).atEnd = true
  · have hnothing : (re.lastCut text).ahead = [] := List.isEmpty_iff.1 hend
    rw [if_pos hend, hnothing, if_pos, List.reverse_cons, List.reverse_reverse]
    rw [← Bool.not_eq_false, isNone_or_eq_false]
    exact fun hempty => h ⟨hend, hempty.1, hempty.2⟩
  · rw [if_neg hend, List.reverse_cons, List.reverse_reverse]

/-- The last piece of a rounded text is left out. -/
theorem Rounded.pieces_eq (h : re.Rounded text) :
    re.pieces text = piecesBefore (.first text) (re.cuts text) := by
  rw [pieces_eq_ite, if_pos h.atEnd, isNone_or_eq_false.2 ⟨h.isMatch, h.isEmpty⟩,
    if_neg Bool.false_ne_true, List.reverse_reverse]

end Regex

/-! ## 2. Matches that do not cut -/

variable {cut : Place} {c : Captures} {cs : List Captures}

/-- A match cuts, or it is empty and stands where the last cut ends. -/
theorem Follow.cutsFrom_cons (h : Follow cut (c :: cs)) :
    (cut.index < c.whole.stop.index ∧
      cutsFrom cut (c :: cs) = c :: cutsFrom c.whole.stop cs) ∨
    (c.whole.isEmpty = true ∧ c.whole.stop = cut ∧
      cutsFrom cut (c :: cs) = cutsFrom c.whole.stop cs) := by
  obtain ⟨⟨u, hu⟩, ⟨w, hw⟩, -⟩ := h
  by_cases hlt : cut.index < c.whole.stop.index
  · exact .inl ⟨hlt, if_pos hlt⟩
  · have hnil : u ++ w = [] := by
      by_contra hne
      exact hlt ((hu.trans hw).index_lt_iff.2 hne)
    obtain ⟨rfl, rfl⟩ := List.append_eq_nil_iff.1 hnil
    have hstop := (hu.trans hw).eq_of_nil
    refine .inr ⟨hw.isEmpty_span, hstop.symm, ?_⟩
    rw [← hstop]
    exact if_neg (Nat.lt_irrefl _ <| hstop ▸ ·)

theorem cutsFrom_sublist : ∀ (cut : Place) (cs : List Captures), (cutsFrom cut cs).Sublist cs
  | _, [] => .slnil
  | cut, c :: cs => by
      unfold cutsFrom
      split
      · exact (cutsFrom_sublist _ cs).cons_cons c
      · exact (cutsFrom_sublist cut cs).cons c

namespace Follow

/-- The cuts follow one another. -/
theorem cutsFrom : ∀ {cs : List Captures} {cut : Place}, Follow cut cs → Follow cut (cutsFrom cut cs)
  | [], _, _ => trivial
  | c :: cs, cut, h => by
      have ih : Follow c.whole.stop (ExtensibleRegex.cutsFrom c.whole.stop cs) := cutsFrom h.2.2
      rcases h.cutsFrom_cons with ⟨-, hcuts⟩ | ⟨-, hstop, hcuts⟩
      · rw [hcuts]
        exact ⟨h.1, h.2.1, ih⟩
      · rw [hcuts, ← hstop]
        exact ih

/-- All matches cut that are not empty. -/
theorem filter_sublist_cutsFrom : ∀ {cs : List Captures} {cut : Place}, Follow cut cs →
    (cs.filter fun c => !c.whole.isEmpty).Sublist (ExtensibleRegex.cutsFrom cut cs)
  | [], _, _ => .slnil
  | c :: cs, cut, h => by
      have ih := filter_sublist_cutsFrom h.2.2
      rcases h.cutsFrom_cons with ⟨-, hcuts⟩ | ⟨hempty, -, hcuts⟩
      · rw [hcuts, List.filter_cons]
        split
        · exact ih.cons_cons c
        · exact ih.cons c
      · rw [hcuts, List.filter_cons_of_neg (by simp [hempty])]
        exact ih

/-- The last cut ends where the last match does. -/
theorem cutAfter_cutsFrom : ∀ {cs : List Captures} {cut : Place}, Follow cut cs →
    cutAfter cut (ExtensibleRegex.cutsFrom cut cs) = cutAfter cut cs
  | [], _, _ => rfl
  | c :: cs, cut, h => by
      have ih := cutAfter_cutsFrom h.2.2
      rcases h.cutsFrom_cons with ⟨-, hcuts⟩ | ⟨-, hstop, hcuts⟩
      · rw [hcuts]
        exact ih
      · rw [hcuts, ← hstop]
        exact ih

/-- Matches that follow one another, cut in two. -/
theorem of_append : ∀ {cs ds : List Captures} {cut : Place}, Follow cut (cs ++ ds) →
    Follow cut cs ∧ Follow (cutAfter cut cs) ds
  | [], _, _, h => ⟨trivial, h⟩
  | _ :: _, _, _, h => ⟨⟨h.1, h.2.1, (of_append h.2.2).1⟩, (of_append h.2.2).2⟩

end Follow

/-! ## 3. Pieces and cuts -/

/-- **The pieces and the cuts make up the text**: the first piece, and each cut with the piece behind
it. -/
theorem Follow.exists_woven : ∀ {cs : List Captures} {cut : Place}, Follow cut cs →
    (∀ c ∈ cs, c.between = []) → ∃ (p : Text) (rest : List (Captures × Text)),
      piecesBefore cut cs ++ [(cutAfter cut cs).ahead] = p :: rest.map Prod.snd ∧
      rest.map Prod.fst = cs ∧ cut.ahead = p ++ rest.flatMap fun x => x.1.text ++ x.2
  | [], cut, _, _ => ⟨cut.ahead, [], rfl, rfl, (List.append_nil _).symm⟩
  | c :: cs, cut, ⟨⟨u, hu⟩, ⟨w, hw⟩, h⟩, hbetween => by
      obtain ⟨p, rest, hpieces, hcuts, hahead⟩ :=
        h.exists_woven fun d hd => hbetween d (List.mem_cons_of_mem c hd)
      have htext : c.text = w := hw.text_span
      refine ⟨u, (c, p) :: rest, ?_, by rw [List.map_cons, hcuts], ?_⟩
      · rw [piecesBefore, hbetween c List.mem_cons_self, hu.text_span, List.nil_append, List.cons_append,
          List.map_cons, ← hpieces]
        rfl
      · rw [List.flatMap_cons, htext, hu.ahead, hw.ahead, hahead]
        simp only [List.append_assoc]

theorem piecesBefore_concat : ∀ (cs : List Captures) (cut : Place) (c : Captures),
    piecesBefore cut (cs ++ [c]) =
      piecesBefore cut cs ++ (Span.mk (cutAfter cut cs) c.whole.start).text :: c.between
  | [], cut, c => by
      rw [List.nil_append, piecesBefore, piecesBefore, piecesBefore, List.append_nil]
      rfl
  | d :: cs, cut, c => by
      rw [List.cons_append, piecesBefore, piecesBefore_concat cs, piecesBefore, List.cons_append,
        List.append_assoc]
      rfl

/-- An empty cut at the end of a text leaves before it what was left behind the cut before it. -/
theorem piecesBefore_of_empty {cs : List Captures} (h : Follow cut (cs ++ [c]))
    (hempty : c.whole.isEmpty = true) (hend : c.whole.stop.atEnd = true) (hbetween : c.between = []) :
    piecesBefore cut (cs ++ [c]) = piecesBefore cut cs ++ [(cutAfter cut cs).ahead] := by
  obtain ⟨-, ⟨u, hu⟩, ⟨w, hw⟩, -⟩ := h.of_append
  have hnil : w = [] := List.isEmpty_iff.1 (hw.isEmpty_span.symm.trans hempty)
  have hnothing : c.whole.stop.ahead = [] := List.isEmpty_iff.1 hend
  rw [piecesBefore_concat, hbetween, hu.text_span, hu.ahead, hw.ahead, hnil, hnothing,
    List.append_nil, List.append_nil]

/-- Before an empty cut, the text has gone on since the cut before it. -/
theorem Follow.ne_nil_of_mem_piecesBefore : ∀ {cs : List Captures} {cut : Place}, Follow cut cs →
    (∀ c ∈ cs, c.between = []) → (∀ c ∈ cs, c.whole.isEmpty = true) →
      ∀ p ∈ piecesBefore cut (ExtensibleRegex.cutsFrom cut cs), p ≠ []
  | [], _, _, _, _, _, hp => absurd hp List.not_mem_nil
  | c :: cs, cut, h, hbetween, hempty, p, hp => by
      have ih := h.2.2.ne_nil_of_mem_piecesBefore
        (fun d hd => hbetween d (List.mem_cons_of_mem c hd))
        (fun d hd => hempty d (List.mem_cons_of_mem c hd)) p
      rcases h.cutsFrom_cons with ⟨hlt, hcuts⟩ | ⟨-, hstop, hcuts⟩
      · rw [hcuts, piecesBefore, hbetween c List.mem_cons_self, List.nil_append] at hp
        rcases List.mem_cons.1 hp with rfl | hp
        · obtain ⟨⟨u, hu⟩, ⟨w, hw⟩, -⟩ := h
          have hnil : w = [] :=
            List.isEmpty_iff.1 (hw.isEmpty_span.symm.trans (hempty c List.mem_cons_self))
          have hne := (hu.trans hw).index_lt_iff.1 hlt
          rw [hu.text_span]
          rwa [hnil, List.append_nil] at hne
        · exact ih hp
      · rw [hcuts, ← hstop] at hp
        exact ih hp

/-- The last cut has come to the end of the text where one of the matches has. -/
theorem Follow.atEnd_cutAfter : ∀ {cs : List Captures} {cut : Place}, Follow cut cs →
    ((cutAfter cut cs).atEnd = true ↔
      cut.atEnd = true ∨ ∃ c ∈ cs, c.whole.stop.atEnd = true)
  | [], cut, _ => by simp [cutAfter]
  | c :: cs, cut, h => by
      have ih : (cutAfter c.whole.stop cs).atEnd = true ↔
        c.whole.stop.atEnd = true ∨ ∃ d ∈ cs, d.whole.stop.atEnd = true := h.2.2.atEnd_cutAfter
      have hfurther : cut.atEnd = true → c.whole.stop.atEnd = true := by
        obtain ⟨⟨u, hu⟩, ⟨w, hw⟩, -⟩ := h
        have hahead := (hu.trans hw).ahead
        simp only [Place.atEnd, List.isEmpty_iff]
        intro hend
        rw [hend] at hahead
        exact (List.append_eq_nil_iff.1 hahead.symm).2
      rw [show cutAfter cut (c :: cs) = cutAfter c.whole.stop cs from rfl, ih, List.exists_mem_cons_iff]
      exact ⟨.inr, fun hend => hend.elim (fun hcut => .inl (hfurther hcut)) id⟩

/-! ## 4. Separators without groups -/

namespace Regex

variable {re : Regex} {text : Text}

theorem follow_allMatches (re : Regex) (text : Text) : Follow (.first text) (re.allMatches text) :=
  re.follow_usedMatches text true

theorem Walk.searchAt?_of_mem {o : Option Place} (h : re.Walk o cs) :
    ∀ c ∈ cs, ∃ p, re.searchAt? p re.sticky = some c := by
  induction h with
  | past => exact fun _ hc => absurd hc List.not_mem_nil
  | ended => exact fun _ hc => absurd hc List.not_mem_nil
  | @found p c cs h _ ih => exact List.forall_mem_cons.2 ⟨⟨p, h⟩, ih⟩

/-- Nothing stands between the pieces that a separator without groups leaves. -/
theorem between_of_mem (hgroups : re.engine.program.groups = 0) :
    ∀ c ∈ re.allMatches text, c.between = [] := by
  intro c hc
  obtain ⟨p, hp⟩ := (re.walk_allMatches text).searchAt?_of_mem c hc
  have hfound : re.searchFrom? p.text p.offset re.sticky = some c := by
    rw [searchFrom?, p.atOffset?_offset]
    exact hp
  have hlength := (length_slots hfound).1
  rw [hgroups, Captures.slots, List.length_cons] at hlength
  have hnone : c.groups = [] := List.length_eq_zero_iff.1 (Nat.succ.inj hlength)
  rw [Captures.between, hnone]
  exact ite_self _

theorem between_of_mem_cuts (hgroups : re.engine.program.groups = 0) :
    ∀ c ∈ re.cuts text, c.between = [] := fun c hc =>
  between_of_mem hgroups c ((cutsFrom_sublist _ _).mem hc)

theorem follow_cuts (re : Regex) (text : Text) : Follow (.first text) (re.cuts text) :=
  (re.follow_allMatches text).cutsFrom

/-- All matches of a text that are not empty are cuts. -/
theorem filter_sublist_cuts (re : Regex) (text : Text) :
    ((re.allMatches text).filter fun c => !c.whole.isEmpty).Sublist (re.cuts text) :=
  (re.follow_allMatches text).filter_sublist_cutsFrom

/-- A rounded text is empty, or its last cut is empty and leaves the piece before it as the last one. -/
theorem Rounded.cases (h : re.Rounded text) (hgroups : re.engine.program.groups = 0) :
    text = [] ∧ re.pieces text = [] ∨ ∃ cs c, re.cuts text = cs ++ [c] ∧ c.whole.isEmpty = true ∧
      re.pieces text = piecesBefore (.first text) cs ++ [(cutAfter (.first text) cs).ahead] := by
  have hend := h.atEnd
  rw [h.pieces_eq]
  rcases List.eq_nil_or_concat (re.cuts text) with hnil | ⟨cs, c, hcuts⟩
  · rw [lastCut, hnil] at hend
    rw [hnil]
    exact .inl ⟨List.isEmpty_iff.1 hend, rfl⟩
  · rw [List.concat_eq_append] at hcuts
    have hempty : c.whole.isEmpty = true := h.isEmpty c (by rw [hcuts, List.getLast?_concat]; rfl)
    have hlast : c ∈ re.cuts text := hcuts ▸ List.mem_append_right cs List.mem_cons_self
    have hbetween : c.between = [] := between_of_mem_cuts hgroups c hlast
    rw [lastCut, hcuts, cutAfter, List.foldl_concat] at hend
    refine .inr ⟨cs, c, hcuts, hempty, ?_⟩
    rw [hcuts]
    exact piecesBefore_of_empty (hcuts ▸ re.follow_cuts text) hempty hend hbetween

/-- The pieces of a text and some of its matches make up the text, unless it is empty and has no
pieces. -/
theorem exists_woven (hgroups : re.engine.program.groups = 0) (text : Text) :
    text = [] ∧ re.pieces text = [] ∨ ∃ (p : Text) (cuts : List (Captures × Text)),
      re.pieces text = p :: cuts.map Prod.snd ∧
      (cuts.map Prod.fst).Sublist (re.allMatches text) ∧
      ((re.allMatches text).filter fun c => !c.whole.isEmpty).Sublist (cuts.map Prod.fst) ∧
      text = p ++ cuts.flatMap fun x => x.1.text ++ x.2 := by
  have hfollow := re.follow_cuts text
  have hbetween : ∀ c ∈ re.cuts text, c.between = [] := between_of_mem_cuts hgroups
  have hsub : (re.cuts text).Sublist (re.allMatches text) := cutsFrom_sublist _ _
  have hall := re.filter_sublist_cuts text
  by_cases hrounded : re.Rounded text
  · refine (hrounded.cases hgroups).imp_right ?_
    rintro ⟨cs, c, hcuts, hempty, hlast⟩
    rw [hcuts] at hfollow hbetween hsub hall
    obtain ⟨p, rest, hpieces, rfl, htext⟩ := hfollow.of_append.1.exists_woven fun d hd =>
      hbetween d (List.mem_append_left [c] hd)
    refine ⟨p, rest, hlast.trans hpieces, (List.sublist_append_left _ [c]).trans hsub, ?_, htext⟩
    -- the empty cut at the end is none of the matches to be kept
    have hkept := hall.filter fun d => !d.whole.isEmpty
    rw [List.filter_filter, List.filter_append, List.filter_cons_of_neg (by simp [hempty]),
      List.filter_nil, List.append_nil] at hkept
    simp only [Bool.and_self] at hkept
    exact hkept.trans List.filter_sublist
  · rw [pieces_eq hrounded]
    obtain ⟨p, rest, hpieces, hcuts, htext⟩ := hfollow.exists_woven hbetween
    exact .inr ⟨p, rest, hpieces, hcuts ▸ hsub, hcuts ▸ hall, htext⟩

/-- The text before each cut is not empty where all matches are. -/
theorem ne_nil_of_mem_piecesBefore (hgroups : re.engine.program.groups = 0)
    (hempty : ∀ c ∈ re.allMatches text, c.whole.isEmpty = true) :
    ∀ p ∈ piecesBefore (.first text) (re.cuts text), p ≠ [] :=
  (re.follow_allMatches text).ne_nil_of_mem_piecesBefore (between_of_mem hgroups) hempty

/-- A text that is not empty has come to its end with the last cut where a match ends there. -/
theorem atEnd_lastCut (re : Regex) (htext : text ≠ []) :
    (re.lastCut text).atEnd = true ↔ ∃ c ∈ re.allMatches text, c.whole.stop.atEnd = true := by
  have hfirst : ¬(Place.first text).atEnd = true := fun h => htext (List.isEmpty_iff.1 h)
  rw [lastCut, cuts, (re.follow_allMatches text).cutAfter_cutsFrom,
    (re.follow_allMatches text).atEnd_cutAfter, or_iff_right hfirst]

/-- Where all matches of a text are empty, it is rounded once a match stands at its end and the separator
matches the empty text. -/
theorem rounded_iff (htext : text ≠ []) (hempty : ∀ c ∈ re.allMatches text, c.whole.isEmpty = true) :
    re.Rounded text ↔
      re.isMatch [] = true ∧ ∃ c ∈ re.allMatches text, c.whole.stop.atEnd = true := by
  constructor
  · exact fun h => ⟨h.isMatch, (re.atEnd_lastCut htext).1 h.atEnd⟩
  · rintro ⟨hmatch, hend⟩
    refine ⟨(re.atEnd_lastCut htext).2 hend, hmatch, fun c hc => ?_⟩
    exact hempty c ((cutsFrom_sublist _ _).mem (List.mem_of_getLast? hc))

end Regex

/-! ## 5. Splitting -/

/-- A split is answered with the pieces, up to its limit. -/
theorem RegexTask.run_split (held : Held) (text : Text) (limit : Option Nat) :
    ((RegexTask.split text limit).perform.run held).1 =
      .texts (held.regex.split text limit) :=
  (yields_perform held (.split text limit)).answers

/-- **A split loses no text.** A separator without groups leaves pieces that make up the text together
with some of its matches, all those among them that are not empty, unless the text is empty and there
is no piece. A limit keeps the first pieces. -/
theorem split_keeps_text (held : Held) (text : Text)
    (hgroups : held.regex.engine.program.groups = 0) : ∃ pieces : List Text,
      ((RegexTask.split text none).perform.run held).1 = .texts pieces ∧
      (∀ n, ((RegexTask.split text (some n)).perform.run held).1 = .texts (pieces.take n)) ∧
      (text = [] ∧ pieces = [] ∨ ∃ (p : Text) (cuts : List (Captures × Text)),
        pieces = p :: cuts.map Prod.snd ∧
        (cuts.map Prod.fst).Sublist (held.regex.allMatches text) ∧
        ((held.regex.allMatches text).filter fun c => !c.whole.isEmpty).Sublist (cuts.map Prod.fst) ∧
        text = p ++ cuts.flatMap fun x => x.1.text ++ x.2) :=
  ⟨held.regex.pieces text, RegexTask.run_split held text none,
    fun n => RegexTask.run_split held text (some n), Regex.exists_woven hgroups text⟩

/-- Letters `x` are left out, and an empty match cuts before the last character. -/
theorem split_keeps_text_letters : ∃ re, Regex.native "x*".toList [] = .ok re ∧
    re.engine.program.groups = 0 ∧ re.pieces "axbc".toList = [['a'], ['b'], ['c']] ∧
    ∃ (p : Text) (cuts : List (Captures × Text)), [['a'], ['b'], ['c']] = p :: cuts.map Prod.snd ∧
      (cuts.map Prod.fst).Sublist (re.allMatches "axbc".toList) ∧
      ((re.allMatches "axbc".toList).filter fun c => !c.whole.isEmpty).Sublist (cuts.map Prod.fst) ∧
      "axbc".toList = p ++ cuts.flatMap fun x => x.1.text ++ x.2 := by
  obtain ⟨re, hre, hgroups, hpieces⟩ : ∃ re, Regex.native "x*".toList [] = .ok re ∧
      re.engine.program.groups = 0 ∧ re.pieces "axbc".toList = [['a'], ['b'], ['c']] :=
    ⟨_, rfl, rfl, by decide⟩
  refine ⟨re, hre, hgroups, hpieces, ?_⟩
  obtain ⟨pieces, hrun, -, hwoven⟩ := split_keeps_text (.create re) "axbc".toList hgroups
  have hsame : pieces = [['a'], ['b'], ['c']] :=
    (Reply.texts.inj (hrun.symm.trans (RegexTask.run_split _ _ none))).trans hpieces
  subst hsame
  exact hwoven.resolve_left fun h => absurd h.1 (by decide)

/-- **Splitting at empty matches.** A separator without groups whose matches of a text are all empty
leaves no empty piece before the last one. The last piece is empty where a match stands at the end of
the text and the separator does not match the empty text, which is asked instead. -/
theorem split_at_empty_matches (held : Held) (text : Text)
    (hgroups : held.regex.engine.program.groups = 0) (htext : text ≠ [])
    (hempty : ∀ c ∈ held.regex.allMatches text, c.whole.isEmpty = true) : ∃ pieces : List Text,
      ((RegexTask.split text none).perform.run held).1 = .texts pieces ∧
      (∀ p ∈ pieces.dropLast, p ≠ []) ∧
      ((∀ p ∈ pieces, p ≠ []) ↔ held.regex.isMatch [] = true ∨
        ∀ c ∈ held.regex.allMatches text, c.whole.stop.atEnd = false) := by
  have hbefore := Regex.ne_nil_of_mem_piecesBefore hgroups hempty
  have hend : (∀ c ∈ held.regex.allMatches text, c.whole.stop.atEnd = false) ↔
      (held.regex.lastCut text).ahead ≠ [] := by
    rw [Ne, ← List.isEmpty_iff, ← Place.atEnd, held.regex.atEnd_lastCut htext]
    simp only [not_exists, not_and, Bool.not_eq_true]
  refine ⟨held.regex.pieces text, RegexTask.run_split held text none, ?_⟩
  by_cases hrounded : held.regex.Rounded text
  · rw [hrounded.pieces_eq]
    exact ⟨fun p hp => hbefore p (List.mem_of_mem_dropLast hp),
      iff_of_true hbefore (.inl hrounded.isMatch)⟩
  · have hprobe : held.regex.isMatch [] = true →
        ∀ c ∈ held.regex.allMatches text, c.whole.stop.atEnd = false := by
      rw [Regex.rounded_iff htext hempty] at hrounded
      intro hmatch c hc
      exact Bool.eq_false_iff.2 fun h => hrounded ⟨hmatch, c, hc, h⟩
    rw [Regex.pieces_eq hrounded, List.dropLast_concat, or_iff_right_of_imp hprobe, hend]
    refine ⟨hbefore, ?_⟩
    rw [List.forall_mem_append, List.forall_mem_singleton, and_iff_right hbefore]

/-- A separator that stands at the end of this text matches the empty text only by its second choice. -/
theorem split_at_empty_matches_letters : ∃ re, Regex.native "(?=b)|$".toList [] = .ok re ∧
    re.engine.program.groups = 0 ∧ "ab".toList ≠ [] ∧
    (∀ c ∈ re.allMatches "ab".toList, c.whole.isEmpty = true) ∧ re.isMatch [] = true ∧
    re.pieces "ab".toList = [['a'], ['b']] ∧ ∀ p ∈ [['a'], ['b']], p ≠ [] := by
  obtain ⟨re, hre, hgroups, hempty, hmatch, hpieces⟩ : ∃ re,
      Regex.native "(?=b)|$".toList [] = .ok re ∧ re.engine.program.groups = 0 ∧
      (∀ c ∈ re.allMatches "ab".toList, c.whole.isEmpty = true) ∧ re.isMatch [] = true ∧
      re.pieces "ab".toList = [['a'], ['b']] :=
    ⟨_, rfl, rfl, by decide, by decide, by decide⟩
  refine ⟨re, hre, hgroups, by decide, hempty, hmatch, hpieces, ?_⟩
  obtain ⟨pieces, hrun, -, hnonempty⟩ :=
    split_at_empty_matches (.create re) "ab".toList hgroups (by decide) hempty
  have hsame : pieces = [['a'], ['b']] :=
    (Reply.texts.inj (hrun.symm.trans (RegexTask.run_split _ _ none))).trans hpieces
  exact hsame ▸ hnonempty.2 (.inl hmatch)

/-- Behind its only letter, a text is cut, and an empty piece is left: the separator looks back at the
letter there, and finds none in the empty text. -/
theorem split_behind_letter : ∃ re, Regex.native "(?<=a)".toList [] = .ok re ∧
    re.engine.program.groups = 0 ∧ (∀ c ∈ re.allMatches ['a'], c.whole.isEmpty = true) ∧
    ((RegexTask.split ['a'] none).perform.run (.create re)).1 = .texts [['a'], []] := by
  obtain ⟨re, hre, hgroups, hempty, hpieces⟩ : ∃ re, Regex.native "(?<=a)".toList [] = .ok re ∧
      re.engine.program.groups = 0 ∧ (∀ c ∈ re.allMatches ['a'], c.whole.isEmpty = true) ∧
      re.pieces ['a'] = [['a'], []] :=
    ⟨_, rfl, rfl, by decide, by decide⟩
  have hrun := RegexTask.run_split (.create re) ['a'] none
  exact ⟨re, hre, hgroups, hempty, hrun.trans (congrArg Reply.texts hpieces)⟩

end ExtensibleRegex
