import ExtensibleRegex.Proofs.Expansion.Seams
import ExtensibleRegex.Proofs.Regex.Alike
import Mathlib.Tactic

/-!
# Inline comments

A comment in a pattern is taken out, and an empty group is written in its place where the texts on
its two sides would run together. So a pattern with a comment finds what it finds with an empty
group in place of it (`regex_comment`).

That the texts would run together is told from the characters next to the comment, and these can be
characters of another comment, which is taken out as well: `\1(?#c)(?#d)1` is written as `\11`
(`regex_comment_next_to_comment`).
-/

namespace ExtensibleRegex

open Native

/-! ## 1. Mode modifiers -/

/-- A mode modifier is found in the front of a pattern, if a parenthesis follows that opens none. -/
theorem modeModifier?_append {d : Char} (hname : isNameChar d = false) (t : Text) :
    ∀ u : Text, modeModifier? (u ++ '(' :: '?' :: d :: t) =
      (modeModifier? u).map fun m => (m.1, m.2 ++ '(' :: '?' :: d :: t)
  | [] => by
      have hnone : modeModifier? ('(' :: '?' :: d :: t) = none := by
        simp [modeModifier?, hname]
      exact hnone
  | [c] => by
      have hnone : modeModifier? [c] = none := by
        unfold modeModifier?
        split
        · rename_i h
          cases h
        · rfl
      rw [hnone]
      unfold modeModifier?
      split
      · rename_i h
        cases (List.cons.inj (List.cons.inj h).2).1
      · rfl
  | c :: e :: rest => by
      by_cases hopen : c = '(' ∧ e = '?'
      · obtain ⟨rfl, rfl⟩ := hopen
        have htake : (rest ++ '(' :: '?' :: d :: t).takeWhile isNameChar =
            rest.takeWhile isNameChar := by
          rw [List.takeWhile_append]
          split
          · rename_i hall
            rw [(List.takeWhile_prefix isNameChar).eq_of_length hall]
            exact List.append_nil rest
          · rfl
        have hdrop : (rest ++ '(' :: '?' :: d :: t).dropWhile isNameChar =
            rest.dropWhile isNameChar ++ '(' :: '?' :: d :: t := by
          rw [List.dropWhile_append]
          split
          · rename_i hall
            rw [List.isEmpty_iff.1 hall]
            rfl
          · rfl
        show modeModifier? ('(' :: '?' :: (rest ++ '(' :: '?' :: d :: t)) = _
        simp only [modeModifier?, htake, hdrop]
        cases rest.takeWhile isNameChar with
        | nil => rfl
        | cons c flags =>
          cases rest.dropWhile isNameChar with
          | nil => rfl
          | cons f body =>
            by_cases hf : f = ')'
            · rw [hf]
              rfl
            · simp [hf]
      · have hnone (s : Text) : modeModifier? (c :: e :: s) = none := by
          unfold modeModifier?
          split
          · rename_i h
            exact absurd ⟨(List.cons.inj h).1, (List.cons.inj (List.cons.inj h).2).1⟩ hopen
          · rfl
        rw [List.cons_append, List.cons_append, hnone, hnone]
        rfl

/-- A pattern is prepared as its front is, if a parenthesis follows that opens no mode modifier. -/
theorem KnownFlags.prepare_append {k : KnownFlags} {u flags : Text} {prepared : Prepared} {d : Char}
    (hname : isNameChar d = false) (t : Text)
    (h : k.prepare u flags = .ok prepared) :
    k.prepare (u ++ '(' :: '?' :: d :: t) flags =
      .ok ⟨prepared.pattern ++ '(' :: '?' :: d :: t, prepared.flags⟩ := by
  unfold KnownFlags.prepare at h ⊢
  obtain ⟨x, hrepeats, h⟩ := bind_eq_ok.1 h
  rw [hrepeats, modeModifier?_append hname]
  cases hmodifier : modeModifier? u with
  | none =>
    rw [hmodifier] at h
    obtain ⟨y, hknown, h⟩ := bind_eq_ok.1 h
    cases h
    exact bind_eq_ok.2 ⟨x, rfl, bind_eq_ok.2 ⟨y, hknown, rfl⟩⟩
  | some m =>
    rw [hmodifier] at h
    obtain ⟨modifier, body⟩ := m
    simp only [Option.map_some] at h ⊢
    by_cases hreserved : (modifier.contains 'g' || modifier.contains 'y') = true
    · rw [if_pos hreserved] at h
      cases h
    · rw [if_neg hreserved] at h
      obtain ⟨y, hknown, h⟩ := bind_eq_ok.1 h
      cases h
      refine bind_eq_ok.2 ⟨x, rfl, ?_⟩
      simp only [if_neg hreserved]
      exact bind_eq_ok.2 ⟨y, hknown, rfl⟩

/-- A pattern without flags is never sticky: a mode modifier cannot have that flag. -/
theorem KnownFlags.not_sticky_of_prepare {k : KnownFlags} {u : Text} {prepared : Prepared}
    (h : k.prepare u [] = .ok prepared) : (Reader.nativeFlags prepared.flags).sticky = false := by
  unfold KnownFlags.prepare at h
  obtain ⟨x, -, h⟩ := bind_eq_ok.1 h
  split at h
  · obtain ⟨y, -, h⟩ := bind_eq_ok.1 h
    cases h
    rfl
  · rename_i modifier body _
    by_cases hreserved : (modifier.contains 'g' || modifier.contains 'y') = true
    · rw [if_pos hreserved] at h
      cases h
    · rw [if_neg hreserved] at h
      obtain ⟨y, -, h⟩ := bind_eq_ok.1 h
      cases h
      show (keepLastFlags modifier).contains 'y' = false
      simp only [Bool.or_eq_true, not_or] at hreserved
      simpa [mem_keepLastFlags] using hreserved.2

/-! ## 2. A comment and an empty group -/

/-- A comment with a text. -/
def inlineComment (c : Text) : Text := '(' :: '?' :: '#' :: (c ++ [')'])

namespace Reader

variable {r : Reader} {ledger : Ledger} {behind v : Text}

/-- What stands for a comment is told from the texts next to it. -/
theorem segment_comment {c : Text} (hc : ')' ∉ c) :
    r.segment .pattern ledger behind (inlineComment c ++ v) =
      .ok (.written (separator behind v r.flags), (inlineComment c).length) := by
  have htext : inlineComment c ++ v = '(' :: '?' :: '#' :: (c ++ ')' :: v) := by
    simp [inlineComment]
  have hline : (c ++ ')' :: v).takeWhile (· != ')') = c := by
    have hall : ∀ d ∈ c, (d != ')') = true := fun d hd => by
      have hne : d ≠ ')' := fun h => hc (h ▸ hd)
      simpa using hne
    rw [List.takeWhile_append_of_pos hall]
    exact List.append_nil c
  have hcomment : Trigger.comment (inlineComment c ++ v) = some ⟨c.length + 4, none⟩ := by
    rw [htext]
    simp only [Trigger.comment, hline, List.drop_left]
    rfl
  have hplain : Trigger.openPlain (inlineComment c ++ v) = none := by rw [htext]; rfl
  have hnamed : Trigger.openNamed (inlineComment c ++ v) = none := by rw [htext]; rfl
  have hlength : (inlineComment c).length = c.length + 4 := by simp [inlineComment]
  have hparenthesis : r.parenthesis ledger behind (inlineComment c ++ v) =
      .ok (some (.written (separator behind v r.flags), (inlineComment c).length)) := by
    unfold parenthesis
    rw [hplain, hnamed, hcomment]
    show write _ (separator behind ((inlineComment c ++ v).drop (c.length + 4)) r.flags) = _
    rw [← hlength, List.drop_left, hlength]
    rfl
  have htoken : r.token? .pattern ledger behind (inlineComment c ++ v) =
      r.parenthesis ledger behind (inlineComment c ++ v) := by
    rw [htext]
    rfl
  unfold segment
  rw [htoken, hparenthesis]

/-- The closing parenthesis of an empty group is copied. -/
theorem segment_close_copied :
    r.segment .pattern ledger behind (')' :: v) = .ok (.copied [')'], 1) := by
  have hblank : r.blank behind (')' :: v) = .ok none := by
    unfold blank
    split
    · rename_i e he
      split at he
      · cases he
      · cases he
    · rfl
  have htoken : r.token? .pattern ledger behind (')' :: v) = r.blank behind (')' :: v) := rfl
  unfold segment
  rw [htoken, hblank]
  rfl

/-- The pieces of an empty group. -/
abbrev emptyGroupCut : Cut :=
  [(['(', '?', ':'], .copied ['(', '?', ':']), ([')'], .copied [')'])]

theorem passes_emptyGroup (next : Text) : r.Passes next .pattern ledger behind emptyGroupCut :=
  ⟨by decide, rfl, by decide, segment_close_copied, trivial⟩

/-- What is written for a piece that begins with a delimiter begins with one, if there is any. -/
theorem head?_of_segment {piece : Segment} {d : Char} {t : Text} {n : Nat}
    (h : r.segment .pattern ledger behind (d :: t) = .ok (piece, n)) (hd : isDelimiter d = true)
    (hleft : piece.text ≠ []) : piece.text.head?.any isDelimiter = true := by
  rcases segment_eq_ok h with htoken | ⟨-, rfl, -⟩
  · have hblank (hspace : Trigger.blank (d :: t) = none) :
        r.blank behind (d :: t) = .ok (some (piece, n)) → False := by
      unfold blank
      rw [hspace, ite_self]
      intro hnone
      cases hnone
    simp only [isDelimiter, Bool.or_eq_true, beq_iff_eq] at hd
    rcases hd with (rfl | rfl) | rfl
    · have hparenthesis : r.parenthesis ledger behind ('(' :: t) = .ok (some (piece, n)) := htoken
      unfold parenthesis at hparenthesis
      split at hparenthesis
      · split at hparenthesis <;> cases hparenthesis <;> rfl
      split at hparenthesis
      · simp only at hparenthesis
        split at hparenthesis
        · cases hparenthesis
        split at hparenthesis
        · cases hparenthesis
        split at hparenthesis
        · cases hparenthesis
        · cases hparenthesis
          rfl
      split at hparenthesis
      · rename_i e he
        cases hparenthesis
        rcases separator_eq behind (('(' :: t).drop e.length) r.flags with hempty | hgroup
        · exact absurd hempty hleft
        · show (separator behind (('(' :: t).drop e.length) r.flags).head?.any isDelimiter = true
          rw [hgroup]
          rfl
      split at hparenthesis
      · cases hparenthesis
      · cases hparenthesis
    · exact (hblank rfl htoken).elim
    · exact (hblank rfl htoken).elim
  · obtain ⟨k, hk⟩ := Nat.exists_eq_add_of_lt (verbatimLength_pos .pattern d t)
    show ((d :: t).take (verbatimLength .pattern (d :: t))).head?.any isDelimiter = true
    rw [hk]
    exact hd

/-- **What is written for a comment keeps its neighbours apart**, or they are apart without it, if
they are not removed themselves. -/
theorem apart_of_separator {next : Text} {left right : Cut} {b : Text} {ledger' : Ledger}
    (hnext : next ≠ []) (hleft : r.Passes next .pattern ledger behind left)
    (hright : r.Passes [] .pattern ledger' b right)
    (hlast : left.getLast?.all (fun y => y.2.text ≠ []) = true)
    (hfirst : right.head?.all (fun y => y.2.text ≠ []) = true)
    (hquantifier : quantifierNext (source right) r.flags = false)
    (h : separator (source left).reverse (source right) r.flags = []) :
    Apart (written left) (written right) := by
  unfold separator at h
  split at h
  · rename_i hnothing
    simp only [hquantifier, Bool.or_false, Bool.or_eq_true] at hnothing
    rcases hnothing with (((hbehind | hahead) | hdelimiter) | hdelimiter) | hopeners
    · refine .inl ?_
      rw [hleft.eq_nil (by simpa using hbehind)]
      rfl
    · refine .inr (.inl ?_)
      rw [hright.eq_nil (by simpa using hahead)]
      rfl
    · exact .inr (.inr (.inl (hleft.endsAtSeam hnext hlast (.inl hdelimiter))))
    · refine .inr (.inr (.inr ?_))
      cases right with
      | nil => cases hdelimiter
      | cons y right =>
        obtain ⟨w, piece⟩ := y
        obtain ⟨hne, hsegment, -⟩ := hright
        obtain ⟨d, w, rfl⟩ := List.exists_cons_of_ne_nil hne
        have hpiece : piece.text ≠ [] := by simpa using hfirst
        have hhead := head?_of_segment hsegment (by simpa [source] using hdelimiter) hpiece
        obtain ⟨e, t, ht⟩ := List.exists_cons_of_ne_nil hpiece
        rw [ht] at hhead
        rw [written_cons, ht]
        exact hhead
    · exact .inr (.inr (.inl (hleft.endsAtSeam hnext hlast (.inr hopeners))))
  · cases h

end Reader

/-! ## 3. Regexes -/

namespace Context

/-- The regex of a pattern with a mode modifier at most, by a cut of what is left of it. -/
theorem regex_of_cut {pattern : Text} {re : Regex} {prepared : Prepared} {cut : Reader.Cut}
    (h : (answer (regex pattern []) initial).1 = .ok re)
    (hprepare : Dialect.initial.flags.prepare pattern [] = .ok prepared)
    (hsource : Reader.source cut = prepared.pattern)
    (hcut : (⟨prepared.flags, false⟩ : Reader).Passes [] .pattern .empty [] cut) :
    re.nativeSource = mergeEmptyGroups (Reader.written cut) ∧
      re.engine.mode = (Reader.nativeFlags prepared.flags).mode ∧ re.sticky = false := by
  obtain ⟨prepared', pieces, hprepare', hread, hwritten, -⟩ := regex_initial h
  obtain rfl := Except.ok.inj (hprepare.symm.trans hprepare')
  obtain ⟨hmode, hsticky⟩ := regex_initial_flags h hprepare
  rw [← hsource] at hread
  obtain rfl := Except.ok.inj (hcut.read.symm.trans hread)
  exact ⟨hwritten, hmode, hsticky.trans (KnownFlags.not_sticky_of_prepare hprepare)⟩

/-- **A comment can be replaced by an empty group** where its neighbours are not removed themselves.
The front `u` of the pattern is read as the pieces of `left` in both patterns, and ends outside of
classes; behind the comment `right` is read. What is read there does not begin with a quantifier, nor
does what is written for it, and repeated empty groups stand outside of classes and escapes. -/
theorem regex_comment {u c v : Text} {re re' : Regex} {prepared : Prepared} {left right : Reader.Cut}
    (hre : (answer (regex (u ++ (inlineComment c ++ v)) []) initial).1 = .ok re)
    (hre' : (answer (regex (u ++ (emptyGroup ++ v)) []) initial).1 = .ok re')
    (hprepare : Dialect.initial.flags.prepare u [] = .ok prepared)
    (hsource : Reader.source left = prepared.pattern ∧ Reader.source right = v)
    (hcomment : (⟨prepared.flags, false⟩ : Reader).Passes (inlineComment c ++ v) .pattern .empty []
      left)
    (hgroup : (⟨prepared.flags, false⟩ : Reader).Passes (emptyGroup ++ v) .pattern .empty [] left)
    (houtside : Reader.scopeBehind .pattern left = .pattern)
    (hright : (⟨prepared.flags, false⟩ : Reader).Passes [] .pattern
      (Reader.ledgerBehind .empty left) ((Reader.source left ++ inlineComment c).reverse) right)
    (hc : ')' ∉ c)
    (hquantifier : quantifierNext v prepared.flags = false ∧
      leastRounds? (Reader.written right) = none)
    (hneighbours : left.getLast?.all (fun y => y.2.text ≠ []) = true ∧
      right.head?.all (fun y => y.2.text ≠ []) = true)
    (htame : Tame (Reader.written left ++ Reader.written right) ∧
      Tame (Reader.written left ++ (emptyGroup ++ Reader.written right))) : re.Alike re' := by
  obtain ⟨hleftSource, rfl⟩ := hsource
  let r : Reader := ⟨prepared.flags, false⟩
  let between := Reader.separator (Reader.source left).reverse (Reader.source right) prepared.flags
  have hprepared : Dialect.initial.flags.prepare (u ++ (inlineComment c ++ Reader.source right)) [] =
      .ok ⟨prepared.pattern ++ (inlineComment c ++ Reader.source right), prepared.flags⟩ := by
    have happend := KnownFlags.prepare_append (d := '#') (by decide) (c ++ ')' :: Reader.source right)
      hprepare
    simpa [inlineComment] using happend
  have hprepared' : Dialect.initial.flags.prepare (u ++ (emptyGroup ++ Reader.source right)) [] =
      .ok ⟨prepared.pattern ++ (emptyGroup ++ Reader.source right), prepared.flags⟩ :=
    KnownFlags.prepare_append (d := ':') (by decide) (')' :: Reader.source right) hprepare
  -- the two patterns, cut as a whole
  have hcut : r.Passes [] .pattern .empty []
      (left ++ (inlineComment c, .written between) :: right) := by
    rw [Reader.passes_append, houtside, Reader.passes_cons, Reader.source_cons, List.append_nil,
      List.append_nil, List.append_nil]
    refine ⟨hcomment, by simp [inlineComment], Reader.segment_comment hc, ?_⟩
    rw [List.reverse_append] at hright
    exact hright
  have hcut' : r.Passes [] .pattern .empty [] (left ++ (Reader.emptyGroupCut ++ right)) := by
    rw [Reader.passes_append, houtside, Reader.passes_append, Reader.source_append, List.append_nil,
      List.append_nil, List.append_nil]
    refine ⟨hgroup, Reader.passes_emptyGroup _, ?_⟩
    have hclose : (Reader.source left ++ inlineComment c).reverse =
        [] ++ ')' :: (c.reverse ++ ['#', '?', '('] ++ (Reader.source left).reverse) := by
      simp [inlineComment]
    rw [hclose] at hright
    exact hright.behind _ ([':', '?', '('] ++ (Reader.source left).reverse)
  obtain ⟨hsource, hmode, hsticky⟩ := regex_of_cut hre hprepared
    (by rw [Reader.source_append, Reader.source_cons, hleftSource]) hcut
  obtain ⟨hsource', hmode', hsticky'⟩ := regex_of_cut hre' hprepared'
    (by rw [Reader.source_append, Reader.source_append, hleftSource]; rfl) hcut'
  refine Regex.alike_of_meaning hsticky hsticky' (hmode.trans hmode'.symm) ?_
  rw [hsource, hsource', Reader.written_append, Reader.written_append, Reader.written_append,
    Reader.written_cons]
  show meaning _ (mergeEmptyGroups (Reader.written left ++ (between ++ Reader.written right))) =
    meaning _ (mergeEmptyGroups (Reader.written left ++ (emptyGroup ++ Reader.written right)))
  rcases Reader.separator_eq (Reader.source left).reverse (Reader.source right) prepared.flags with
    hnothing | hsome
  · have hnext : inlineComment c ++ Reader.source right ≠ [] := by simp [inlineComment]
    have hafter : Spot.outside.after (Reader.written left) = .outside := by
      have hpasses := hcomment.after hnext
      rw [houtside] at hpasses
      exact hpasses
    have hapart : Apart (Reader.written left) (Reader.written right) :=
      Reader.apart_of_separator hnext hcomment hright hneighbours.1 hneighbours.2 hquantifier.1 hnothing
    rw [show between = [] from hnothing, List.nil_append, meaning_merged htame.1,
      meaning_merged htame.2]
    exact meaning_apart hapart hafter hquantifier.2
  · rw [show between = emptyGroup from hsome]

/-- A comment behind the parenthesis of a group, for which nothing is written. -/
theorem regex_comment_behind_group :
    ∃ re re', (answer (regex "(a)(?#c)\\1b".toList []) initial).1 = .ok re ∧
      (answer (regex "(a)(?:)\\1b".toList []) initial).1 = .ok re' ∧
      re.nativeSource = "(a)\\1b".toList ∧ re.Alike re' := by
  have hread : (⟨[], false⟩ : Reader).read "(a)(?#c)\\1b".toList =
      .ok [.opens none, .copied ['a'], .copied [')'], .written [], .written ['\\', '1'],
        .copied ['b']] := by decide +kernel
  have hread' : (⟨[], false⟩ : Reader).read "(a)(?:)\\1b".toList =
      .ok [.opens none, .copied ['a'], .copied [')'], .copied ['(', '?', ':'], .copied [')'],
        .written ['\\', '1'], .copied ['b']] := by decide +kernel
  obtain ⟨program, hprogram⟩ : ∃ program, Program.ofSource? "(a)\\1b".toList ⟨false, false, false⟩ =
      some program := ⟨_, rfl⟩
  obtain ⟨program', hprogram'⟩ : ∃ program, Program.ofSource? "(a)(?:)\\1b".toList
      ⟨false, false, false⟩ = some program := ⟨_, rfl⟩
  obtain ⟨re, hre, hsource, -⟩ := exists_regex rfl hread rfl hprogram
  obtain ⟨re', hre', -⟩ := exists_regex rfl hread' rfl hprogram'
  have hleft : (⟨[], false⟩ : Reader).Passes (inlineComment ['c'] ++ "\\1b".toList) .pattern .empty []
      [(['('], .opens none), (['a'], .copied ['a']), ([')'], .copied [')'])] := by decide +kernel
  have hright : (⟨[], false⟩ : Reader).Passes [] .pattern ⟨#[none]⟩
      ("(a)".toList ++ inlineComment ['c']).reverse
      [(['\\', '1'], .written ['\\', '1']), (['b'], .copied ['b'])] := by decide +kernel
  exact ⟨re, re', hre, hre', hsource, regex_comment (u := "(a)".toList) (c := ['c']) hre hre'
    (prepare_of_modeModifier? rfl) ⟨rfl, rfl⟩ hleft (by decide +kernel) rfl hright (by decide)
    ⟨by decide, by decide⟩ ⟨by decide, by decide⟩ ⟨by decide, by decide⟩⟩

/-- Next to a comment that is taken out a comment keeps nothing apart: the reference to the first
group and the digit behind the comments become the escape of another character. -/
theorem regex_comment_next_to_comment :
    ∃ re re', (answer (regex "(a)\\1(?#c)(?#d)1".toList []) initial).1 = .ok re ∧
      (answer (regex "(a)\\1(?:)(?#d)1".toList []) initial).1 = .ok re' ∧
      quantifierNext "(?#d)1".toList [] = false ∧ re.nativeSource = "(a)\\11".toList ∧
      re.searchFrom? "aa1".toList 0 false = none ∧
      (re'.searchFrom? "aa1".toList 0 false).map (fun c => c.slots.map (·.map Span.text)) =
        some [some "aa1".toList, some ['a']] := by
  have hread : (⟨[], false⟩ : Reader).read "(a)\\1(?#c)(?#d)1".toList =
      .ok [.opens none, .copied ['a'], .copied [')'], .written ['\\', '1'], .written [], .written [],
        .copied ['1']] := by decide +kernel
  have hread' : (⟨[], false⟩ : Reader).read "(a)\\1(?:)(?#d)1".toList =
      .ok [.opens none, .copied ['a'], .copied [')'], .written ['\\', '1'], .copied ['(', '?', ':'],
        .copied [')'], .written [], .copied ['1']] := by decide +kernel
  have hprogram : Program.ofSource? "(a)\\11".toList ⟨false, false, false⟩ =
      some ⟨.seq (.group 1 (.seq (.atom (.literal 97 false)) .empty))
        (.seq (.atom (.literal 9 false)) .empty), 1⟩ := by decide +kernel
  have hprogram' : Program.ofSource? "(a)\\1(?:)1".toList ⟨false, false, false⟩ =
      some ⟨.seq (.group 1 (.seq (.atom (.literal 97 false)) .empty)) (.seq (.backref 1 false)
        (.seq .empty (.seq (.atom (.literal 49 false)) .empty))), 1⟩ := by decide +kernel
  obtain ⟨re, hre, hsource, hnode⟩ := exists_regex rfl hread rfl hprogram
  obtain ⟨re', hre', -, hnode'⟩ := exists_regex rfl hread' rfl hprogram'
  refine ⟨re, re', hre, hre', by decide, hsource, ?_, ?_⟩
  · simp only [Regex.searchFrom?, Regex.searchAt?, Engine.search?, hnode]
    rfl
  · simp only [Regex.searchFrom?, Regex.searchAt?, Engine.search?, hnode']
    rfl

end Context

end ExtensibleRegex
