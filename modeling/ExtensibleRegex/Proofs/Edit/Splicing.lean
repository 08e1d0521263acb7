import ExtensibleRegex.Proofs.Native.Escaped
import ExtensibleRegex.Proofs.Regex.Held
import ExtensibleRegex.Proofs.Regex.Iteration

/-!
# Replaced matches

A replacement copies the text up to a match, writes what stands for the match, and goes on behind it.
What comes out is the text with the spans of the matches exchanged (`exchange`), and that can be said
without any of this: from the last span to the first, each is cut out of the text by its two indices.

* The matches of a text follow one another (`Follow`), so that the copied stretches and the matches make
  up the text; `exchange_eq` is the induction over them.
* The texts for the matches are made one after another, each in the state that the one before it left,
  up to the first that fails (`spliceFrom_eq`).

`replace_eq_exchanged` says it of regexes, of regexes in use, which replace while they search, and of
literal texts.
-/

namespace ExtensibleRegex

/-! ## 1. Exchanging spans -/

/-- A text with spans of it exchanged for other texts. The last span goes first, so that the indices of
those before it still count. -/
def exchange (text : Text) (changes : List (Span × Text)) : Text :=
  changes.foldr (fun x t => t.take x.1.start.index ++ x.2 ++ t.drop x.1.stop.index) text

variable {σ : Type}

/-- A text with the given matches exchanged for their replacements. The replacement is asked once for
each match, in order, and the first error that it has is the answer. -/
def exchanged (replacement : Replacement σ) (text : Text) (ms : List Captures) :
    ExceptT Error (StateM σ) Text := do
  let news ← ms.mapM replacement
  return exchange text ((ms.map Captures.whole).zip news)

/-! ## 2. Copying -/

/-- Matches behind a place, each behind the one before it. -/
def Follow : Place → List Captures → Prop
  | _, [] => True
  | last, c :: cs => (∃ u, last.Stretch u c.whole.start) ∧
      (∃ w, c.whole.start.Stretch w c.whole.stop) ∧ Follow c.whole.stop cs

/-- The text from a place on, with matches exchanged for the given texts. -/
def copyFrom : Place → List Captures → List Text → Text
  | last, c :: cs, new :: news =>
    (Span.mk last c.whole.start).text ++ new ++ copyFrom c.whole.stop cs news
  | last, _, _ => last.ahead

/-- The matches of a walk follow one another, behind any place that leads to where the walk begins. -/
theorem Regex.Walk.follow {re : Regex} {o : Option Place} {cs : List Captures} (h : re.Walk o cs) :
    ∀ {last : Place}, (∀ p, o = some p → ∃ u, last.Stretch u p) → Follow last cs := by
  induction h with
  | past => exact fun _ => trivial
  | ended => exact fun _ => trivial
  | @found p c cs h _ ih =>
    intro last hlast
    obtain ⟨u, hu⟩ := hlast p rfl
    obtain ⟨⟨v, hv⟩, hw⟩ := stretch_of_searchAt? h
    exact ⟨⟨_, hu.trans hv⟩, hw, ih fun q hq => (stretch_of_resume h hq).2⟩

/-- **Copying exchanges the spans**, of matches that follow one another. -/
theorem exchange_eq : ∀ {last : Place} {cs : List Captures} {news : List Text}, Follow last cs →
    exchange last.text ((cs.map Captures.whole).zip news) =
      last.behind.reverse ++ copyFrom last cs news
  | last, [], _, _ => last.text_eq
  | last, c :: cs, [], _ => last.text_eq
  | last, c :: cs, new :: news, ⟨⟨u, hu⟩, ⟨w, hw⟩, hrest⟩ => by
      have htext : c.whole.stop.text = last.text := hw.text_eq.trans hu.text_eq
      have ih : exchange c.whole.stop.text ((cs.map Captures.whole).zip news) =
          c.whole.stop.behind.reverse ++ copyFrom c.whole.stop cs news := exchange_eq hrest
      rw [htext] at ih
      -- behind the match, the text up to its start and the match itself have been copied
      have hstop : c.whole.stop.behind.reverse = c.whole.start.behind.reverse ++ w := by
        rw [hw.behind, List.reverse_append, List.reverse_reverse]
      have htake : (c.whole.stop.behind.reverse ++ copyFrom c.whole.stop cs news).take
          c.whole.start.index = c.whole.start.behind.reverse := by
        rw [hstop, List.append_assoc, c.whole.start.index_eq, ← List.length_reverse,
          List.take_left]
      have hdrop : (c.whole.stop.behind.reverse ++ copyFrom c.whole.stop cs news).drop
          c.whole.stop.index = copyFrom c.whole.stop cs news := by
        rw [c.whole.stop.index_eq, ← List.length_reverse, List.drop_left]
      have hstart : c.whole.start.behind.reverse = last.behind.reverse ++ u := by
        rw [hu.behind, List.reverse_append, List.reverse_reverse]
      calc exchange last.text (((c :: cs).map Captures.whole).zip (new :: news))
        _ = c.whole.start.behind.reverse ++ new ++ copyFrom c.whole.stop cs news := by
          show (exchange last.text ((cs.map Captures.whole).zip news)).take _ ++ new ++
            (exchange last.text ((cs.map Captures.whole).zip news)).drop _ = _
          rw [ih, htake, hdrop]
        _ = last.behind.reverse ++ copyFrom last (c :: cs) (new :: news) := by
          rw [hstart, copyFrom, hu.text_span]
          simp only [List.append_assoc]

/-- The texts for the matches are made in order, and copied if none of them fails. -/
theorem spliceFrom_eq (replacement : Replacement σ) : ∀ (cs : List Captures) (last : Place),
    spliceFrom replacement last cs = copyFrom last cs <$> cs.mapM replacement
  | [], last => by
      rw [List.mapM_nil, map_pure]
      rfl
  | c :: cs, last => by
      rw [spliceFrom, List.mapM_cons]
      simp only [spliceFrom_eq replacement cs, map_bind, bind_map_left, map_pure]
      rfl

/-- Splicing matches that follow one another exchanges them. -/
theorem splice_eq_exchanged (replacement : Replacement σ) {text : Text} {ms : List Captures}
    (h : Follow (.first text) ms) : splice replacement text ms = exchanged replacement text ms := by
  have hcopy : copyFrom (.first text) ms =
      fun news => exchange text ((ms.map Captures.whole).zip news) :=
    funext fun news => (exchange_eq h).symm
  rw [splice, spliceFrom_eq, exchanged, hcopy, map_eq_pure_bind]

/-! ## 3. Replacing -/

namespace Regex

/-- The matches of a text that are to be replaced: all of them, or the first one. -/
def usedMatches (re : Regex) (text : Text) (all : Bool) : List Captures :=
  if all then re.allMatches text else (re.allMatches text).take 1

theorem matchesIn_eq (re : Regex) (text : Text) (all : Bool) :
    re.matchesIn text all = re.usedMatches text all := by
  cases all with
  | true => rfl
  | false =>
    show (re.searchAt? (.first text) re.sticky).toList = (re.allMatches text).take 1
    cases hfound : re.searchAt? (.first text) re.sticky with
    | none =>
      unfold allMatches matchesFrom
      rw [hfound]
      rfl
    | some c =>
      obtain ⟨cs, hcs⟩ := Held.exists_matchesFrom_eq hfound text
      rw [allMatches, hcs]
      rfl

theorem follow_usedMatches (re : Regex) (text : Text) (all : Bool) :
    Follow (.first text) (re.usedMatches text all) := by
  have hall : Follow (.first text) (re.allMatches text) :=
    (re.walk_allMatches text).follow fun p hp => Option.some.inj hp ▸ ⟨[], .refl _⟩
  cases all with
  | true => exact hall
  | false =>
    show Follow _ ((re.allMatches text).take 1)
    cases hms : re.allMatches text with
    | nil => trivial
    | cons c cs =>
      rw [hms] at hall
      exact ⟨hall.1, hall.2.1, trivial⟩

theorem splice_matchesIn (re : Regex) (replacement : Replacement σ) (text : Text) (all : Bool) :
    splice replacement text (re.matchesIn text all) =
      exchanged replacement text (re.usedMatches text all) := by
  rw [matchesIn_eq]
  exact splice_eq_exchanged replacement (re.follow_usedMatches text all)

/-- One match is used where the extent says so, or where it says nothing and the regex is not global. -/
theorem usedMatches_takesAll (re : Regex) (text : Text) (global : Bool) (extent : Option ReplaceExtent) :
    re.usedMatches text (takesAll global extent) =
      if extent = some .one ∨ extent = none ∧ global = false then (re.allMatches text).take 1
      else re.allMatches text := by
  cases extent with
  | none => cases global <;> rfl
  | some extent => cases extent <;> rfl

theorem replace_eq (re : Regex) (text : Text) (replacement : Replacement σ) (state : σ)
    (extent : Option ReplaceExtent) (cursor : Nat) :
    (re.replace text replacement state extent cursor).1 =
      (exchanged replacement text (re.usedMatches text (takesAll re.global extent))).run.run state := by
  rw [← splice_matchesIn]
  rfl

end Regex

/-- A regex that finds a text as it stands, and nothing else. -/
structure Regex.Seeks (re : Regex) (s : Text) : Prop where
  program : re.engine.program = ⟨Native.Node.chars s .empty, 0⟩
  sticky : re.sticky = false

/-- Every text can be looked for literally. -/
theorem exists_literalRegex (needle : Text) : ∃ re, literalRegex needle = .ok re ∧ re.Seeks needle := by
  have hprogram : Native.Program.ofSource? (escape needle) (NativeFlags.ofText []).mode =
      some ⟨Native.Node.chars needle .empty, 0⟩ := Native.ofSource?_escape needle rfl
  obtain ⟨e, he, hengine⟩ := Native.Engine.ofSource_of_program hprogram
  exact ⟨_, bind_eq_ok.2 ⟨(), rfl, bind_eq_ok.2 ⟨e, he, rfl⟩⟩, hengine, rfl⟩

/-- **Replacing exchanges the matches.** The matches are those of the text, up to the first one where the
extent is one, and without an extent where the regex is not global. Each match is exchanged for its
replacement, and all other text is kept. The replacements are made in order, each in the state that the
one before it left, and the first one that fails is the answer. A text taken literally is replaced as the
matches of the regex of the escaped text are, once if there is no extent. -/
theorem replace_eq_exchanged (text : Text) (replacement : Replacement σ) (state : σ)
    (extent : Option ReplaceExtent) :
    (∀ (re : Regex) (cursor : Nat), (re.replace text replacement state extent cursor).1 =
      (exchanged replacement text (if extent = some .one ∨ extent = none ∧ re.global = false
        then (re.allMatches text).take 1 else re.allMatches text)).run.run state) ∧
    (∀ held : Held, ((Held.replace text replacement state extent).run held).1 =
      (exchanged replacement text (if extent = some .one ∨ extent = none ∧ held.regex.global = false
        then (held.regex.allMatches text).take 1 else held.regex.allMatches text)).run.run state) ∧
    ∀ needle, ∃ re, Regex.native (escape needle) [] = .ok re ∧
      (replaceLiteral needle text replacement extent).run.run state =
        (exchanged replacement text (if extent = some .one ∨ extent = none
          then (re.allMatches text).take 1 else re.allMatches text)).run.run state := by
  have hregex (re : Regex) (cursor : Nat) : (re.replace text replacement state extent cursor).1 = _ :=
    (re.replace_eq text replacement state extent cursor).trans
      (by rw [re.usedMatches_takesAll text re.global extent])
  refine ⟨hregex, fun held => ?_, fun needle => ?_⟩
  · exact (Held.yields_replace held text replacement state extent).answers.trans
      (hregex held.regex held.cursor)
  · obtain ⟨re, hre, -⟩ := exists_literalRegex needle
    refine ⟨re, hre, ?_⟩
    have hall : (extent == some .all) = takesAll false extent := by
      cases extent <;> rfl
    have hused := re.usedMatches_takesAll text false extent
    simp only [and_true] at hused
    rw [← hused, ← hall, ← re.splice_matchesIn, replaceLiteral, show literalRegex needle = .ok re from hre]
    rfl

end ExtensibleRegex
