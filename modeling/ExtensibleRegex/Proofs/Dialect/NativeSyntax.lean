import ExtensibleRegex.Proofs.Dialect.Fresh
import Mathlib.Tactic

/-!
# Patterns in native syntax

The built-in tokens extend the native syntax. A pattern that has none of what they add is left as it
stands:

* `Plain inName t` says that a text has nothing of the extended syntax, where the names of groups are
  nonempty texts of the characters that `inName` takes;
* outside of the modes `n`, `s` and `x`, what is written for a piece of such a text is the piece
  (`segment_plain`), so that what is written for the whole text is the text (`Reads.render_plain`);
* `expand_plain` is that for patterns: the native pattern is the pattern, the native flags are the
  flags, and no names are listed.

The names of groups may have a `$`, which the word characters of the native syntax do not
(`expand_dollar_name`).
-/

namespace ExtensibleRegex

open Native

/-! ## 1. Texts without extended syntax -/

/-- A text in which nothing begins that only the extended syntax has. -/
structure Plain (inName : Char → Bool) (t : Text) : Prop where
  comment : ¬"(?#".toList <:+: t
  emptyClass : ¬"[]".toList <:+: t
  fullClass : ¬"[^]".toList <:+: t
  reference : ¬"\\k<".toList <:+: t
  codePoint : ¬"\\u\x7b".toList <:+: t
  foreignName : ¬"(?P<".toList <:+: t
  name : ∀ name : Text, name ≠ [] → (∀ c ∈ name, inName c = true) →
    ¬"(?<".toList ++ name ++ ">".toList <:+: t

theorem Plain.of_infix {inName : Char → Bool} {s t : Text} (h : Plain inName t) (hst : s <:+: t) :
    Plain inName s where
  comment hs := h.comment (hs.trans hst)
  emptyClass hs := h.emptyClass (hs.trans hst)
  fullClass hs := h.fullClass (hs.trans hst)
  reference hs := h.reference (hs.trans hst)
  codePoint hs := h.codePoint (hs.trans hst)
  foreignName hs := h.foreignName (hs.trans hst)
  name w hne hw hs := h.name w hne hw (hs.trans hst)

/-- No name begins in a text where each bracket that could open one is followed by a character that
names do not have. -/
theorem no_name_of_fronts {inName : Char → Bool} {t : Text}
    (h : ∀ u ∈ t.tails, "(?<".toList.isPrefixOf u = true → (u.drop 3).head?.any inName = false) :
    ∀ name : Text, name ≠ [] → (∀ c ∈ name, inName c = true) →
      ¬"(?<".toList ++ name ++ ">".toList <:+: t := by
  rintro name hne hname ⟨before, rest, rfl⟩
  obtain ⟨c, cs, rfl⟩ := List.exists_cons_of_ne_nil hne
  have hfront := h ("(?<".toList ++ (c :: cs) ++ ">".toList ++ rest)
    ((List.mem_tails _ _).2 ⟨before, by simp⟩) rfl
  have hc : inName c = false := hfront
  rw [hname c List.mem_cons_self] at hc
  cases hc

/-- A character of a word: `[A-Za-z0-9_]`. -/
def isWordChar (c : Char) : Bool := c.isAlphanum || c == '_'

namespace Plain

variable {t : Text}

theorem comment_eq_none (h : Plain isNameChar t) : Trigger.comment t = none := by
  cases hcomment : Trigger.comment t with
  | none => rfl
  | some e =>
    obtain ⟨w, rest, -, rfl, -⟩ := Trigger.of_comment hcomment
    exact absurd ⟨[], w ++ ')' :: rest, rfl⟩ h.comment

theorem openComment_eq_none (h : Plain isNameChar t) : Trigger.openComment t = none := by
  cases hopen : Trigger.openComment t with
  | none => rfl
  | some e =>
    obtain ⟨rest, rfl, -⟩ := Trigger.of_openComment hopen
    exact absurd ⟨[], rest, rfl⟩ h.comment

theorem bareClass_eq_none (h : Plain isNameChar t) : Trigger.bareClass t = none := by
  cases hclass : Trigger.bareClass t with
  | none => rfl
  | some e =>
    rcases Trigger.of_bareClass hclass with ⟨rest, rfl, -⟩ | ⟨rest, rfl, -⟩
    · exact absurd ⟨[], rest, rfl⟩ h.emptyClass
    · exact absurd ⟨[], rest, rfl⟩ h.fullClass

theorem openNamed_eq_none (h : Plain isNameChar t) : Trigger.openNamed t = none := by
  cases hopen : Trigger.openNamed t with
  | none => rfl
  | some e =>
    obtain ⟨before, w, rest, hbefore, hne, hw, rfl, -⟩ := Trigger.of_openNamed hopen
    rcases hbefore with rfl | rfl
    · exact absurd ⟨[], rest, by simp⟩ (h.name w hne hw)
    · exact absurd ⟨[], w ++ '>' :: rest, rfl⟩ h.foreignName

end Plain

/-! ## 2. Readings -/

namespace Reader

variable {r : Reader} {scope : Scope} {ledger : Ledger} {behind t : Text} {piece : Segment} {n : Nat}

/-- A piece that is written as it stands, and that gives no group a name. -/
structure Kept (piece : Segment) (t : Text) (n : Nat) : Prop where
  text : piece.text = t.take n
  unnamed : ∀ name, piece ≠ .opens (some name)

/-- The escapes that tokens take stay, numbers and `\B` alike. -/
theorem kept_of_escape (hplain : Plain isNameChar t)
    (h : r.escape scope ledger t = .ok (some (piece, n))) : Kept piece t n := by
  cases of_escape h with
  | @number w rest _ _ _ _ read =>
    exact ⟨by rw [read, List.take_succ_cons, List.take_left]; rfl, fun name h => by cases h⟩
  | name isNameChar _ _ read => exact absurd ⟨[], _, rfl⟩ (read ▸ hplain.reference)
  | unit _ _ read => exact absurd ⟨[], _, rfl⟩ (read ▸ hplain.codePoint)
  | point _ _ read => exact absurd ⟨[], _, rfl⟩ (read ▸ hplain.codePoint)
  | inside _ read => exact ⟨by rw [read]; rfl, fun name h => by cases h⟩

/-- A group that a plain text opens is a capturing one without a name. -/
theorem kept_of_parenthesis (hplain : Plain isNameChar t) (hn : 'n' ∉ r.flags)
    (h : r.parenthesis ledger behind t = .ok (some (piece, n))) : Kept piece t n := by
  unfold parenthesis at h
  rw [hplain.openNamed_eq_none, hplain.comment_eq_none, hplain.openComment_eq_none] at h
  cases hopen : Trigger.openPlain t with
  | some e =>
    obtain ⟨rest, rfl, -, rfl⟩ := Trigger.of_openPlain hopen
    simp only [hopen, List.contains_eq_mem, hn, decide_false, Bool.false_eq_true, if_false] at h
    cases h
    exact ⟨rfl, nofun⟩
  | none =>
    simp only [hopen] at h
    cases h

/-- What the tokens make of a plain text stays as it stands. -/
theorem kept_of_token? (hplain : Plain isNameChar t) (hn : 'n' ∉ r.flags) (hs : 's' ∉ r.flags)
    (hx : 'x' ∉ r.flags) (h : r.token? scope ledger behind t = .ok (some (piece, n))) :
    Kept piece t n := by
  unfold token? at h
  split at h
  · exact kept_of_escape hplain h
  split at h
  · cases h
  split at h
  · exact kept_of_parenthesis hplain hn h
  split at h
  · rw [bareClass, hplain.bareClass_eq_none] at h
    cases h
  split at h
  · rw [dot, if_neg (by simpa using hs)] at h
    cases h
  · rw [blank, if_neg (by simpa using hx)] at h
    cases h

theorem segment_plain (hplain : Plain isNameChar t) (hn : 'n' ∉ r.flags) (hs : 's' ∉ r.flags)
    (hx : 'x' ∉ r.flags) (h : r.segment scope ledger behind t = .ok (piece, n)) :
    Kept piece t n := by
  unfold segment at h
  split at h
  · rename_i found hfound
    cases h
    exact kept_of_token? hplain hn hs hx hfound
  · cases h
    exact ⟨rfl, nofun⟩
  · cases h

/-- **What is written for a plain text is the text**, and it has no named groups. -/
theorem Reads.render_plain (hn : 'n' ∉ r.flags) (hs : 's' ∉ r.flags) (hx : 'x' ∉ r.flags)
    {pieces : List Segment} (h : r.Reads scope ledger behind t pieces) (hplain : Plain isNameChar t) :
    render pieces = t ∧ (names pieces).any Option.isSome = false := by
  induction h with
  | nil => exact ⟨rfl, rfl⟩
  | @cons scope ledger behind t piece n pieces _ _ hfirst _ ih =>
    have hkept := segment_plain hplain hn hs hx hfirst
    obtain ⟨hrender, hnames⟩ := ih (hplain.of_infix (List.drop_suffix n t).isInfix)
    refine ⟨?_, ?_⟩
    · calc render (piece :: pieces) = piece.text ++ render pieces := rfl
        _ = t.take n ++ t.drop n := by rw [hkept.text, hrender]
        _ = t := List.take_append_drop n t
    · cases piece with
      | opens name =>
        cases name with
        | some name => exact absurd rfl (hkept.unnamed name)
        | none => exact hnames
      | copied w => exact hnames
      | written w => exact hnames

end Reader

/-! ## 3. Expansions -/

/-- Flags that are repeated are refused first of all. -/
theorem KnownFlags.nodup_of_prepare {k : KnownFlags} {pattern flags : Text} {prepared : Prepared}
    (h : k.prepare pattern flags = .ok prepared) : flags.Nodup := by
  obtain ⟨_, hrepeats, -⟩ := bind_eq_ok.1 h
  unfold KnownFlags.refuseRepeats at hrepeats
  cases hrepeated : repeatedFlag? flags with
  | none => exact repeatedFlag?_eq_none_iff.1 hrepeated
  | some c =>
    rw [hrepeated] at hrepeats
    cases hrepeats

/-- Flags that a pattern without a mode modifier is prepared with: themselves, without repeats. -/
theorem KnownFlags.prepare_eq_ok {k : KnownFlags} {pattern flags : Text} {prepared : Prepared}
    (hmode : modeModifier? pattern = none) (h : k.prepare pattern flags = .ok prepared) :
    prepared = ⟨pattern, flags⟩ ∧ flags.Nodup := by
  refine ⟨?_, nodup_of_prepare h⟩
  unfold KnownFlags.prepare at h
  obtain ⟨_, -, h⟩ := bind_eq_ok.1 h
  rw [hmode] at h
  obtain ⟨_, -, h⟩ := bind_eq_ok.1 h
  exact (Except.ok.inj h).symm

/-- Flags without repeats, all of them native, are the native flags read off them. -/
theorem NativeFlags.toText_perm {flags : Text} (hnodup : flags.Nodup)
    (h : ∀ c ∈ flags, c ∈ ['g', 'i', 'm', 'u', 'y']) : (NativeFlags.ofText flags).toText.Perm flags := by
  have hfilter (p : Char → Bool) : ['g', 'i', 'm', 'u', 'y'].filter p =
      NativeFlags.toText ⟨p 'g', p 'i', p 'm', p 'u', p 'y'⟩ := by
    simp only [List.filter_cons, List.filter_nil]
    cases p 'g' <;> cases p 'i' <;> cases p 'm' <;> cases p 'u' <;> cases p 'y' <;> rfl
  have hsorted : ['g', 'i', 'm', 'u', 'y'].Nodup := by decide
  have htext : (NativeFlags.ofText flags).toText = ['g', 'i', 'm', 'u', 'y'].filter flags.contains :=
    (hfilter flags.contains).symm
  rw [htext, List.perm_ext_iff_of_nodup (hsorted.filter _) hnodup]
  intro c
  rw [List.mem_filter, List.contains_eq_mem, decide_eq_true_eq]
  exact ⟨fun hc => hc.2, fun hc => ⟨h c hc, hc⟩⟩

namespace Context

variable {c : Context} {pattern flags : Text} {t : Expansion}

/-- **A pattern in native syntax passes through.** Under native flags, the expansion of a pattern
without a mode modifier that has nothing of the extended syntax, and no empty group next to another
one, is that pattern with those flags, and lists no names. -/
theorem expand_plain (h : c.Fresh) (hflags : ∀ f ∈ flags, f ∈ ['g', 'i', 'm', 'u', 'y'])
    (hmode : modeModifier? pattern = none) (hplain : Plain isNameChar pattern)
    (hsettled : Settled pattern) (ht : (answer (expand pattern flags) c).1 = .ok t) :
    t.pattern = pattern ∧ t.flags.toText.Perm flags ∧ t.names = none := by
  rw [h.answer_expand] at ht
  obtain ⟨prepared, hprepare, ht⟩ := bind_eq_ok.1 ht
  obtain ⟨pieces, hread, ht⟩ := bind_eq_ok.1 ht
  obtain ⟨rfl, hnodup⟩ := KnownFlags.prepare_eq_ok hmode hprepare
  have hno (f : Char) (hf : f ∉ ['g', 'i', 'm', 'u', 'y']) : f ∉ flags := fun hmem => hf (hflags f hmem)
  obtain ⟨hrender, hnames⟩ := (Reader.reads_of_read hread).render_plain (hno 'n' (by decide))
    (hno 's' (by decide)) (hno 'x' (by decide)) hplain
  obtain rfl := Except.ok.inj ht
  refine ⟨?_, ?_, if_neg (by rw [hnames]; decide)⟩
  · show mergeEmptyGroups (Reader.render pieces) = pattern
    rw [hrender]
    exact (merged_of_settled _ pattern (Nat.le_refl _) hsettled).1
  · have hnative : Reader.nativeFlags flags = NativeFlags.ofText flags := by
      have hA : flags.contains 'A' = false := by simpa using hno 'A' (by decide)
      unfold Reader.nativeFlags
      simp only [hA, Bool.or_false]
    show (Reader.nativeFlags flags).toText.Perm flags
    rw [hnative]
    exact NativeFlags.toText_perm hnodup hflags

theorem expand_plain_lookbehind :
    ∃ t, (answer (expand "(?<=a)[^.]{2}?\\B".toList ['y', 'g']) initial).1 = .ok t ∧
      t.pattern = "(?<=a)[^.]{2}?\\B".toList ∧ t.flags.toText.Perm ['y', 'g'] ∧ t.names = none := by
  have hprepare : Dialect.initial.flags.prepare "(?<=a)[^.]{2}?\\B".toList ['y', 'g'] =
      .ok ⟨"(?<=a)[^.]{2}?\\B".toList, ['y', 'g']⟩ := by
    rw [Dialect.initial_flags]
    rfl
  obtain ⟨pieces, hread⟩ : ∃ pieces,
      (⟨['y', 'g'], false⟩ : Reader).read "(?<=a)[^.]{2}?\\B".toList = .ok pieces := ⟨_, rfl⟩
  have ht := (fresh_initial.answer_expand _ _).trans
    (bind_eq_ok.2 ⟨_, hprepare, bind_eq_ok.2 ⟨pieces, hread, rfl⟩⟩)
  have hplain : Plain isNameChar "(?<=a)[^.]{2}?\\B".toList :=
    ⟨by decide, by decide, by decide, by decide, by decide, by decide, no_name_of_fronts (by decide +kernel)⟩
  have hflags : ∀ f ∈ ['y', 'g'], f ∈ ['g', 'i', 'm', 'u', 'y'] := by simp
  have hsettled : Settled "(?<=a)[^.]{2}?\\B".toList := by
    unfold Settled
    decide
  exact ⟨_, ht, expand_plain fresh_initial hflags rfl hplain hsettled ht⟩

/-- A name with a `$` is no word, and yet the group that has it loses it. -/
theorem expand_dollar_name :
    modeModifier? "(?<$>a)".toList = none ∧ Plain isWordChar "(?<$>a)".toList ∧
      Settled "(?<$>a)".toList ∧
      ∃ t, (answer (expand "(?<$>a)".toList []) initial).1 = .ok t ∧ t.pattern = "(a)".toList ∧
        t.names = some [some ['$']] := by
  have hprepare : Dialect.initial.flags.prepare "(?<$>a)".toList [] = .ok ⟨"(?<$>a)".toList, []⟩ := by
    rw [Dialect.initial_flags]
    rfl
  have hread : (⟨[], false⟩ : Reader).read "(?<$>a)".toList =
      .ok [.opens (some ['$']), .copied ['a'], .copied [')']] := by decide +kernel
  have ht := (fresh_initial.answer_expand _ _).trans
    (bind_eq_ok.2 ⟨_, hprepare, bind_eq_ok.2 ⟨_, hread, rfl⟩⟩)
  have hplain : Plain isWordChar "(?<$>a)".toList :=
    ⟨by decide, by decide, by decide, by decide, by decide, by decide, no_name_of_fronts (by decide +kernel)⟩
  exact ⟨rfl, hplain, by unfold Settled; decide, _, ht, rfl, rfl⟩

end Context

end ExtensibleRegex
