import ExtensibleRegex.Proofs.Combine.Fresh
import ExtensibleRegex.Proofs.Combine.Joining
import ExtensibleRegex.Proofs.Combine.Literals
import ExtensibleRegex.Proofs.Combine.Strict
import ExtensibleRegex.Proofs.Dialect.Escape
import ExtensibleRegex.Proofs.Dialect.NativeSyntax
import Mathlib.Tactic

/-!
# The parts of a union as words

A part of a union is a literal text or a regex. A regex that a fresh context has made, and whose native
pattern names no group, is made of words which the union sees as pieces (`Regex.exists_words`), and
so is a literal text. What the union writes for such a part are these words, moved and with the names
of its groups (`Needle.Words.writtenPart`), just when the numbers in them refer to groups that have
opened (`Needle.words_of_writtenPart`). A regex is `Numbered` when they do and when its native pattern
has the groups that it lists.
-/

namespace ExtensibleRegex

open Native

/-! ## 1. Flags and names -/

theorem contains_eq_false {allowed flags : Text} (h : ∀ f ∈ flags, f ∈ allowed) {f : Char}
    (hf : f ∉ allowed) : flags.contains f = false := by
  rw [List.contains_eq_mem, decide_eq_false_iff_not]
  exact fun hmem => hf (h f hmem)

namespace Reader

theorem bland_of_flags {flags : Text} (h : ∀ f ∈ flags, f ∈ ['g', 'i', 'm', 'u', 'y']) :
    Bland ⟨flags, false⟩ :=
  ⟨contains_eq_false h (by decide), contains_eq_false h (by decide), contains_eq_false h (by decide),
    rfl⟩

/-- Texts are read by code units unless a flag says otherwise. -/
theorem unicode_nativeFlags {flags : Text} (h : ∀ f ∈ flags, f ∈ ['g', 'i', 'm', 's', 'y']) :
    (nativeFlags flags).mode.unicode = false := by
  show (flags.contains 'u' || flags.contains 'A') = false
  rw [contains_eq_false h (by decide), contains_eq_false h (by decide)]
  rfl

variable {r : Reader} {scope : Scope} {ledger : Ledger} {behind t : Text} {pieces : List Segment}

/-- Only a parenthesis opens a group. -/
theorem parenthesis_of_opens {name : Option Text} {n : Nat}
    (h : r.token? scope ledger behind t = .ok (some (.opens name, n))) :
    r.parenthesis ledger behind t = .ok (some (.opens name, n)) := by
  unfold token? at h
  split at h
  · obtain ⟨w, hw, -⟩ := unmarked_of_escape h
    cases hw
  split at h
  · cases h
  split at h
  · exact h
  split at h
  · unfold bareClass at h
    split at h
    · cases write_eq_ok h
    · cases h
  split at h
  · unfold dot at h
    split at h
    · cases write_eq_ok h
    · cases h
  · unfold blank at h
    split at h
    · cases write_eq_ok h
    · cases h

theorem named_of_parenthesis (hr : r.namespacing = false) {name : Text} {n : Nat}
    (h : r.parenthesis ledger behind t = .ok (some (.opens (some name), n))) : Mark.Named name := by
  unfold parenthesis at h
  split at h
  · split at h
    · cases write_eq_ok h
    · cases h
  split at h
  · rename_i e hnamed
    obtain ⟨before, w, rest, -, hne, hw, -, -, -, -, hcaptured⟩ := Trigger.of_openNamed hnamed
    rw [hcaptured, hr] at h
    simp only at h
    split at h
    · cases h
    · rename_i hdigits
      split at h
      · cases h
      · rename_i hguarded
        split at h
        · cases h
        · cases h
          exact ⟨hne, hw, Bool.eq_false_iff.2 hdigits, by simpa using hguarded⟩
  split at h
  · cases write_eq_ok h
  split at h <;> cases h

/-- The names that groups are written with can be written again. -/
theorem Reads.named (hr : r.namespacing = false) (h : r.Reads scope ledger behind t pieces) :
    ∀ name, some name ∈ names pieces → Mark.Named name := by
  induction h with
  | nil => exact fun _ hname => absurd hname List.not_mem_nil
  | @cons scope ledger behind t piece n pieces _ _ hfirst _ ih =>
    intro name hname
    cases piece with
    | opens found =>
      rcases List.mem_cons.1 (show some name ∈ found :: names pieces from hname) with heq | hname
      · subst heq
        rcases segment_eq_ok hfirst with htoken | ⟨-, hcopied, -⟩
        · exact named_of_parenthesis hr (parenthesis_of_opens htoken)
        · cases hcopied
      · exact ih name hname
    | copied w => exact ih name hname
    | written w => exact ih name hname

end Reader

/-! ## 2. Texts that are read again -/

/-- A text that is read again has no mode modifier. -/
theorem modeModifier?_of_rereads {t t' : Text} {ms : List Mark} (h : Rereads .pattern t t' ms) :
    modeModifier? t = none := by
  cases h with
  | nil => rfl
  | plain hc _ => exact modeModifier?_of_head fun hparen => by cases hparen; cases hc
  | close _ => exact modeModifier?_of_head (by simp)
  | set _ _ => exact modeModifier?_of_head (by simp)
  | escape _ _ _ => exact modeModifier?_of_head (by simp)
  | number _ _ => exact modeModifier?_of_head (by simp)
  | capture hhead _ =>
    unfold modeModifier?
    split
    · rename_i heq
      cases heq
      exact absurd rfl hhead
    · rfl
  | named _ _ => rfl
  | @group kind w t _ _ opens _ =>
    cases hmode : modeModifier? ('(' :: '?' :: (w ++ t)) with
    | none => rfl
    | some modifier =>
      have hnone := lexeme?_of_modeModifier? hmode false false
      have hopening : (opening? ('?' :: (w ++ t))).map _ = none := hnone
      rw [opens.opening] at hopening
      cases hopening

/-- **The expansion of a text that is read again**, when its marks stand. -/
theorem Reader.expansion_of_rereads {flags t t' : Text} {ms : List Mark}
    (hflags : ∀ f ∈ flags, f ∈ ['g', 'i', 'm', 'u', 'y']) (hnodup : flags.Nodup)
    (h : Rereads .pattern t t' ms) (hstand : Mark.NumbersStand 0 ms)
    (hnames : ((Mark.names ms).filterMap id).Nodup) :
    expansion t flags = .ok
      { pattern := mergeEmptyGroups t'
        flags := nativeFlags flags
        names := if (Mark.names ms).any Option.isSome then some (Mark.names ms) else none } := by
  have hstands : Mark.Stand .empty ms := @Mark.NumbersStand.stand ms .empty hstand hnames
  obtain ⟨pieces, hreads, hrender, hgroups⟩ :=
    (understood_of_rereads (bland_of_flags hflags) _ .pattern .empty t t' ms (Nat.lt_succ_self _) h).reads
      hstands []
  have hknown : ∀ f ∈ flags, f ∈ ['g', 'i', 'm', 'n', 's', 'u', 'x', 'y'] := fun f hf => by
    have hmem := hflags f hf
    simp only [List.mem_cons, List.not_mem_nil, or_false] at hmem ⊢
    tauto
  have hexpansion := expansion_of_read (modeModifier?_of_rereads h) hknown hnodup hreads.read
  rwa [hrender, hgroups] at hexpansion

/-- Words are read again as they stand. -/
theorem PartWords.rereads (p : PartWords) : Rereads .pattern p.text p.text (p.marks []) := by
  have hmap : (p.words.map fun w => ((w, none) : NamedWord)).map Prod.fst = p.words := by
    rw [List.map_map]
    exact List.map_id p.words
  have h := @rereads_words (p.words.map fun w => (w, none)) (by rw [hmap]; exact p.fits)
    (fun w hw => by obtain ⟨v, hv, rfl⟩ := List.mem_map.1 hw; exact p.firm v hv)
    fun w hw name hname => by obtain ⟨v, hv, rfl⟩ := List.mem_map.1 hw; cases hname
  rw [writeNamed_unnamed p.firm, hmap, ← marksBefore_nil] at h
  exact h

/-- The marks of the words of a part have no names. -/
theorem names_marks_unnamed (T : Text) : ∀ ws : List Word,
    ∀ name, some name ∉ Mark.names (marksBefore (ws.map fun w => (w, none)) T)
  | [], _, h => absurd h List.not_mem_nil
  | w :: ws, name, h => by
      have hsplit : Mark.names (marksBefore ((w :: ws).map fun w => ((w, none) : NamedWord)) T) =
          Mark.names (NamedWord.marks (writeNamed (ws.map fun w => (w, none)) ++ T) (w, none)) ++
            Mark.names (marksBefore (ws.map fun w => (w, none)) T) := List.filterMap_append
      rw [hsplit] at h
      rcases List.mem_append.1 h with h | h
      · cases hcaptures : w.captures with
        | false =>
          rw [names_marks hcaptures] at h
          exact absurd h List.not_mem_nil
        | true =>
          rw [NamedWord.marks, hcaptures, if_pos rfl] at h
          cases List.mem_singleton.1 h
      · exact names_marks_unnamed T ws name h

/-- The flags that a part is expanded with once more. -/
abbrev ownFlags (unicode : Bool) : Text := if unicode then ['u'] else []

/-- The native pattern of a part is its own expansion. -/
theorem PartWords.expansion (p : PartWords) (hstand : Mark.NumbersStand 0 (p.marks []))
    (hsettled : Settled p.text) (unicode : Bool) : Reader.expansion p.text (ownFlags unicode) =
      .ok ⟨p.text, Reader.nativeFlags (ownFlags unicode), none⟩ := by
  have hnone : ∀ name ∈ Mark.names (p.marks []), name = none := fun name hname => by
    cases name with
    | none => rfl
    | some name => exact absurd hname (names_marks_unnamed [] p.words name)
  have hfilter : (Mark.names (p.marks [])).filterMap id = [] := by
    rw [List.filterMap_eq_nil_iff]
    exact hnone
  have hany : (Mark.names (p.marks [])).any Option.isSome = false := by
    rw [List.any_eq_false]
    intro name hname
    rw [hnone name hname]
    decide
  have hflags : ∀ f ∈ ownFlags unicode, f ∈ ['g', 'i', 'm', 'u', 'y'] := by cases unicode <;> simp
  have hnodup : (ownFlags unicode).Nodup := by cases unicode <;> decide
  rw [Reader.expansion_of_rereads hflags hnodup p.rereads hstand
    (by rw [hfilter]; exact List.nodup_nil), hany]
  exact congrArg (fun t => Except.ok (Expansion.mk t _ none))
    (merged_of_settled _ p.text (Nat.le_refl _) hsettled).1

/-! ## 3. Literal texts -/

/-- Escaped characters get no names. -/
theorem dub_literals (names : GroupNames) : ∀ t : Text,
    dub names 0 (t.map literalWord) = (t.map literalWord).map fun w => (w, none)
  | [] => rfl
  | c :: t => congrArg ((literalWord c, none) :: ·) (dub_literals names t)

theorem firm_literals (t : Text) : ∀ w ∈ t.map literalWord, Firm w := fun w hw => by
  obtain ⟨c, -, rfl⟩ := List.mem_map.1 hw
  exact firm_literalWord c

theorem captureNames_literalWords (t : Text) :
    captureNames ((t.map literalWord).map Word.lexeme) = [] := by
  rw [List.map_map]
  exact captureNames_literals t

/-- What is written for the pieces of an escaped text is that text. -/
theorem renumber_escape (names : GroupNames) (prior : Nat) (t : Text) :
    renumber names prior 0 (pieces (escape t) false) = (escape t, 0) := by
  have hshifted : (t.map literalWord).map (Word.shifted prior) = t.map literalWord := by
    rw [List.map_map]
    rfl
  rw [← write_literals, renumber_pieces names prior 0 (fits_literals t) (firm_literals t), hshifted,
    dub_literals, writeNamed_unnamed (firm_literals t), captureNames_literalWords]
  rfl

theorem named_nil : ∀ name, some name ∈ ([] : GroupNames) → Mark.Named name :=
  fun _ h => absurd h List.not_mem_nil

/-- A literal text as a part. -/
def PartWords.literal (t : Text) : PartWords where
  words := t.map literalWord
  names := []
  fits := fits_literals t
  firm := firm_literals t
  named := named_nil

/-- An escaped character marks nothing. -/
theorem marks_literalWord (c : Char) (next : Text) :
    NamedWord.marks next (literalWord c, none) = [] := by
  have hstill : Still (.literal c.toNat) := ⟨nofun, nofun⟩
  have h := escaped_escapeChar c
  unfold literalWord
  generalize escapeChar c = w at h
  cases h with
  | plain hmeta _ _ _ => exact marks_of_still hstill (by rintro rfl; cases hmeta) none
  | behind htail =>
    cases htail with
    | self hmeta =>
      rw [marks_of_escape hstill, if_neg]
      exact EscapeTail.syntaxChar_cases (p := fun d => ¬d.isDigit = true) (by simp) hmeta
    | hex _ =>
      rw [marks_of_escape hstill]
      rfl
    | unicode _ _ =>
      rw [marks_of_escape hstill]
      rfl

theorem PartWords.marks_literal (next : Text) : ∀ t : Text, (literal t).marks next = []
  | [] => rfl
  | c :: t => by
      have hrest := marks_literal next t
      show NamedWord.marks _ (literalWord c, none) ++ (literal t).marks next = []
      rw [marks_literalWord, hrest]
      rfl

theorem PartWords.stands_literal (t : Text) : Shape.Stands (literal t).lexemes := by
  have hlexemes : (literal t).lexemes = t.flatMap fun c => [.literal c.toNat] := by
    show (t.map literalWord).map Word.lexeme = _
    rw [List.map_map, List.map_eq_flatMap]
    rfl
  rw [hlexemes]
  exact Shape.stands_flatMap fun c _ => Shape.stands_literal c.toNat

/-! ## 4. Regexes as parts -/

/-- A regex that a fresh context makes. -/
def Regex.Made (re : Regex) : Prop := ∃ pattern flags, Context.freshRegex pattern flags = .ok re

/-- A regex is tidy under flag `u` if no code point in braces is left in its native pattern. Without that
flag there is none in what a fresh context writes (`Regex.Made.written`). -/
def Regex.TidyUnderU (re : Regex) : Prop :=
  re.engine.mode.unicode = true → tidy false re.nativeSource = true

theorem Regex.tidyUnderU_of_lenient {re : Regex} (h : re.engine.mode.unicode = false) :
    re.TidyUnderU := by
  intro hunicode
  rw [h] at hunicode
  cases hunicode

/-- What a fresh context writes for a pattern. -/
structure Regex.Written (re : Regex) : Prop where
  tidy : tidy false re.nativeSource = true
  settled : Settled re.nativeSource
  named : ∀ name, some name ∈ re.names.getD [] → Mark.Named name

/-- What a fresh context reads of a pattern is what it writes. -/
theorem Context.segments_of_freshRegex {pattern flags : Text} {re : Regex}
    (h : Context.freshRegex pattern flags = .ok re) :
    ∃ prepared segments, Dialect.initial.flags.prepare pattern flags = .ok prepared ∧
      Reader.Reads ⟨prepared.flags, false⟩ .pattern .empty [] prepared.pattern segments ∧
      re.nativeSource = mergeEmptyGroups (Reader.render segments) ∧
      re.engine.mode = (Reader.nativeFlags prepared.flags).mode ∧
      re.names = if (Reader.names segments).any Option.isSome then some (Reader.names segments)
        else none := by
  obtain ⟨t, ht, h⟩ := bind_eq_ok.1 h
  obtain ⟨engine, hengine, h⟩ := bind_eq_ok.1 h
  obtain rfl := Except.ok.inj h
  obtain ⟨prepared, hprepare, ht⟩ := bind_eq_ok.1 ht
  obtain ⟨segments, hread, ht⟩ := bind_eq_ok.1 ht
  obtain rfl := Except.ok.inj ht
  obtain ⟨hsource, hengineMode⟩ := Engine.ofSource_eq_ok.1 hengine
  exact ⟨prepared, segments, hprepare, Reader.reads_of_read hread, hsource, hengineMode, rfl⟩

/-- A pattern without a mode modifier is read as it is, in the mode of the flags. -/
theorem Context.segments_of_unmodified {pattern flags : Text} {re : Regex}
    (h : Context.freshRegex pattern flags = .ok re) (hmode : modeModifier? pattern = none) :
    ∃ segments, Reader.Reads ⟨flags, false⟩ .pattern .empty [] pattern segments ∧
      re.nativeSource = mergeEmptyGroups (Reader.render segments) ∧
      re.engine.mode = (Reader.nativeFlags flags).mode := by
  obtain ⟨prepared, segments, hprepare, hreads, hsource, hengine, -⟩ := segments_of_freshRegex h
  obtain ⟨rfl, -⟩ := KnownFlags.prepare_eq_ok hmode hprepare
  exact ⟨segments, hreads, hsource, hengine⟩

theorem Regex.Made.written {re : Regex} (h : re.Made) (htidy : re.TidyUnderU) : re.Written := by
  obtain ⟨pattern, flags, hre⟩ := h
  obtain ⟨prepared, segments, -, hreads, hsource, hengine, hnames⟩ := Context.segments_of_freshRegex hre
  have hlength := Nat.le_refl (Reader.render segments).length
  refine ⟨?_, ?_, fun name hname => hreads.named rfl name ?_⟩
  · cases hmode : re.engine.mode.unicode with
    | true => exact htidy hmode
    | false =>
      rw [hengine] at hmode
      have hu := (Bool.or_eq_false_iff.1
        (show (prepared.flags.contains 'u' || prepared.flags.contains 'A') = false from hmode)).1
      rw [hsource]
      exact ((tidy_merged _ _ hlength).1 false).trans (hreads.tidy_render hu)
  · rw [hsource]
    exact (settled_merged _ _ hlength).1
  · rw [hnames] at hname
    split at hname
    · exact hname
    · cases hname

/-- The words of a regex that a fresh context has made. -/
structure Regex.Words (re : Regex) (p : PartWords) : Prop where
  text : p.text = re.nativeSource
  names : p.names = re.names.getD []
  settled : Settled p.text
  stands : Shape.Stands p.lexemes
  fits : FitsIn re.engine.mode.unicode p.words

/-- **A regex whose native pattern names no group has words**, which are words in the grammar that the
regex is read by as well. -/
theorem Regex.exists_words {re : Regex} (h : re.Made) (htidy : re.TidyUnderU)
    {ls : List Lexeme} (hlexed : lexemes? false re.nativeSource = some ls)
    (hnone : ∀ name ∈ captureNames ls, name = none) : ∃ p, re.Words p ∧ p.lexemes = ls := by
  have hwritten := h.written htidy
  obtain ⟨ws, hfits, hwrite, rfl⟩ := exists_fits_of_lexemes? hlexed hnone
  have hunnamed : ∀ w ∈ ws, ∀ name, w.lexeme ≠ .opening (.capture (some name)) := by
    intro w hw name hl
    have hmem : some name ∈ captureNames (ws.map Word.lexeme) :=
      List.mem_filterMap.2 ⟨_, List.mem_map_of_mem hw, by rw [hl]⟩
    cases hnone _ hmem
  have htidyWords : tidy false (write ws) = true := by
    rw [hwrite]
    exact hwritten.tidy
  have hown : FitsIn re.engine.mode.unicode ws := by
    cases hmode : re.engine.mode.unicode with
    | false => exact hfits
    | true =>
      obtain ⟨ms, q, hq, -⟩ := Program.ofSource?_eq_some_iff.1 re.engine.program_eq
      have hread := hq.lexed
      rw [hmode, lexemes?_true, ← show write ws = re.engine.source from hwrite] at hread
      exact fitsIn_of_lexAll? hfits htidyWords hunnamed hread
  have hread := lexemes?_of_fits hown hnone
  rw [hwrite] at hread
  have hstands := Program.stands_of_ofSource? re.engine.program_eq hread hfits.ne_namedRef
  refine ⟨⟨ws, re.names.getD [], hfits, firm_of_fits hfits htidyWords hunnamed, hwritten.named⟩,
    ⟨hwrite, rfl, ?_, hstands, hown⟩, rfl⟩
  show Settled (write ws)
  rw [hwrite]
  exact hwritten.settled

/-! ## 5. Parts -/

namespace Needle

/-- The native pattern of a part. -/
def native : Needle → Text
  | literal t => escape t
  | regex re => re.nativeSource

/-- The words of a part whose numbers refer to groups that have opened. -/
def Words : Needle → PartWords → Prop
  | literal t, p => p = .literal t
  | regex re, p => re.Words p ∧ Mark.NumbersStand 0 (p.marks [])

variable {part : Needle} {p : PartWords}

theorem Words.text (h : part.Words p) : p.text = part.native := by
  cases part with
  | literal t =>
    obtain rfl : p = .literal t := h
    exact write_literals t
  | regex re => exact h.1.text

theorem Words.settled (h : part.Words p) : Settled p.text := by
  cases part with
  | literal t =>
    obtain rfl : p = .literal t := h
    have hsettled := settled_of_isChain (@isChain_escape t [] .nil nofun)
    rw [List.append_nil] at hsettled
    show Settled (write (t.map literalWord))
    rwa [write_literals]
  | regex re => exact h.1.settled

theorem Words.stands (h : part.Words p) : Shape.Stands p.lexemes := by
  cases part with
  | literal t =>
    obtain rfl : p = .literal t := h
    exact PartWords.stands_literal t
  | regex re => exact h.1.stands

theorem Words.numbers (h : part.Words p) : Mark.NumbersStand 0 (p.marks []) := by
  cases part with
  | literal t =>
    obtain rfl : p = .literal t := h
    rw [PartWords.marks_literal]
    trivial
  | regex re => exact h.2

/-- **What a union writes for a part** are its words, moved and with the names of its groups. -/
theorem Words.writtenPart (h : part.Words p) (prior : Nat) :
    Context.writtenPart prior part = .ok (writeNamed (p.moved prior), prior + p.groupCount) := by
  have hrenumber : renumber p.names prior 0 (pieces p.text false) =
      (writeNamed (p.moved prior), 0 + p.groupCount) := renumber_pieces p.names prior 0 p.fits p.firm
  rw [Nat.zero_add] at hrenumber
  have hexpansion := p.expansion h.numbers h.settled
  simp only [h.text] at hexpansion hrenumber
  cases part with
  | literal t =>
    obtain ⟨hwritten, hcount⟩ := Prod.mk.inj ((renumber_escape p.names prior t).symm.trans hrenumber)
    rw [← hwritten, ← hcount]
    rfl
  | regex re =>
    rw [Context.writtenPart_of_expansion (hexpansion re.engine.mode.unicode), ← h.1.names]
    exact congrArg Except.ok (congrArg₂ _ (congrArg Prod.fst hrenumber)
      (congrArg (prior + Prod.snd ·) hrenumber))

/-- What a union writes anything for has numbers that refer to groups that have opened. -/
theorem words_of_writtenPart {re : Regex} (h : re.Words p) {prior : Nat} {written : Text × Nat}
    (hwritten : Context.writtenPart prior (.regex re) = .ok written) : (regex re).Words p := by
  obtain ⟨t, ht, -⟩ := bind_eq_ok.1 (show (Reader.expansion re.nativeSource
    (ownFlags re.engine.mode.unicode) >>= _) = Except.ok written from hwritten)
  rw [← h.text] at ht
  obtain ⟨prepared, hprepare, ht⟩ := bind_eq_ok.1 ht
  obtain ⟨rfl, -⟩ := KnownFlags.prepare_eq_ok (modeModifier?_of_rereads p.rereads) hprepare
  obtain ⟨segments, hread, -⟩ := bind_eq_ok.1 ht
  have hbland : Reader.Bland ⟨ownFlags re.engine.mode.unicode, false⟩ := by
    cases re.engine.mode.unicode <;> exact ⟨rfl, rfl, rfl, rfl⟩
  exact ⟨h, ((Reader.understood_of_rereads hbland _ .pattern .empty _ _ _ (Nat.lt_succ_self _)
    p.rereads).stand [] segments (Reader.reads_of_read hread)).numbersStand⟩

end Needle

/-! ## 6. Numbered parts -/

/-- A regex that a fresh context has made, with no code point in braces if flag `u` is on. Its native
pattern has the groups that the regex lists, without names of its own, and its numbers refer to groups
that have opened. -/
structure Regex.Numbered (re : Regex) : Prop where
  made : re.Made
  tidy : re.TidyUnderU
  groups : (lexemes? false re.nativeSource).map captureNames =
    some (List.replicate re.groupCount none)
  numbers : Mark.NumbersStand 0 (Mark.ofText false re.nativeSource)

/-- The names of the groups of a regex, group by group. -/
theorem Regex.names_of_range (re : Regex) :
    (List.range re.groupCount).map (fun i => ((re.names.getD [])[i]?).join) =
      re.names.getD (List.replicate re.groupCount none) := by
  unfold Regex.groupCount
  cases re.names with
  | none => simp
  | some names =>
    refine List.ext_getElem (by simp) fun i hi _ => ?_
    have hlt : i < names.length := by simpa using hi
    simp [List.getElem?_eq_getElem hlt]

namespace Needle

/-- The names of the groups of a part. -/
def groupNames : Needle → GroupNames
  | literal _ => []
  | regex re => re.names.getD (List.replicate re.groupCount none)

/-- A part whose groups and references a union sees. -/
def Numbered : Needle → Prop
  | literal _ => True
  | regex re => re.Numbered

/-- **The words of a numbered part** have its groups. -/
theorem exists_words : ∀ {part : Needle}, part.Numbered →
    ∃ p, part.Words p ∧ p.groupNames = part.groupNames
  | .literal t, _ => by
      have hcount : (PartWords.literal t).groupCount = 0 :=
        congrArg List.length (captureNames_literalWords t)
      refine ⟨.literal t, rfl, ?_⟩
      rw [PartWords.groupNames, hcount]
      rfl
  | .regex re, h => by
      obtain ⟨ls, hlexed, hnames⟩ := Option.map_eq_some_iff.1 h.groups
      obtain ⟨p, hp, rfl⟩ := Regex.exists_words h.made h.tidy hlexed fun name hname =>
        List.eq_of_mem_replicate (hnames ▸ hname)
      have hcount : p.groupCount = re.groupCount := by
        rw [PartWords.groupCount, hnames, List.length_replicate]
      refine ⟨p, ⟨hp, ?_⟩, ?_⟩
      · rw [PartWords.marks_nil, hp.text]
        exact h.numbers
      · rw [PartWords.groupNames, hcount, hp.names]
        exact re.names_of_range

end Needle

end ExtensibleRegex
