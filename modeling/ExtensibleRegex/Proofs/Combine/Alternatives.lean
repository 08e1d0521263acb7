import ExtensibleRegex.Proofs.Combine.Groups
import Mathlib.Tactic

/-!
# What alternatives match

A union of alternatives finds the match that starts first among those of its parts, and of the parts
that have one there it takes the first (`Context.union_matches`). Its native pattern is read as the
native patterns of the parts one after another, each behind the groups of those before it, and the
ways through it are theirs.

This needs native patterns that name no group: a group with a name that the dialect does not take is not
counted, and a later reference is to the wrong group then (`Context.union_matches_foreign_name`).
-/

namespace ExtensibleRegex

open Native

/-! ## 1. Parts behind other groups -/

/-- Without names no word gets one. -/
theorem dub_nil : ∀ (opened : Nat) (ws : List Word), dub [] opened ws = ws.map fun w => (w, none)
  | _, [] => rfl
  | opened, w :: ws => by
      unfold dub
      rw [dub_nil (opened + 1) ws, dub_nil opened ws, List.getElem?_nil, List.map_cons]
      exact ite_self _

/-- A regex that a fresh context makes of a pattern without a mode modifier. -/
def Regex.MadeUnder (flags : Text) (re : Regex) : Prop :=
  ∃ pattern, Context.freshRegex pattern flags = .ok re ∧ modeModifier? pattern = none

/-- It matches in the mode of the flags. -/
theorem Regex.MadeUnder.mode {flags : Text} {re : Regex} (h : re.MadeUnder flags) :
    re.engine.mode = (Reader.nativeFlags flags).mode := by
  obtain ⟨pattern, hre, hmodifier⟩ := h
  exact (Context.segments_of_unmodified hre hmodifier).choose_spec.2.2

theorem Regex.MadeUnder.made {flags : Text} {re : Regex} (h : re.MadeUnder flags) : re.Made :=
  ⟨h.choose, flags, h.choose_spec.1⟩

/-- A regex whose native pattern names no group. -/
def Regex.Unnamed (re : Regex) : Prop :=
  ∃ ls, lexemes? false re.nativeSource = some ls ∧ ∀ name ∈ captureNames ls, name = none

/-- The lexemes of a part whose numbers refer to groups that have opened may stand behind other
groups. -/
theorem PartWords.movable {p : PartWords} (h : Mark.NumbersStand 0 (p.marks [])) :
    ∀ l ∈ p.lexemes, l.Movable (captureNames p.lexemes).length := by
  rw [PartWords.marks, marksBefore_nil, ← dub_nil 0] at h
  have hnames : (Mark.names (marksOf (dub [] 0 p.words))).length = (captureNames p.lexemes).length := by
    rw [← marksBefore_nil, names_marks_dub _ _ _ p.firm, List.length_map, List.length_range']
    rfl
  intro l hl
  refine ⟨p.fits.ne_namedRef l hl, ?_⟩
  rintro digits rfl
  obtain ⟨w, hw, hdigits⟩ := List.mem_map.1 hl
  have hmem : (w, none) ∈ dub [] 0 p.words := by
    rw [dub_nil]
    exact List.mem_map_of_mem hw
  have hfirm : ∀ v ∈ dub [] 0 p.words, Firm v.1 := by
    intro v hv
    rw [dub_nil] at hv
    obtain ⟨u, hu, rfl⟩ := List.mem_map.1 hv
    exact p.firm u hu
  have hle := (le_of_numbersStand (by rw [map_dub]; exact p.fits) hfirm h _ hmem digits hdigits).2
  rwa [hnames, Nat.zero_add] at hle

/-- The program of a regex that is made of words, whose numbers refer to groups that have opened. -/
theorem Regex.Words.ofMovable {re : Regex} {p : PartWords} (h : re.Words p)
    (hnumbers : Mark.NumbersStand 0 (p.marks [])) :
    Program.OfMovable re.engine.mode p.lexemes re.engine.program := by
  refine ⟨⟨re.nativeSource, ?_, re.engine.program_eq⟩, PartWords.movable hnumbers⟩
  rw [← h.text]
  exact lexemes?_of_fits h.fits (eq_none_of_firm p.firm)

namespace Context

variable {c : Context} {flags : Text}

/-! ## 2. What a union is read as -/

/-- Parts that a union writes anything for are made of words. -/
theorem words_of_writtenParts : ∀ {parts : List Regex} {prior : Nat} {written : List Text},
    writtenParts prior (parts.map .regex) = .ok written → (∀ part ∈ parts, ∃ p, part.Words p) →
    ∃ ps, List.Forall₂ Needle.Words (parts.map .regex) ps
  | [], _, _, _, _ => ⟨[], .nil⟩
  | part :: parts, prior, written, h, hparts => by
      obtain ⟨first, hfirst, h⟩ := bind_eq_ok.1
        (show writtenPart prior (.regex part) >>= _ = Except.ok written from h)
      obtain ⟨rest, hrest, -⟩ := bind_eq_ok.1 h
      obtain ⟨p, hp⟩ := hparts part List.mem_cons_self
      obtain ⟨ps, hps⟩ := words_of_writtenParts hrest fun q hq => hparts q (List.mem_cons_of_mem part hq)
      exact ⟨p :: ps, .cons (Needle.words_of_writtenPart hp hfirst) hps⟩

/-- A union of parts that are made of words is the regex of what is written for them. -/
theorem native_of_union {parts : List Needle} {ps : List PartWords} {conjunction : Conjunction}
    {re : Regex} (hflags : ∀ f ∈ flags, f ∈ ['g', 'i', 'm', 'y'])
    (hps : List.Forall₂ Needle.Words parts ps) (hfits : Fits (together (joined conjunction ps)))
    (h : freshUnion parts flags conjunction = .ok re) :
    parts ≠ [] ∧ re.nativeSource = mergeEmptyGroups (joinedText conjunction ps) ∧
      re.engine.mode = (Reader.nativeFlags flags).mode := by
  have hne : parts ≠ [] := by
    rintro rfl
    cases h
  rw [freshUnion_of_written (writtenParts_of_words 0 hps) hne, ← writeNamed_joined] at h
  have hrereads := rereads_movedFrom hfits 0
  obtain ⟨segments, hreads, hsource, hmode⟩ :=
    segments_of_unmodified h (modeModifier?_of_rereads hrereads)
  have hunderstood := Reader.understood_of_rereads (Reader.bland_of_flags fun f hf =>
    (by simp : (['g', 'i', 'm', 'y'] : Text) ⊆ ['g', 'i', 'm', 'u', 'y']) (hflags f hf)) _ .pattern .empty
    _ _ _ (Nat.lt_succ_self _) hrereads
  obtain ⟨segments', hreads', hrender, -⟩ := hunderstood.reads (hunderstood.stand [] segments hreads) []
  obtain rfl := Except.ok.inj (hreads.read.symm.trans hreads'.read)
  exact ⟨hne, by rw [hsource, hrender], hmode⟩

theorem written_of_freshUnion {parts : List Needle} {conjunction : Conjunction} {re : Regex}
    (h : freshUnion parts flags conjunction = .ok re) : ∃ written, writtenParts 0 parts = .ok written := by
  cases parts with
  | nil => cases h
  | cons part parts =>
    obtain ⟨written, hwritten, -⟩ := bind_eq_ok.1
      (show writtenParts 0 (part :: parts) >>= _ = Except.ok re from h)
    exact ⟨written, hwritten⟩

theorem programs_of_words {mode : Mode} : ∀ {parts : List Regex} {ps : List PartWords},
    List.Forall₂ Needle.Words (parts.map .regex) ps → (∀ part ∈ parts, part.engine.mode = mode) →
    List.Forall₂ (Program.OfMovable mode) (ps.map PartWords.lexemes)
      (parts.map fun part => part.engine.program)
  | [], _, .nil, _ => .nil
  | part :: parts, p :: ps, .cons hp hps, hmode => by
      refine .cons ?_ (programs_of_words hps fun q hq => hmode q (List.mem_cons_of_mem part hq))
      rw [← hmode part List.mem_cons_self]
      exact hp.1.ofMovable hp.2

/-- **The ways through a union of alternatives** are those through its parts, one after another. -/
theorem ends_union {parts : List Regex} {re : Regex} (hflags : ∀ f ∈ flags, f ∈ ['i', 'm'])
    (hmade : ∀ part ∈ parts, part.MadeUnder flags) (hunnamed : ∀ part ∈ parts, part.Unnamed)
    (hunion : freshUnion (parts.map .regex) flags .or = .ok re) (place : Place) :
    re.engine.program.node.ends place =
      (parts.map fun part => part.engine.program).flatMap fun p => p.node.ends place := by
  have hallowed : ∀ f ∈ flags, f ∈ ['g', 'i', 'm', 's', 'y'] := fun f hf =>
    (by simp : (['i', 'm'] : Text) ⊆ ['g', 'i', 'm', 's', 'y']) (hflags f hf)
  have hunicode := Reader.unicode_nativeFlags hallowed
  obtain ⟨written, hwritten⟩ := written_of_freshUnion hunion
  obtain ⟨ps, hps⟩ := words_of_writtenParts hwritten fun part hpart => by
    obtain ⟨ls, hls, hnone⟩ := hunnamed part hpart
    obtain ⟨p, hp, -⟩ := Regex.exists_words (hmade part hpart).made
      (Regex.tidyUnderU_of_lenient ((hmade part hpart).mode ▸ hunicode)) hls hnone
    exact ⟨p, hp⟩
  have hnumbers := numbers_of_words hps
  have hsettled := settled_of_words hps
  obtain ⟨hne, hsource, hmode⟩ := native_of_union (fun f hf =>
    (by simp : (['i', 'm'] : Text) ⊆ ['g', 'i', 'm', 'y']) (hflags f hf)) hps
    (together_or hnumbers hsettled).1 hunion
  have hlexed := lexed_alternatives hnumbers hsettled fun p _ => p.fits
  rw [← hsource, ← hunicode, ← hmode] at hlexed
  have hmodes : ∀ part ∈ parts, part.engine.mode = re.engine.mode := fun part hpart =>
    (hmade part hpart).mode.trans hmode.symm
  refine Program.ends_alternatives re.engine.program_eq ?_ hlexed (programs_of_words hps hmodes) place
  intro hnil
  obtain rfl := List.map_eq_nil_iff.1 hnil
  cases parts with
  | nil => exact hne rfl
  | cons part parts => cases hps

/-! ## 3. What a union matches -/

theorem searchFrom?_of_place {re : Regex} {text : Text} {offset : Nat} {place : Place}
    (h : Place.atOffset? text offset = some place) :
    re.searchFrom? text offset false = (re.engine.program.search? place).map re.captures := by
  unfold Regex.searchFrom?
  rw [h]
  rfl

/-- **A union of alternatives finds what its parts find.** In a fresh context, let regexes be made
under flags among `i` and `m` of patterns without a mode modifier, such that their native patterns name
no group. If their union under these flags succeeds, it has a match just where one of them has. Its match
is the first match of a part: one that starts later than that of no other part, and earlier than those
of the parts before it. -/
theorem union_matches (h : c.Fresh) {parts : List Regex} {re : Regex}
    (hflags : ∀ f ∈ flags, f ∈ ['i', 'm']) (hmade : ∀ part ∈ parts, part.MadeUnder flags)
    (hunnamed : ∀ part ∈ parts, part.Unnamed)
    (hunion : (answer (union (parts.map .regex) flags .or) c).1 = .ok re) (text : Text)
    (offset : Nat) :
    (re.searchFrom? text offset false = none ↔
      ∀ part ∈ parts, part.searchFrom? text offset false = none) ∧
    ∀ found, re.searchFrom? text offset false = some found →
      ∃ before part after first, parts = before ++ part :: after ∧
        part.searchFrom? text offset false = some first ∧ first.whole = found.whole ∧
        (∀ earlier ∈ before, ∀ other, earlier.searchFrom? text offset false = some other →
          found.whole.start.index < other.whole.start.index) ∧
        ∀ later ∈ after, ∀ other, later.searchFrom? text offset false = some other →
          found.whole.start.index ≤ other.whole.start.index := by
  rw [(h.answer_union _ _ _).1] at hunion
  have hends := ends_union hflags hmade hunnamed hunion
  cases hplace : Place.atOffset? text offset with
  | none =>
    have hnone (re : Regex) : re.searchFrom? text offset false = none := by
      unfold Regex.searchFrom?
      rw [hplace]
    exact ⟨⟨fun _ part _ => hnone part, fun _ => hnone re⟩, fun found hfound => by
      rw [hnone] at hfound
      cases hfound⟩
  | some place =>
    simp only [searchFrom?_of_place hplace, Option.map_eq_none_iff, Option.map_eq_some_iff]
    refine ⟨(Program.search?_alternatives_eq_none hends place).trans List.forall_mem_map, ?_⟩
    rintro found ⟨f, hf, rfl⟩
    obtain ⟨before, program, after, g, hsplit, hg, hwhole, hbefore, hafter⟩ :=
      Program.search?_alternatives_eq_some hends hf
    obtain ⟨front, rest, rfl, rfl, hrest⟩ := List.map_eq_append_iff.1 hsplit
    obtain ⟨part, back, rfl, rfl, rfl⟩ := List.map_eq_cons_iff.1 hrest
    refine ⟨front, part, back, part.captures g, rfl, ⟨g, hg, rfl⟩, hwhole, ?_, ?_⟩
    · rintro earlier hearlier other ⟨e, he, rfl⟩
      exact hbefore _ (List.mem_map_of_mem hearlier) e he
    · rintro later hlater other ⟨e, he, rfl⟩
      exact hafter _ (List.mem_map_of_mem hlater) e he

/-- Two references, each to the group of its own alternative. -/
theorem union_matches_doubled : ∃ as bs re, freshRegex "(a)\\1".toList [] = .ok as ∧
    freshRegex "(b)\\1".toList [] = .ok bs ∧
    (answer (union [.regex as, .regex bs] [] .or) initial).1 = .ok re ∧
    ∀ text offset, re.searchFrom? text offset false = none ↔
      as.searchFrom? text offset false = none ∧ bs.searchFrom? text offset false = none := by
  obtain ⟨as, has, -, hasSource, hasMode, -, hasNames⟩ := @exists_made []
    "(a)\\1".toList "(a)\\1".toList [none] _ (by simp) .nil rfl rfl rfl
  obtain ⟨bs, hbs, -, hbsSource, hbsMode, -, hbsNames⟩ := @exists_made []
    "(b)\\1".toList "(b)\\1".toList [none] _ (by simp) .nil rfl rfl rfl
  obtain ⟨re, hre, -⟩ := @exists_made [] "(a)\\1|(b)\\2".toList "(a)\\1|(b)\\2".toList
    [none, none] _ (by simp) .nil rfl rfl rfl
  have hwritten : writtenParts 0 [.regex as, .regex bs] = .ok ["(a)\\1".toList, "(b)\\2".toList] :=
    writtenParts_cons (@writtenPart_of_read as _ "(a)\\1".toList _ hasSource hasMode hasNames rfl rfl 0)
      (writtenParts_cons
        (@writtenPart_of_read bs _ "(b)\\1".toList _ hbsSource hbsMode hbsNames rfl rfl 1) rfl)
  have hunion : (answer (union ([as, bs].map .regex) [] .or) initial).1 = .ok re := by
    rw [(fresh_initial.answer_union _ _ _).1]
    exact (freshUnion_of_written hwritten (List.cons_ne_nil _ _) [] .or).trans hre
  refine ⟨as, bs, re, has, hbs, hunion, fun text offset => ?_⟩
  have hparts : ∀ part ∈ [as, bs], part.MadeUnder [] ∧ part.Unnamed := by
    rw [List.forall_mem_cons, List.forall_mem_singleton]
    refine ⟨⟨⟨_, has, rfl⟩, [.opening (.capture none), .literal 97, .close, .decimal ['1']], ?_, by decide⟩,
      ⟨_, hbs, rfl⟩, [.opening (.capture none), .literal 98, .close, .decimal ['1']], ?_, by decide⟩
    · rw [hasSource]
      rfl
    · rw [hbsSource]
      rfl
  have hmatches := union_matches fresh_initial (fun _ hf => absurd hf List.not_mem_nil)
    (fun part hpart => (hparts part hpart).1) (fun part hpart => (hparts part hpart).2) hunion text offset
  rw [hmatches.1, List.forall_mem_cons, List.forall_mem_singleton]

/-- The dialect does not take the name of the first group and does not count it, so the reference of the
second alternative is to it: where the group took no part, that is to the empty text. -/
theorem union_matches_foreign_name : ∃ as bs re, freshRegex "(?<é>a)".toList [] = .ok as ∧
    freshRegex "(b)\\1".toList [] = .ok bs ∧
    (answer (union [.regex as, .regex bs] [] .or) initial).1 = .ok re ∧
    as.searchFrom? ['b', 'b'] 0 false = none ∧
    (bs.searchFrom? ['b', 'b'] 0 false).map (fun found => found.whole.text) = some ['b', 'b'] ∧
    (re.searchFrom? ['b', 'b'] 0 false).map (fun found => found.whole.text) = some ['b'] := by
  obtain ⟨as, has, -, hasSource, hasMode, hasProgram, hasNames⟩ := @exists_made []
    "(?<é>a)".toList "(?<é>a)".toList [] ⟨.seq (.group 1 (.seq (.atom (.literal 97 false)) .empty)) .empty, 1⟩
    (by simp) .nil rfl (by decide +kernel) (by decide +kernel)
  obtain ⟨bs, hbs, -, hbsSource, hbsMode, hbsProgram, hbsNames⟩ := @exists_made []
    "(b)\\1".toList "(b)\\1".toList [none] _ (by simp) .nil rfl rfl rfl
  obtain ⟨re, hre, -, -, -, hreProgram, -⟩ := @exists_made [] "(?<é>a)|(b)\\1".toList
    "(?<é>a)|(b)\\1".toList [none]
    ⟨.alt (.seq (.group 1 (.seq (.atom (.literal 97 false)) .empty)) .empty)
      (.seq (.group 2 (.seq (.atom (.literal 98 false)) .empty)) (.seq (.backref 1 false) .empty)), 2⟩
    (by simp) .nil rfl (by decide +kernel) (by decide +kernel)
  have hwritten : writtenParts 0 [.regex as, .regex bs] =
      .ok ["(?<é>a)".toList, "(b)\\1".toList] :=
    writtenParts_cons (@writtenPart_of_read as _ "(?<é>a)".toList _ hasSource hasMode hasNames rfl
      (by decide +kernel) 0) (writtenParts_cons
        (@writtenPart_of_read bs _ "(b)\\1".toList _ hbsSource hbsMode hbsNames rfl rfl 0) rfl)
  refine ⟨as, bs, re, has, hbs, ?_, ?_, ?_, ?_⟩
  · rw [(fresh_initial.answer_union _ _ _).1]
    exact (freshUnion_of_written hwritten (List.cons_ne_nil _ _) [] .or).trans hre
  · simp only [Regex.searchFrom?, Regex.searchAt?, Engine.search?, hasProgram]
    rfl
  · simp only [Regex.searchFrom?, Regex.searchAt?, Engine.search?, hbsProgram]
    rfl
  · simp only [Regex.searchFrom?, Regex.searchAt?, Engine.search?, hreProgram]
    rfl

end Context

end ExtensibleRegex
