import ExtensibleRegex.Proofs.Combine.Sources
import ExtensibleRegex.Proofs.Native.Shifting
import Mathlib.Tactic

/-!
# The groups and references of a union

A union lists the groups of its parts one after another, and each reference of a part is moved past
the groups of the parts before it. `unionLexemes` says that for the lexemes of native patterns, and
`union_groups` proves it of the union that a fresh context makes: alternatives always come out so, and
parts one after another do when their native patterns are `Seamless`. What the native pattern does
not hold of those lexemes are empty groups in front of others (`Omits`).

Without that condition the digits of a literal text go on with a reference at the end of the part
before it (`union_groups_grown_reference`).
-/

namespace ExtensibleRegex

open Native

/-! ## 1. The lexemes of a union -/

/-- What stands between two parts. -/
def Conjunction.lexemes : Conjunction → List Lexeme
  | or => [.bar]
  | none => []

/-- The lexemes of a union, by those of its parts. -/
def unionLexemes (conjunction : Conjunction) (lss : List (List Lexeme)) : List Lexeme :=
  conjunction.lexemes.intercalate (shiftedLexemes 0 lss)

theorem lexeme_shifted (prior : Nat) (w : Word) :
    (w.shifted prior).lexeme = w.lexeme.shifted prior := by
  obtain ⟨text, l⟩ := w
  cases l <;> rfl

/-- The lexemes of the words that a union writes. -/
theorem lexemes_shiftedFrom (conjunction : Conjunction) : ∀ (prior : Nat) (ps : List PartWords),
    (shiftedFrom prior (joined conjunction ps)).map Word.lexeme =
      conjunction.lexemes.intercalate (shiftedLexemes prior (ps.map PartWords.lexemes))
  | _, [] => rfl
  | prior, [p] => by
      simp [joined, shiftedFrom, shiftedLexemes, PartWords.lexemes, lexeme_shifted, List.intercalate]
  | prior, p :: q :: ps => by
      have ih := lexemes_shiftedFrom conjunction (prior + p.groupCount) (q :: ps)
      have hpart : (conjunction.part.words.map (Word.shifted (prior + p.groupCount))).map Word.lexeme =
          conjunction.lexemes := by cases conjunction <;> rfl
      have hfirst : (p.words.map (Word.shifted prior)).map Word.lexeme =
          p.lexemes.map (Lexeme.shifted prior) := by
        rw [PartWords.lexemes, List.map_map, List.map_map]
        exact congrArg (fun f => p.words.map f) (funext fun w => lexeme_shifted prior w)
      rw [joined_cons, shiftedFrom, shiftedFrom, groupCount_part, Nat.add_zero, List.map_append,
        List.map_append, hfirst, hpart, ih]
      rfl

/-! ## 2. What the lexemes are -/

/-- Firm words open no groups with names. -/
theorem eq_none_of_firm : ∀ {ws : List Word}, (∀ w ∈ ws, Firm w) →
    ∀ name ∈ captureNames (ws.map Word.lexeme), name = none
  | [], _, _, h => absurd h List.not_mem_nil
  | w :: ws, hfirm, name, h => by
      rw [List.map_cons, captureNames_cons] at h
      rcases List.mem_append.1 h with h | h
      · rcases (hfirm w List.mem_cons_self).kind with rfl | ⟨digits, -, -, -, rfl⟩ | hstill
        · exact List.mem_singleton.1 h
        · cases h
        · rw [captureNames_of_still hstill] at h
          cases h
      · exact eq_none_of_firm (fun v hv => hfirm v (List.mem_cons_of_mem w hv)) name h

/-- Parts open as many groups as they have names for. -/
theorem length_captureNames_together : ∀ ps : List PartWords,
    (captureNames ((together ps).map Word.lexeme)).length = (ps.flatMap PartWords.groupNames).length
  | [] => rfl
  | p :: ps => by
      have hsplit : (together (p :: ps)).map Word.lexeme =
          p.lexemes ++ (together ps).map Word.lexeme := List.map_append
      rw [hsplit, captureNames_append, List.length_append, length_captureNames_together ps,
        List.flatMap_cons, List.length_append, p.length_groupNames]
      rfl

/-- Where the numbers among the marks of words stand, every reference is to a group of the words or
to one before them. -/
theorem le_of_numbersStand : ∀ {ws : List NamedWord} {n : Nat}, Fits (ws.map Prod.fst) →
    (∀ w ∈ ws, Firm w.1) → Mark.NumbersStand n (marksOf ws) → ∀ w ∈ ws, ∀ digits,
    w.1.lexeme = .decimal digits →
      0 < readDigits 10 digits ∧ readDigits 10 digits ≤ n + (Mark.names (marksOf ws)).length
  | [], _, _, _, _, _, hw, _, _ => absurd hw List.not_mem_nil
  | v :: ws, n, hfits, hfirm, hstand, w, hw, digits, hl => by
      have hfirm' : ∀ u ∈ ws, Firm u.1 := fun u hu => hfirm u (List.mem_cons_of_mem v hu)
      have hsplit : Mark.names (marksOf (v :: ws)) =
          Mark.names (v.marks (writeNamed ws)) ++ Mark.names (marksOf ws) := List.filterMap_append
      obtain ⟨hfirst, hrest⟩ := Mark.numbersStand_append.1
        (show Mark.NumbersStand n (v.marks (writeNamed ws) ++ marksOf ws) from hstand)
      rw [hsplit, List.length_append]
      rcases List.mem_cons.1 hw with rfl | hw
      · obtain ⟨word, name⟩ := w
        obtain ⟨heq, hne, hdigits, hzero, hhead⟩ := hfits.1.of_decimal hl
        obtain rfl : word = numberWord digits := heq
        rw [marks_of_number hne hdigits (by rw [head?_writeNamed hfirm']; exact hhead)] at hfirst
        rcases hfirst.1 with ⟨-, -, hle⟩ | heq
        · exact ⟨readDigits_pos hdigits hne hzero, by omega⟩
        · rw [heq] at hzero
          exact absurd rfl hzero
      · obtain ⟨hpos, hle⟩ := le_of_numbersStand hfits.2 hfirm' hrest w hw digits hl
        exact ⟨hpos, by omega⟩

/-- Parts that may stand alone may be joined. -/
theorem stands_joined (conjunction : Conjunction) : ∀ {ps : List PartWords},
    (∀ p ∈ ps, Shape.Stands p.lexemes) →
    Shape.Stands ((together (joined conjunction ps)).map Word.lexeme)
  | [], _ => Shape.stands_nil
  | [p], h => by
      have hwords : together (joined conjunction [p]) = p.words := List.append_nil _
      rw [hwords]
      exact h p List.mem_cons_self
  | p :: q :: ps, h => by
      have hpart : Shape.Stands conjunction.part.lexemes := by
        cases conjunction
        · exact Shape.stands_bar
        · exact Shape.stands_nil
      have hsplit : (together (joined conjunction (p :: q :: ps))).map Word.lexeme =
          p.lexemes ++ (conjunction.part.lexemes ++
            (together (joined conjunction (q :: ps))).map Word.lexeme) := by
        rw [joined_cons]
        exact List.map_append.trans (congrArg (p.lexemes ++ ·) List.map_append)
      rw [hsplit]
      exact (h p List.mem_cons_self).append
        (hpart.append (stands_joined conjunction fun r hr => h r (List.mem_cons_of_mem p hr)))

/-! ## 3. What is written -/

section Joined

variable {ps : List PartWords} {conjunction : Conjunction}

/-- The words of joined parts, as the union writes them. -/
abbrev joinedText (conjunction : Conjunction) (ps : List PartWords) : Text :=
  write (shiftedFrom 0 (joined conjunction ps))

/-- The lexemes of what is written, with its groups. -/
theorem lexed_joined (hfits : Fits (together (joined conjunction ps))) :
    lexAll? false false 0 (joinedText conjunction ps) [] =
        some (unionLexemes conjunction (ps.map PartWords.lexemes)) ∧
      captureNames (unionLexemes conjunction (ps.map PartWords.lexemes)) =
        List.replicate (ps.flatMap PartWords.groupNames).length none := by
  have hrenumbered := renumbered_shiftedFrom 0 (joined conjunction ps)
  have hlexemes := lexemes_shiftedFrom conjunction 0 ps
  constructor
  · rw [lexAll?_eq_words, wordsFrom?_of_fits (fits_shiftedFrom hfits 0), Option.map_some, hlexemes]
    rfl
  · show captureNames (conjunction.lexemes.intercalate _) = _
    rw [← hlexemes, captureNames_renumbered hrenumbered, List.eq_replicate_iff]
    refine ⟨?_, eq_none_of_firm fun w hw => ?_⟩
    · rw [length_captureNames_together, groupNames_joined]
    · obtain ⟨p, -, hp⟩ := List.mem_flatMap.1 hw
      exact p.firm w hp

/-- Joined parts name no group that they refer to. -/
theorem ne_namedRef_joined (hfits : Fits (together (joined conjunction ps))) :
    ∀ l ∈ unionLexemes conjunction (ps.map PartWords.lexemes), ∀ name, l ≠ .namedRef name := by
  show ∀ l ∈ conjunction.lexemes.intercalate _, _
  rw [← lexemes_shiftedFrom conjunction 0 ps]
  exact (fits_shiftedFrom hfits 0).ne_namedRef

/-- Nothing is left out of alternatives, which are read in each grammar that theirs are read in. -/
theorem lexed_alternatives {strict : Bool} (hnumbers : ∀ p ∈ ps, Mark.NumbersStand 0 (p.marks []))
    (hsettled : ∀ p ∈ ps, Settled p.text) (hown : ∀ p ∈ ps, FitsIn strict p.words) :
    lexemes? strict (mergeEmptyGroups (joinedText .or ps)) =
      some (unionLexemes .or (ps.map PartWords.lexemes)) := by
  obtain ⟨hfits, -, hjoined⟩ := together_or hnumbers hsettled
  have hlexemes := lexemes_shiftedFrom .or 0 ps
  have hnone : ∀ name ∈ captureNames ((shiftedFrom 0 (joined .or ps)).map Word.lexeme), name = none := by
    rw [hlexemes]
    exact fun name hname => List.eq_of_mem_replicate ((lexed_joined hfits).2 ▸ hname)
  have hmerged : mergeEmptyGroups (joinedText .or ps) = joinedText .or ps :=
    (merged_of_settled _ _ (Nat.le_refl _)
      (settled_renumbered (renumbered_shiftedFrom 0 _) hfits hjoined)).1
  have hshifted := (fits_alternatives hown).renumbered (renumbered_shiftedFrom 0 _)
  rw [hmerged, lexemes?_of_fits hshifted hnone, hlexemes]
  rfl

/-- **What is written for joined parts is well-formed**, with the repeated empty groups left out, if
there are not too many groups. -/
theorem program_joined {mode : Mode} (hmode : mode.unicode = false)
    (hfits : Fits (together (joined conjunction ps))) (htame : Tame (joinedText conjunction ps))
    (hstands : ∀ p ∈ ps, Shape.Stands p.lexemes)
    (hfew : (ps.flatMap PartWords.groupNames).length ≤ maxGroups) :
    ∃ program ls, Program.ofSource? (mergeEmptyGroups (joinedText conjunction ps)) mode = some program ∧
      program.groups = (ps.flatMap PartWords.groupNames).length ∧
      lexemes? false (mergeEmptyGroups (joinedText conjunction ps)) = some ls ∧
      Relation.ReflTransGen Omits (unionLexemes conjunction (ps.map PartWords.lexemes)) ls := by
  obtain ⟨hlexed, hgroups⟩ := lexed_joined hfits
  have hnone : ∀ name ∈ captureNames (unionLexemes conjunction (ps.map PartWords.lexemes)),
      name = none := fun name hname => List.eq_of_mem_replicate (hgroups ▸ hname)
  have hlexemes := lexemes_shiftedFrom conjunction 0 ps
  have hshape : Shape.Stands (unionLexemes conjunction (ps.map PartWords.lexemes)) := by
    show Shape.Stands (conjunction.lexemes.intercalate _)
    rw [← hlexemes]
    obtain ⟨b, hb⟩ := stands_joined conjunction hstands
    exact ⟨b, (readAll?_renumbered (renumbered_shiftedFrom 0 _) _).trans hb⟩
  have hunnamed := ne_namedRef_joined hfits
  obtain ⟨whole, hwhole⟩ := Program.exists_of_stands hmode ((lexemes?_eq_some_iff hnone).2 hlexed)
    hunnamed hnone (by rw [hgroups, List.length_replicate]; exact hfew) hshape
  obtain ⟨ls, hls, homits⟩ := lexAll?_merged htame hlexed
  have hnames := captureNames_of_omits homits
  have hlexemes' := (lexemes?_eq_some_iff (hnames.symm ▸ hnone)).2 hls
  have hmeaning : meaning mode _ = _ := meaning_merged htame
  unfold meaning at hmeaning
  rw [hwhole] at hmeaning
  obtain ⟨program, hprogram, -⟩ := Option.map_eq_some_iff.1 hmeaning
  refine ⟨program, ls, hprogram, ?_, hlexemes', homits⟩
  obtain ⟨ls', p, hp, rfl⟩ := Program.ofSource?_eq_some_iff.1 hprogram
  have hlexed' := hp.lexed
  rw [hmode] at hlexed'
  obtain rfl := Option.some.inj (hlexemes'.symm.trans hlexed')
  show (captureNames ls).length = _
  rw [hnames, hgroups, List.length_replicate]

/-- **The expansion of what is written for joined parts.** -/
theorem expansion_joined {flags : Text} (hflags : ∀ f ∈ flags, f ∈ ['g', 'i', 'm', 'y'])
    (hnodup : flags.Nodup) (hfits : Fits (together (joined conjunction ps)))
    (hstanding : Standing (joined conjunction ps))
    (hnames : ((ps.flatMap PartWords.groupNames).filterMap id).Nodup) :
    Reader.expansion (conjunction.separator.intercalate (writtenFrom 0 ps)) flags = .ok
      { pattern := mergeEmptyGroups (joinedText conjunction ps)
        flags := Reader.nativeFlags flags
        names := if (ps.flatMap PartWords.groupNames).any Option.isSome then
          some (ps.flatMap PartWords.groupNames) else none } := by
  have hgroups : Mark.names (marksOf (movedFrom 0 (joined conjunction ps))) =
      ps.flatMap PartWords.groupNames := (names_movedFrom 0 _).trans (groupNames_joined conjunction ps)
  have hflags' : ∀ f ∈ flags, f ∈ ['g', 'i', 'm', 'u', 'y'] := fun f hf =>
    (by simp : ['g', 'i', 'm', 'y'] ⊆ ['g', 'i', 'm', 'u', 'y']) (hflags f hf)
  have h := Reader.expansion_of_rereads hflags' hnodup (rereads_movedFrom hfits 0)
    (numbersStand_movedFrom 0 hfits hstanding) (by rw [hgroups]; exact hnames)
  rwa [hgroups, writeNamed_joined] at h

/-- The references of joined parts are to groups of these. -/
theorem references_joined (hfits : Fits (together (joined conjunction ps)))
    (hstanding : Standing (joined conjunction ps)) {digits : Text}
    (h : .decimal digits ∈ unionLexemes conjunction (ps.map PartWords.lexemes)) :
    0 < readDigits 10 digits ∧
      readDigits 10 digits ≤ (ps.flatMap PartWords.groupNames).length := by
  have hmap := map_movedFrom 0 (joined conjunction ps)
  have hmem : Lexeme.decimal digits ∈ (shiftedFrom 0 (joined conjunction ps)).map Word.lexeme := by
    rw [lexemes_shiftedFrom]
    exact h
  rw [← hmap, List.map_map] at hmem
  obtain ⟨w, hw, hl⟩ := List.mem_map.1 hmem
  have hle := le_of_numbersStand (hmap ▸ fits_shiftedFrom hfits 0) (firm_movedFrom 0 _)
    (numbersStand_movedFrom 0 hfits hstanding) w hw digits hl
  rwa [names_movedFrom, groupNames_joined, Nat.zero_add] at hle

end Joined

/-! ## 4. The union -/

namespace Context

variable {c : Context} {parts : List Needle} {ps : List PartWords} {flags : Text}
  {conjunction : Conjunction}

/-- What a union writes for parts are their words, each moved past the groups before it. -/
theorem writtenParts_of_words : ∀ {parts : List Needle} {ps : List PartWords} (prior : Nat),
    List.Forall₂ Needle.Words parts ps → writtenParts prior parts = .ok (writtenFrom prior ps)
  | _, _, _, .nil => rfl
  | _, _, prior, .cons hp hps =>
      writtenParts_cons (hp.writtenPart prior) (writtenParts_of_words _ hps)

theorem exists_words : ∀ {parts : List Needle}, (∀ part ∈ parts, part.Numbered) →
    ∃ ps, List.Forall₂ Needle.Words parts ps ∧
      parts.flatMap Needle.groupNames = ps.flatMap PartWords.groupNames
  | [], _ => ⟨[], .nil, rfl⟩
  | part :: parts, h => by
      obtain ⟨p, hp, hgroups⟩ := Needle.exists_words (h part List.mem_cons_self)
      obtain ⟨ps, hps, hrest⟩ := exists_words fun q hq => h q (List.mem_cons_of_mem part hq)
      exact ⟨p :: ps, .cons hp hps, by rw [List.flatMap_cons, List.flatMap_cons, hgroups, hrest]⟩

theorem native_of_words : ∀ {parts : List Needle} {ps : List PartWords},
    List.Forall₂ Needle.Words parts ps → parts.map Needle.native = ps.map PartWords.text
  | _, _, .nil => rfl
  | _, _, .cons hp hps => by rw [List.map_cons, List.map_cons, hp.text, native_of_words hps]

/-- What is known of the words of each part. -/
theorem words_of_mem : ∀ {parts : List Needle} {ps : List PartWords},
    List.Forall₂ Needle.Words parts ps → ∀ p ∈ ps, ∃ part : Needle, part.Words p
  | _, _, .nil, _, hp => absurd hp List.not_mem_nil
  | part :: _, _ :: _, .cons hpart hps, p, hp => by
      rcases List.mem_cons.1 hp with rfl | hp
      · exact ⟨part, hpart⟩
      · exact words_of_mem hps p hp

theorem numbers_of_words (h : List.Forall₂ Needle.Words parts ps) :
    ∀ p ∈ ps, Mark.NumbersStand 0 (p.marks []) := fun p hp =>
  (words_of_mem h p hp).elim fun _ hpart => hpart.numbers

theorem settled_of_words (h : List.Forall₂ Needle.Words parts ps) : ∀ p ∈ ps, Settled p.text :=
  fun p hp => (words_of_mem h p hp).elim fun _ hpart => hpart.settled

/-- The lexemes of the native pattern of a part. -/
theorem lexemes_of_words : ∀ {parts : List Needle} {ps : List PartWords},
    List.Forall₂ Needle.Words parts ps →
      parts.mapM (fun part => lexemes? false part.native) = some (ps.map PartWords.lexemes)
  | _, _, .nil => rfl
  | part :: parts, p :: ps, .cons hp hps => by
      have hpart : lexemes? false part.native = some p.lexemes :=
        hp.text ▸ lexemes?_of_fits p.fits (eq_none_of_firm p.firm)
      rw [List.mapM_cons, hpart, lexemes_of_words hps]
      rfl

/-- Numbered parts whose native patterns are kept apart by their neighbouring characters can stand one
after another. -/
theorem seamless_of_numbered (hparts : ∀ part ∈ parts, part.Numbered)
    (h : AllParted (parts.map Needle.native)) : Seamless (parts.map Needle.native) := by
  obtain ⟨ps, hps, -⟩ := exists_words hparts
  rw [native_of_words hps] at h ⊢
  exact seamless_of_allParted (settled_of_words hps) h

/-- A union of numbered parts succeeds, and is the regex of their words. -/
theorem exists_union (hne : parts ≠ []) (hparts : ∀ part ∈ parts, part.Numbered)
    (hnames : ((parts.flatMap Needle.groupNames).filterMap id).Nodup)
    (hfew : (parts.flatMap Needle.groupNames).length ≤ maxGroups)
    (hflags : ∀ f ∈ flags, f ∈ ['g', 'i', 'm', 'y']) (hnodup : flags.Nodup)
    (hseams : conjunction = .none → Seamless (parts.map Needle.native)) :
    ∃ re ps ls, freshUnion parts flags conjunction = .ok re ∧ List.Forall₂ Needle.Words parts ps ∧
      parts.flatMap Needle.groupNames = ps.flatMap PartWords.groupNames ∧
      Fits (together (joined conjunction ps)) ∧ Standing (joined conjunction ps) ∧
      re.names = (if (ps.flatMap PartWords.groupNames).any Option.isSome then
        some (ps.flatMap PartWords.groupNames) else none) ∧
      re.engine.program.groups = (ps.flatMap PartWords.groupNames).length ∧
      re.engine.mode.unicode = false ∧ lexemes? false re.nativeSource = some ls ∧
      Relation.ReflTransGen Omits (unionLexemes conjunction (ps.map PartWords.lexemes)) ls ∧
      (conjunction = .or → ls = unionLexemes conjunction (ps.map PartWords.lexemes)) := by
  obtain ⟨ps, hps, hlisted⟩ := exists_words hparts
  rw [hlisted] at hnames hfew
  have hstands : ∀ p ∈ ps, Shape.Stands p.lexemes := fun p hp =>
    (words_of_mem hps p hp).elim fun _ hpart => hpart.stands
  have hnumbers := numbers_of_words hps
  have hsettled := settled_of_words hps
  obtain ⟨hfits, hstanding, htame⟩ := @together_joined conjunction _ hnumbers hsettled
    (native_of_words hps ▸ hseams)
  have hmode : (Reader.nativeFlags flags).mode.unicode = false :=
    Reader.unicode_nativeFlags fun f hf =>
      (by simp : (['g', 'i', 'm', 'y'] : Text) ⊆ ['g', 'i', 'm', 's', 'y']) (hflags f hf)
  obtain ⟨program, ls, hprogram, hgroups, hlexed, homits⟩ := program_joined hmode hfits
    (tame_renumbered (renumbered_shiftedFrom 0 _) hfits htame) hstands hfew
  obtain ⟨re, hre, hreProgram, hsource, hengineMode, hlistedNames⟩ :=
    exists_freshRegex (expansion_joined hflags hnodup hfits hstanding hnames) hprogram
  refine ⟨re, ps, ls, ?_, hps, hlisted, hfits, hstanding, hlistedNames, by rw [hreProgram, hgroups],
    by rw [hengineMode]; exact hmode, ?_, homits, ?_⟩
  · rw [freshUnion_of_written (writtenParts_of_words 0 hps) hne]
    exact hre
  · show lexemes? false re.engine.source = _
    rw [hsource]
    exact hlexed
  · rintro rfl
    exact Option.some.inj (hlexed.symm.trans (lexed_alternatives hnumbers hsettled fun p _ => p.fits))

/-- **A union keeps the groups of its parts, and each reference with its group.** In a fresh context,
the union of literal texts and of regexes whose groups and references it sees succeeds if no name is
given twice and there are not too many groups. It lists the groups of the parts one after another, and
the lexemes of its native pattern are those of the parts, the references of each moved past the groups
before it, so that they are references to groups of the union; only empty groups in front of others
may be missing, in parts one after another, and these have to be `Seamless`. -/
theorem union_groups (h : c.Fresh) (hne : parts ≠ []) (hparts : ∀ part ∈ parts, part.Numbered)
    (hnames : ((parts.flatMap Needle.groupNames).filterMap id).Nodup)
    (hfew : (parts.flatMap Needle.groupNames).length ≤ maxGroups)
    (hflags : ∀ f ∈ flags, f ∈ ['g', 'i', 'm', 'y']) (hnodup : flags.Nodup)
    (hseams : conjunction = .none → Seamless (parts.map Needle.native)) :
    ∃ re lss ls, (answer (union parts flags conjunction) c).1 = .ok re ∧
      re.names = (if (parts.flatMap Needle.groupNames).any Option.isSome then
        some (parts.flatMap Needle.groupNames) else none) ∧
      re.engine.program.groups = (parts.flatMap Needle.groupNames).length ∧
      parts.mapM (fun part => lexemes? false part.native) = some lss ∧
      lexemes? false re.nativeSource = some ls ∧
      Relation.ReflTransGen Omits (unionLexemes conjunction lss) ls ∧
      (conjunction = .or → ls = unionLexemes conjunction lss) ∧
      ∀ digits, .decimal digits ∈ ls → 0 < readDigits 10 digits ∧
        readDigits 10 digits ≤ (parts.flatMap Needle.groupNames).length := by
  obtain ⟨re, ps, ls, hre, hps, hlisted, hfits, hstanding, hlistedNames, hgroups, -, hlexed, homits,
    hor⟩ := exists_union hne hparts hnames hfew hflags hnodup hseams
  rw [hlisted]
  refine ⟨re, _, ls, ?_, hlistedNames, hgroups, lexemes_of_words hps, hlexed, homits, hor, ?_⟩
  · rw [(h.answer_union parts flags conjunction).1]
    exact hre
  · exact fun digits hdigits => references_joined hfits hstanding (mem_of_omits homits hdigits)

/-- The regex of a pattern, by what is read of it. -/
theorem exists_made {flags pattern native : Text} {names : GroupNames} {program : Program}
    (hflags : ∀ f ∈ flags, f ∈ ['g', 'i', 'm', 'u', 'y']) (hnodup : flags.Nodup)
    (hmode : modeModifier? pattern = none)
    (hread : ((⟨flags, false⟩ : Reader).read pattern).map (fun pieces =>
      (mergeEmptyGroups (Reader.render pieces), Reader.names pieces)) = .ok (native, names))
    (hprogram : Program.ofSource? native (Reader.nativeFlags flags).mode = some program) :
    ∃ re, freshRegex pattern flags = .ok re ∧ re.Made ∧ re.nativeSource = native ∧
      re.engine.mode = (Reader.nativeFlags flags).mode ∧ re.engine.program = program ∧
      re.names = if names.any Option.isSome then some names else none := by
  obtain ⟨pieces, hpieces, heq⟩ : ∃ pieces, (⟨flags, false⟩ : Reader).read pattern = .ok pieces ∧
      (mergeEmptyGroups (Reader.render pieces), Reader.names pieces) = (native, names) := by
    cases hpieces : (⟨flags, false⟩ : Reader).read pattern with
    | error e => rw [hpieces] at hread; cases hread
    | ok pieces => exact ⟨pieces, rfl, by rw [hpieces] at hread; exact Except.ok.inj hread⟩
  obtain ⟨rfl, rfl⟩ := Prod.mk.inj heq
  have hknown : ∀ f ∈ flags, f ∈ ['g', 'i', 'm', 'n', 's', 'u', 'x', 'y'] := fun f hf =>
    (by simp : ['g', 'i', 'm', 'u', 'y'] ⊆ ['g', 'i', 'm', 'n', 's', 'u', 'x', 'y']) (hflags f hf)
  have hexpansion := Reader.expansion_of_read hmode hknown hnodup hpieces
  obtain ⟨re, hre, hnode, hsource, hengine, hnames⟩ := exists_freshRegex hexpansion hprogram
  exact ⟨re, hre, ⟨pattern, flags, hre⟩, hsource, hengine, hnode, hnames⟩

/-- What a union writes for the regex of a native pattern that is read again. -/
theorem writtenPart_of_read {re : Regex} {native expanded : Text} {names : Option GroupNames}
    (hsource : re.nativeSource = native) (hengine : re.engine.mode = {}) (hnames : re.names = names)
    (hmode : modeModifier? native = none)
    (hread : ((⟨[], false⟩ : Reader).read native).map (fun pieces =>
      mergeEmptyGroups (Reader.render pieces)) = .ok expanded) (prior : Nat) :
    writtenPart prior (.regex re) =
      .ok ((renumber (names.getD []) prior 0 (pieces expanded false)).1,
        prior + (renumber (names.getD []) prior 0 (pieces expanded false)).2) := by
  subst hsource hnames
  obtain ⟨segments, hsegments, rfl⟩ : ∃ segments,
      (⟨[], false⟩ : Reader).read re.nativeSource = .ok segments ∧
        mergeEmptyGroups (Reader.render segments) = expanded := by
    cases hsegments : (⟨[], false⟩ : Reader).read re.nativeSource with
    | error e => rw [hsegments] at hread; cases hread
    | ok segments => exact ⟨segments, rfl, by rw [hsegments] at hread; exact Except.ok.inj hread⟩
  have hexpansion := Reader.expansion_of_read hmode (fun _ hf => absurd hf List.not_mem_nil)
    List.nodup_nil hsegments
  exact writtenPart_of_expansion (by rw [hengine]; exact hexpansion) prior

/-- The regex is numbered if its native pattern has the groups that were read. -/
theorem exists_numbered {flags pattern native : Text} {names : GroupNames}
    (hflags : ∀ f ∈ flags, f ∈ ['g', 'i', 'm', 'u', 'y']) (hnodup : flags.Nodup)
    (hmode : modeModifier? pattern = none)
    (hread : ((⟨flags, false⟩ : Reader).read pattern).map (fun pieces =>
      (mergeEmptyGroups (Reader.render pieces), Reader.names pieces)) = .ok (native, names))
    (htidy : tidy false native = true)
    (hgroups : (lexemes? false native).map captureNames = some (List.replicate names.length none))
    (hcount : countGroups native = names.length)
    (hnumbers : Mark.NumbersStand 0 (Mark.ofText false native))
    (hprogram : (Program.ofSource? native (Reader.nativeFlags flags).mode).isSome = true) :
    ∃ re, freshRegex pattern flags = .ok re ∧ re.Numbered ∧ re.nativeSource = native ∧
      re.engine.mode = (Reader.nativeFlags flags).mode ∧
      re.names = if names.any Option.isSome then some names else none := by
  obtain ⟨program, hprogram⟩ := Option.isSome_iff_exists.1 hprogram
  obtain ⟨re, hre, hmade, hsource, hengine, -, hnames⟩ :=
    exists_made hflags hnodup hmode hread hprogram
  have hlisted : re.groupCount = names.length := by
    unfold Regex.groupCount
    rw [hnames]
    split
    · rename_i listed hsome
      split at hsome
      · rw [← Option.some.inj hsome]
      · cases hsome
    · rw [hsource, hcount]
  refine ⟨re, hre, ⟨hmade, fun _ => hsource ▸ htidy, ?_, ?_⟩, hsource, hengine, hnames⟩
  · rw [hsource, hlisted]
    exact hgroups
  · rw [hsource]
    exact hnumbers

/-- A named group, a literal text and a group without a name, with a reference to each group: as
alternatives, and one after another. -/
theorem union_groups_pets : ∃ dogs cats, freshRegex "(?<d>dogs)\\1".toList [] = .ok dogs ∧
    freshRegex "(cats)\\1".toList [] = .ok cats ∧
    (∃ re, (answer (union [.regex dogs, .literal ['.'], .regex cats] ['i'] .or) initial).1 = .ok re ∧
      re.names = some [some ['d'], none] ∧ re.engine.program.groups = 2 ∧
      lexemes? false re.nativeSource = lexemes? false "(dogs)\\1|\\.|(cats)\\2".toList) ∧
    ∃ re ls ls',
      (answer (union [.regex dogs, .literal ['.'], .regex cats] ['i'] .none) initial).1 = .ok re ∧
      re.names = some [some ['d'], none] ∧ re.engine.program.groups = 2 ∧
      lexemes? false "(dogs)\\1\\.(cats)\\2".toList = some ls ∧
      lexemes? false re.nativeSource = some ls' ∧ Relation.ReflTransGen Omits ls ls' := by
  obtain ⟨dogs, hdogs, hdogsNumbered, hdogsSource, -, hdogsNames⟩ := @exists_numbered []
    "(?<d>dogs)\\1".toList "(dogs)\\1".toList [some ['d']] (by simp) .nil rfl (by decide +kernel) rfl rfl
    rfl (by decide) rfl
  obtain ⟨cats, hcats, hcatsNumbered, hcatsSource, -, hcatsNames⟩ := @exists_numbered []
    "(cats)\\1".toList "(cats)\\1".toList [none] (by simp) .nil rfl rfl rfl rfl rfl (by decide) rfl
  have hgroups : [Needle.regex dogs, .literal ['.'], .regex cats].flatMap Needle.groupNames =
      [some ['d'], none] := by
    simp only [List.flatMap_cons, List.flatMap_nil, Needle.groupNames, hdogsNames, hcatsNames,
      Regex.groupCount, hcatsSource]
    rfl
  have hnumbered : ∀ part ∈ [Needle.regex dogs, .literal ['.'], .regex cats], part.Numbered := by
    simp only [List.forall_mem_cons, List.not_mem_nil, false_implies, implies_true, and_true]
    exact ⟨hdogsNumbered, trivial, hcatsNumbered⟩
  have hlexed : [Needle.regex dogs, .literal ['.'], .regex cats].mapM (fun part =>
      lexemes? false part.native) =
      ["(dogs)\\1".toList, "\\.".toList, "(cats)\\1".toList].mapM (lexemes? false) := by
    simp only [List.mapM_cons, List.mapM_nil, Needle.native, hdogsSource, hcatsSource]
    rfl
  have hseams : Seamless ([Needle.regex dogs, .literal ['.'], .regex cats].map Needle.native) := by
    refine seamless_of_numbered hnumbered ?_
    simp only [List.map_cons, List.map_nil, Needle.native, hdogsSource, hcatsSource]
    exact ⟨⟨.inr (.inr ⟨by decide, by decide⟩), by decide⟩,
      ⟨.inr (.inr ⟨by decide, by decide⟩), by decide⟩, ⟨.inr (.inr ⟨trivial, nofun⟩), by decide⟩, trivial⟩
  have hunion (conjunction : Conjunction) := @union_groups _
    [.regex dogs, .literal ['.'], .regex cats] ['i'] conjunction fresh_initial (List.cons_ne_nil _ _)
    hnumbered (by rw [hgroups]; decide) (by rw [hgroups]; decide) (by simp) (by decide) fun _ => hseams
  refine ⟨dogs, cats, hdogs, hcats, ?_, ?_⟩
  · obtain ⟨re, lss, ls, hre, hnames, hcount, hlss, hls, -, hor, -⟩ := hunion .or
    rw [hgroups] at hnames hcount
    rw [hlexed] at hlss
    obtain rfl := Option.some.inj (hlss.symm.trans rfl)
    exact ⟨re, hre, hnames, hcount, by rw [hls, hor rfl]; rfl⟩
  · obtain ⟨re, lss, ls, hre, hnames, hcount, hlss, hls, homits, -, -⟩ := hunion .none
    rw [hgroups] at hnames hcount
    rw [hlexed] at hlss
    obtain rfl := Option.some.inj (hlss.symm.trans rfl)
    exact ⟨re, _, ls, hre, hnames, hcount, rfl, hls, homits⟩

/-- A literal digit goes on with the reference before it, and the union is refused. -/
theorem union_groups_grown_reference : ∃ re, freshRegex "(a)\\1".toList [] = .ok re ∧ re.Numbered ∧
    (answer (union [.regex re, .literal ['1']] [] .none) initial).1 =
      .error (.octalOrUndefinedGroup "\\11".toList) := by
  obtain ⟨re, hre, hnumbered, hsource, hmode, hnames⟩ := @exists_numbered []
    "(a)\\1".toList "(a)\\1".toList [none] (by simp) .nil rfl rfl rfl rfl rfl (by decide) rfl
  refine ⟨re, hre, hnumbered, ?_⟩
  have hwritten : writtenParts 0 [.regex re, .literal ['1']] = .ok ["(a)\\1".toList, ['1']] :=
    writtenParts_cons (@writtenPart_of_read re _ "(a)\\1".toList _ hsource hmode hnames rfl rfl 0) rfl
  rw [(fresh_initial.answer_union _ _ _).1, freshUnion_of_written hwritten (List.cons_ne_nil _ _)]
  have hprepare : Dialect.initial.flags.prepare "(a)\\11".toList [] = .ok ⟨"(a)\\11".toList, []⟩ :=
    KnownFlags.prepare_of_known rfl (fun _ hf => absurd hf List.not_mem_nil) List.nodup_nil
  have hrefused : Reader.expansion "(a)\\11".toList [] =
      .error (.octalOrUndefinedGroup "\\11".toList) := by
    unfold Reader.expansion
    rw [hprepare]
    rfl
  show Reader.expansion "(a)\\11".toList [] >>= _ = _
  rw [hrefused]
  rfl

end Context

end ExtensibleRegex
