import ExtensibleRegex.Proofs.Balanced.Setup
import Mathlib.Tactic

/-!
# Balanced characters

For two escaped characters all that goes into a scan is known: their regexes (`exists_escaped`), the
union of these (`freshUnion_escaped`) and the skipper made of it (`freshInertRuns_escaped`). The result
is that of counting brackets (`balanced_brackets`).
-/

namespace ExtensibleRegex

open Native

/-! ## 1. Escaped characters as patterns -/

namespace Reader

variable {flags : Text}

/-- An escaped text is expanded to itself. -/
theorem expansion_escape (t : Text)
    (hknown : ∀ f ∈ flags, f ∈ ['g', 'i', 'm', 'n', 's', 'u', 'x', 'y']) (hnodup : flags.Nodup) :
    expansion (ExtensibleRegex.escape t) flags =
      .ok ⟨ExtensibleRegex.escape t, nativeFlags flags, none⟩ := by
  have hmodifier : modeModifier? (ExtensibleRegex.escape t ++ []) = none :=
    modeModifier?_of_head (head?_escape_append t (by decide) (by decide) nofun)
  have hread := (@reads_escape ⟨flags, false⟩ .pattern .empty [] [] (fun _ => .nil) t []).read
  have hmerge := mergeEmptyGroups_of_isChain (@isChain_escape t [] .nil nofun)
  have h := expansion_of_read hmodifier hknown hnodup hread
  rw [render_escape, names_escape, List.append_nil] at h
  rw [List.append_nil] at hmerge
  rw [h, show render [] = [] from rfl, List.append_nil, hmerge]
  rfl

/-- So are two escaped texts as alternatives. -/
theorem expansion_escape_bar (s t : Text) :
    expansion (ExtensibleRegex.escape s ++ '|' :: ExtensibleRegex.escape t) [] =
      .ok ⟨ExtensibleRegex.escape s ++ '|' :: ExtensibleRegex.escape t, nativeFlags [], none⟩ := by
  have hmodifier : modeModifier? (ExtensibleRegex.escape s ++ '|' :: ExtensibleRegex.escape t) =
      none := modeModifier?_of_head (head?_escape_append s (by decide) (by decide) nofun)
  have hbar (behind : Text) : Reads ⟨[], false⟩ .pattern .empty behind
      ('|' :: (ExtensibleRegex.escape t ++ []))
      (.copied ['|'] :: (t.map (fun c => .copied (escapeChar c)) ++ [])) :=
    .cons (List.cons_ne_nil _ _) Nat.one_pos rfl (reads_escape (fun _ => .nil) t _)
  have hread := (reads_escape hbar s []).read
  have hchain : (ExtensibleRegex.escape s ++ '|' :: (ExtensibleRegex.escape t ++ [])).IsChain
      fun a b => b = '?' → a = '\\' := by
    refine isChain_escape s ?_ fun hbar => absurd (Option.some.inj hbar) (by decide)
    exact .cons (isChain_escape t .nil nofun) fun b hb hquestion => by
      rw [hquestion] at hb
      exact absurd hb (head?_escape_append t (by decide) (by decide) nofun)
  have hmerge := mergeEmptyGroups_of_isChain hchain
  rw [← List.append_nil (ExtensibleRegex.escape t)] at hmodifier ⊢
  have h := expansion_of_read hmodifier (fun _ hf => absurd hf List.not_mem_nil)
    List.nodup_nil hread
  have hrender : render (s.map (fun c => .copied (escapeChar c)) ++
      .copied ['|'] :: (t.map (fun c => .copied (escapeChar c)) ++ [])) =
        ExtensibleRegex.escape s ++ '|' :: (ExtensibleRegex.escape t ++ []) := by
    rw [render_escape]
    show _ ++ '|' :: render _ = _
    rw [render_escape]
    rfl
  rw [h, hrender, hmerge, names_escape]
  show Except.ok (Expansion.mk _ _ (if (names (t.map _ ++ [])).any _ then _ else _)) = _
  rw [names_escape]
  rfl

end Reader

/-! ## 2. The scan for two characters -/

/-- The regex of an escaped character. -/
structure Regex.IsEscaped (re : Regex) (c : Char) : Prop where
  isChar : re.IsChar c
  source : re.engine.source = escape [c]
  mode : re.engine.mode = {}

namespace Context

open BalancedSearch

theorem exists_escaped (ch : Char) :
    ∃ re, freshRegex (escape [ch]) ['g'] = .ok re ∧ re.IsEscaped ch := by
  have hexpansion := @Reader.expansion_escape ['g'] [ch]
    (fun _ hf => List.mem_singleton.1 hf ▸ List.mem_cons_self) (List.nodup_singleton 'g')
  obtain ⟨re, hre, hprogram, hsource, hmode, -⟩ :=
    exists_freshRegex hexpansion (ofSource?_escape [ch] rfl)
  exact ⟨re, hre, hprogram, hsource, hmode⟩

variable {l r : Regex} {left right e : Char}

theorem writtenPart_escaped (h : l.IsEscaped left) (prior : Nat) :
    writtenPart prior (.regex l) = .ok (escape [left], prior) := by
  have hexpansion := @Reader.expansion_escape [] [left] (fun _ hf => absurd hf List.not_mem_nil)
    List.nodup_nil
  rw [← h.source] at hexpansion
  have hmode : (if l.engine.mode.unicode then ['u'] else []) = [] := by
    rw [h.mode]
    rfl
  rw [writtenPart_of_expansion (hmode ▸ hexpansion)]
  simp only [h.source, renumber_escape, Nat.add_zero]

/-- The union of two escaped characters has both as its alternatives. -/
theorem freshUnion_escaped (hl : l.IsEscaped left) (hr : r.IsEscaped right) :
    ∃ d, freshUnion [.regex l, .regex r] [] .or = .ok d ∧
      d.nativeSource = escape [left] ++ '|' :: escape [right] := by
  obtain ⟨d, hd, -, hsource, -⟩ := exists_freshRegex
    (Reader.expansion_escape_bar [left] [right]) (Skipper.ofSource?_chars left right)
  have hwritten : writtenParts 0 [.regex l, .regex r] = .ok [escape [left], escape [right]] := by
    simp only [writtenParts, writtenPart_escaped hl, writtenPart_escaped hr]
    rfl
  have hjoined : Conjunction.or.separator.intercalate [escape [left], escape [right]] =
      escape [left] ++ '|' :: escape [right] := by
    simp [Conjunction.separator, List.intercalate]
  refine ⟨d, ?_, hsource⟩
  rw [freshUnion_of_written hwritten (List.cons_ne_nil _ _), hjoined, hd]

/-- The skipper for two escaped characters. -/
theorem freshInertRuns_escaped (hl : l.IsEscaped left) (hr : r.IsEscaped right) (e : Char) :
    ∃ skipper, freshInertRuns e l r ['g'] = .ok skipper ∧
      skipper.engine.program = ⟨Skipper.node e false (Skipper.ofChars left right), 0⟩ ∧
      skipper.engine.NoNextGroup := by
  obtain ⟨d, hd, hsource⟩ := freshUnion_escaped hl hr
  refine @exists_freshInertRuns l r e ['g'] d hd List.nodup_nil _
    (hsource.symm ▸ Skipper.lexemes?_chars left right) (fun _ hname => absurd hname List.not_mem_nil)
    (Skipper.ofChars left right) (fun l hl => ?_) (hsource.symm ▸ Skipper.ofSource?_chars left right)
  rcases List.mem_cons.1 hl with rfl | hl
  · exact ⟨fun name h => (by cases h), fun digits h => (by cases h)⟩
  · rcases List.mem_cons.1 hl with rfl | hl
    · exact ⟨fun name h => (by cases h), fun digits h => (by cases h)⟩
    · obtain rfl := List.mem_singleton.1 hl
      exact ⟨fun name h => (by cases h), fun digits h => (by cases h)⟩

/-- The scan for two characters sees their brackets. -/
theorem freshSearch_escaped {escapeChar : Option Char} (hne : left ≠ right)
    (hleft : escapeChar ≠ some left) (hright : escapeChar ≠ some right) :
    ∃ b, freshSearch (escape [left]) (escape [right]) ['g'] escapeChar = .ok b ∧ b.global = true ∧
      b.sticky = false ∧ (b.reporting none).Sees escapeChar left right := by
  obtain ⟨l, hl, hleftEscaped⟩ := exists_escaped left
  obtain ⟨r, hr, hrightEscaped⟩ := exists_escaped right
  have hfilter : ['g'].filter (· != 'y') = ['g'] := rfl
  unfold freshSearch
  rw [hfilter, hl, hr]
  cases escapeChar with
  | none =>
    exact ⟨_, rfl, rfl, rfl, sees_of_isChar hleftEscaped.isChar hrightEscaped.isChar hne.symm rfl⟩
  | some e =>
    obtain ⟨skipper, hskipper, hprogram, hnext⟩ :=
      freshInertRuns_escaped hleftEscaped hrightEscaped e
    show ∃ b, (some <$> freshInertRuns e l r ['g'] >>= _) = Except.ok b ∧ _
    rw [hskipper]
    exact ⟨_, rfl, rfl, rfl, sees_of_skipper hleftEscaped.isChar hrightEscaped.isChar hne.symm
      (fun he => hleft (congrArg some he)) (fun he => hright (congrArg some he)) rfl hprogram hnext⟩

variable {c : Context}

/-- **Balanced delimiters are counted.** In a fresh context, the scan of a text for two characters, with
or without another one as escape character, reports what is between the outermost pairs of their
brackets, and that they are unbalanced where the brackets do not close. -/
theorem balanced_brackets (h : c.Fresh) (text : Text) {left right : Char} {escapeChar : Option Char}
    (hne : left ≠ right) (hleft : escapeChar ≠ some left) (hright : escapeChar ≠ some right) :
    (¬Closes 0 (brackets escapeChar left right 0 text) →
      (answer (balanced text (escape [left]) (escape [right]) ['g'] escapeChar none) c).1 =
        .error .unbalanced) ∧
    (Closes 0 (brackets escapeChar left right 0 text) →
      ∃ pairs, Outermost (brackets escapeChar left right 0 text) pairs ∧
        (answer (balanced text (escape [left]) (escape [right]) ['g'] escapeChar none) c).1 =
          .ok (pairs.map (enclosed text))) := by
  obtain ⟨b, hb, hglobal, hsticky, hsees⟩ := freshSearch_escaped hne hleft hright
  rw [← h.answer_balancedSearch] at hb
  rw [answer_balanced hb text none]
  exact hsees.run_eq hglobal hsticky rfl text

/-- An escaped bracket between two others, and one bracket that is not closed. -/
theorem balanced_brackets_tildes :
    (∃ pairs, Outermost (brackets (some '~') '(' ')' 0 "(a~)b)".toList) pairs ∧
      (answer (balanced "(a~)b)".toList (escape ['(']) (escape [')']) ['g'] (some '~') none)
        initial).1 = .ok (pairs.map (enclosed "(a~)b)".toList))) ∧
    (answer (balanced "(a~)b".toList (escape ['(']) (escape [')']) ['g'] (some '~') none)
      initial).1 = .error .unbalanced := by
  have hcloses {text : Text} : Closes 0 (brackets (some '~') '(' ')' 0 text) ↔
      (outermost? 0 0 (brackets (some '~') '(' ')' 0 text)).isSome = true :=
    (isSome_outermost?_iff _ 0 0).symm
  have hlaw (text : Text) := @balanced_brackets initial fresh_initial text '(' ')' (some '~')
    (by decide) (by decide) (by decide)
  refine ⟨(hlaw _).2 (hcloses.2 (by decide +kernel)), (hlaw _).1 fun hopen => ?_⟩
  exact absurd (hcloses.1 hopen) (by decide +kernel)

end Context

end ExtensibleRegex
