import ExtensibleRegex.Proofs.Combine.Building
import ExtensibleRegex.Proofs.Combine.Groups
import ExtensibleRegex.Proofs.Expansion.Explicit
import ExtensibleRegex.Proofs.Expansion.Omission
import ExtensibleRegex.Proofs.Regex.Alike
import Mathlib.Tactic

/-!
# Builds under flag `n`

Under flag `n` groups without names do not capture, and the numbers of the others change. A build puts
the same text together with the flag and without it, and refers in it by name to every group that has
one. So both regexes have the same matches, apart from the groups, if the text refers by name only
(`Context.build_explicit`). A number would be that of another group, since the groups are numbered as if
all captured (`Context.build_explicit_number`).
-/

namespace ExtensibleRegex

open Native

/-! ## 1. Engines -/

/-- Numbers that are those of groups are not that of the group after the last. -/
theorem Native.Engine.noNextGroup_of_inRange {e : Engine} {ls : List Lexeme}
    (hls : lexemes? e.mode.unicode e.source = some ls) (h : InRange ls) : e.NoNextGroup := by
  intro ms hms l hl
  obtain rfl := Option.some.inj (hls.symm.trans hms)
  obtain ⟨ns, q, hq, hprogram⟩ := Program.ofSource?_eq_some_iff.1 e.program_eq
  obtain rfl := Option.some.inj (hq.lexed.symm.trans hls)
  rw [hprogram]
  cases l with
  | decimal digits =>
    have hle := h digits hl
    show (readDigits 10 digits == (captureNames ns).length + 1) = false
    exact beq_false_of_ne (by omega)
  | _ => rfl

section Merged

variable {e : Engine} {t : Text} (hsource : e.source = mergeEmptyGroups t) (htame : Tame t)

include hsource htame

/-- An engine finds what a pattern with all its empty groups matches. -/
theorem Native.Engine.exists_program_merged :
    ∃ p, Program.ofSource? t e.mode = some p ∧ e.program.search? = p.search? := by
  have hmeaning : meaning e.mode (mergeEmptyGroups t) = meaning e.mode t := meaning_merged htame
  have hprogram := e.program_eq
  unfold meaning at hmeaning
  rw [← hsource, hprogram, Option.map_some, eq_comm] at hmeaning
  obtain ⟨p, hp, hsearch⟩ := Option.map_eq_some_iff.1 hmeaning
  exact ⟨p, hp, hsearch.symm⟩

/-- Leaving out empty groups leaves numbers in range. -/
theorem Native.Engine.noNextGroup_merged {ls : List Lexeme}
    (hls : lexAll? e.mode.unicode e.mode.unicode 0 t [] = some ls)
    (hnames : ∀ name ∈ captureNames ls, name = none) (hrange : InRange ls) : e.NoNextGroup := by
  obtain ⟨ls', hls', homits⟩ := lexAll?_merged htame hls
  have hsame := captureNames_of_omits homits
  rw [← hsource] at hls'
  refine e.noNextGroup_of_inRange (lexemes?_of_unnamed hls' (hsame ▸ hnames)) fun digits hdigits => ?_
  rw [hsame]
  exact hrange digits (mem_of_omits homits hdigits)

end Merged

section Released

variable {keep : Nat → Bool} {cs : List Chunk} {e e' : Engine} (hfit : Fit .outside cs)
  (hkept : ∀ n, .reference n ∈ cs → n ≤ groupCount cs ∧ keep n = true) (hmode : e'.mode = e.mode)
  (hsource : e.source = mergeEmptyGroups (written cs)) (htame : Tame (written cs))
  (hsource' : e'.source = mergeEmptyGroups (writtenReleased keep 0 cs))
  (htame' : Tame (writtenReleased keep 0 cs))

include hfit hkept hmode hsource htame hsource' htame'

/-- Engines of a pattern with groups given up and without search alike. -/
theorem whole_search?_released (place : Place) :
    (e'.search? place).map Found.whole = (e.search? place).map Found.whole := by
  obtain ⟨p, hp, hsearch⟩ := e.exists_program_merged hsource htame
  obtain ⟨p', hp', hsearch'⟩ := e'.exists_program_merged hsource' htame'
  rw [hmode] at hp'
  unfold Engine.search?
  rw [hsearch, hsearch']
  exact Program.whole_search?_congr (Program.ends_writtenReleased hfit hkept hp hp') place

/-- So they do at exactly a place. -/
theorem whole_searchAt?_released (place : Place) :
    (e'.searchAt? place).map Found.whole = (e.searchAt? place).map Found.whole := by
  obtain ⟨p, hp, -⟩ := e.exists_program_merged hsource htame
  obtain ⟨ls, hlexed, hreleased, hnone, hrefers⟩ := exists_lexemes hfit hkept hp
  have hrange := inRange_of_refers hrefers
  have hnext : e.NoNextGroup := e.noNextGroup_merged hsource htame hlexed hnone hrange
  rw [← hmode] at hreleased
  have hnext' : e'.NoNextGroup := e'.noNextGroup_merged hsource' htame' hreleased
    (none_of_releasedFrom hnone) (inRange_releasedFrom hrange)
  have hfilter (o : Option Found) : (o.filter fun f => f.whole.start.index = place.index).map
      Found.whole = (o.map Found.whole).filter fun s => s.start.index = place.index := by
    cases o with
    | none => rfl
    | some f =>
      by_cases hstart : f.whole.start.index = place.index
      · simp [Option.filter, hstart]
      · simp [Option.filter, hstart]
  have hwhole := whole_search?_released hfit hkept hmode hsource htame hsource' htame' place
  unfold Engine.search? at hwhole
  rw [e.searchAt?_eq_matchAt? (.inr hnext), e'.searchAt?_eq_matchAt? (.inr hnext'),
    Program.matchAt?_eq_filter_search?, Program.matchAt?_eq_filter_search?, hfilter, hfilter, hwhole]

end Released

/-! ## 2. Regexes -/

/-- Whatever a reader makes of a pattern, the empty groups that are left out of it stand outside of
classes and escapes. -/
def Reader.Mergeable (r : Reader) (t : Text) : Prop :=
  ∀ pieces, r.read t = .ok pieces → Tame (Reader.render pieces)

theorem Reader.mergeable_of_map {r : Reader} {t written : Text}
    (h : (r.read t).map render = .ok written) (htame : Tame written) : r.Mergeable t := by
  intro pieces hpieces
  rw [hpieces] at h
  obtain rfl := Except.ok.inj h
  exact htame

/-- The native flags of flag texts that differ in `n`. -/
theorem Reader.Explicit.nativeFlags {flags flags' : Text} {b : Bool}
    (h : (⟨flags, b⟩ : Reader).Explicit ⟨flags', b⟩) :
    Reader.nativeFlags flags' = Reader.nativeFlags flags := by
  have hsame (f : Char) (hf : f ≠ 'n') : flags'.contains f = flags.contains f := h.others f hf
  unfold Reader.nativeFlags NativeFlags.ofText
  simp only [hsame 'g' (by decide), hsame 'i' (by decide), hsame 'm' (by decide),
    hsame 'u' (by decide), hsame 'y' (by decide), hsame 'A' (by decide)]

namespace Context

/-- **Flag `n` changes no match of a pattern in which groups are referred to by name only.** -/
theorem whole_matches_explicit {pattern flags flags' : Text} {re re' : Regex}
    (hflags : (⟨flags, false⟩ : Reader).Explicit ⟨flags', false⟩)
    (hre : freshRegex pattern flags = .ok re) (hre' : freshRegex pattern flags' = .ok re')
    (hmodifier : modeModifier? pattern = none) (horderly : (⟨flags, false⟩ : Reader).Orderly pattern)
    (hmerge : (⟨flags, false⟩ : Reader).Mergeable pattern)
    (hmerge' : (⟨flags', false⟩ : Reader).Mergeable pattern) (text : Text) :
    (re'.allMatches text).map Captures.whole = (re.allMatches text).map Captures.whole := by
  obtain ⟨pieces, hread, hsource, hmode, hsticky, -⟩ := read_of_freshRegex hre hmodifier
  obtain ⟨pieces', hread', hsource', hmode', hsticky', -⟩ := read_of_freshRegex hre' hmodifier
  obtain ⟨keep, cs, hfit, hkept, hwritten, hreleased⟩ := horderly.exists_chunks hflags hread hread'
  have htame := hmerge pieces hread
  have htame' := hmerge' pieces' hread'
  rw [← hwritten] at hsource htame
  rw [← hreleased] at hsource' htame'
  rw [hflags.nativeFlags, ← hmode] at hmode'
  rw [hflags.nativeFlags, ← hsticky] at hsticky'
  refine Regex.matchesFrom_congr (fun _ _ => id) (fun place => ?_) text (.first text)
  have hmap (re : Regex) (o : Option Found) : (o.map re.captures).map Captures.whole =
      o.map Found.whole := by
    rw [Option.map_map]
    rfl
  unfold Regex.searchAt?
  rw [hmap, hmap, hsticky']
  cases re.sticky with
  | false => exact whole_search?_released hfit hkept hmode' hsource htame hsource' htame' place
  | true => exact whole_searchAt?_released hfit hkept hmode' hsource htame hsource' htame' place

/-! ## 3. Builds -/

theorem source_of_freshRegex {pattern flags : Text} {re : Regex}
    (h : freshRegex pattern flags = .ok re) : re.source = some pattern := by
  obtain ⟨t, -, h⟩ := bind_eq_ok.1 h
  obtain ⟨engine, -, h⟩ := bind_eq_ok.1 h
  obtain rfl := Except.ok.inj h
  rfl

/-- The flags of a whole build, with flag `n` and without it. -/
theorem explicit_buildFlags {pattern flags : Text} (h : 'n' ∉ buildFlags pattern flags) :
    (⟨buildFlags pattern flags, false⟩ : Reader).Explicit
      ⟨buildFlags pattern (flags ++ ['n']), false⟩ where
  namespacing := rfl
  without := by simpa using h
  explicit := by
    unfold buildFlags
    cases modeModifier? pattern <;> simp [mem_keepLastFlags]
  others f hf := by
    unfold buildFlags
    cases modeModifier? pattern <;> simp [mem_keepLastFlags, hf]

variable {c : Context}

/-- **Flag `n` changes no match of a build that refers to groups by name only.** In a fresh context, let
a build succeed with flags among which, with those of a mode modifier, is no `n`, and let it succeed with
`n` too. Both put together the same text. If it refers to no group by number, has all its groups open
where they are read and no digit after a reference, and if empty groups are left out of it outside of
classes and escapes only, then both regexes match the same stretches of every text. -/
theorem build_explicit (h : c.Fresh) {pattern flags t : Text} {subs : List (Text × Subpattern)}
    {re re' : Regex} (hn : 'n' ∉ buildFlags pattern flags)
    (hre : (answer (build pattern subs flags) c).1 = .ok re)
    (hre' : (answer (build pattern subs (flags ++ ['n'])) c).1 = .ok re')
    (ht : re.source = some t) (hmodifier : modeModifier? t = none)
    (horderly : (⟨buildFlags pattern flags, false⟩ : Reader).Orderly t)
    (hmerge : (⟨buildFlags pattern flags, false⟩ : Reader).Mergeable t)
    (hmerge' : (⟨buildFlags pattern (flags ++ ['n']), false⟩ : Reader).Mergeable t) (text : Text) :
    re'.source = some t ∧
      (re'.allMatches text).map Captures.whole = (re.allMatches text).map Captures.whole := by
  rw [(answers_build pattern subs _ c h).1] at hre hre'
  have hparts : freshText pattern subs (flags ++ ['n']) = freshText pattern subs flags := by
    unfold freshText partFlags
    simp
  unfold freshBuild at hre hre'
  rw [hparts] at hre'
  obtain ⟨u, hu, hre⟩ := bind_eq_ok.1 hre
  obtain ⟨u', hu', hre'⟩ := bind_eq_ok.1 hre'
  obtain rfl := Except.ok.inj (hu.symm.trans hu')
  obtain rfl : u = t := Option.some.inj ((source_of_freshRegex hre).symm.trans ht)
  exact ⟨source_of_freshRegex hre', whole_matches_explicit (explicit_buildFlags hn) hre hre' hmodifier
    horderly hmerge hmerge' text⟩

/-- Named groups in the outer pattern and in a subpattern, beside a group that flag `n` gives up. -/
theorem build_explicit_names : ∃ re re',
    (answer (build "(?<x>a)(b){{s}}\\k<x>".toList [(['s'], .pattern "(?<y>c)\\1".toList)] []) initial).1 =
      .ok re ∧
    (answer (build "(?<x>a)(b){{s}}\\k<x>".toList [(['s'], .pattern "(?<y>c)\\1".toList)] ['n'])
      initial).1 = .ok re' ∧
    re.source = some "(?<x>a)(b)(?:(?<y>c)\\k<y>)\\k<x>".toList ∧
    ∀ text, (re'.allMatches text).map Captures.whole = (re.allMatches text).map Captures.whole := by
  have hsub : freshPart "(?<y>c)\\1".toList [] = .ok ⟨"(c)\\1".toList, [some ['y']]⟩ :=
    @freshPart_of_map "(?<y>c)\\1".toList "(c)\\1".toList [some ['y']] rfl (by decide +kernel)
  have hsubs : freshSubparts [] [(['s'], .pattern "(?<y>c)\\1".toList)] =
      .ok [(['s'], ⟨"(c)\\1".toList, [some ['y']]⟩)] := by
    simp only [freshSubparts, freshSubpart, List.mapM_cons, List.mapM_nil, hsub]
    rfl
  have houter : freshPart "(?<x>a)(b){{s}}\\k<x>".toList [] =
      .ok ⟨"(a)(b){{s}}\\1".toList, [some ['x'], none]⟩ :=
    @freshPart_of_map "(?<x>a)(b){{s}}\\k<x>".toList "(a)(b){{s}}\\1".toList [some ['x'], none] rfl
      (by decide +kernel)
  have htext (flags : Text) (hflags : partFlags flags = []) :
      freshText "(?<x>a)(b){{s}}\\k<x>".toList [(['s'], .pattern "(?<y>c)\\1".toList)] flags =
        .ok "(?<x>a)(b)(?:(?<y>c)\\k<y>)\\k<x>".toList :=
    freshText_of_parts hflags hsubs houter rfl
  obtain ⟨re, hre, -, hsource, -⟩ := @exists_freshRegex_of_map
    "(?<x>a)(b)(?:(?<y>c)\\k<y>)\\k<x>".toList [] "(a)(b)(?:(c)\\3)\\1".toList
    [some ['x'], none, some ['y']] _ rfl ⟨List.nodup_nil, List.forall_mem_nil _⟩ (by decide +kernel) rfl
  obtain ⟨re', hre', -⟩ := @exists_freshRegex_of_map
    "(?<x>a)(b)(?:(?<y>c)\\k<y>)\\k<x>".toList ['n'] "(a)(?:b)(?:(c)\\2)\\1".toList
    [some ['x'], some ['y']] _ rfl ⟨List.nodup_singleton _, by simp⟩ (by decide +kernel) rfl
  have hbuild := answer_build_of_text (htext [] rfl) hre
  have hbuild' := answer_build_of_text (htext ['n'] rfl) hre'
  refine ⟨re, re', hbuild, hbuild', hsource, fun text => ?_⟩
  refine (build_explicit fresh_initial (by decide) hbuild hbuild' hsource rfl ?_ ?_ ?_ text).2
  · refine ⟨[("(?<x>".toList, .opens (some ['x'])), (['a'], .copied ['a']), ([')'], .copied [')']),
      (['('], .opens none), (['b'], .copied ['b']), ([')'], .copied [')']),
      (['(', '?', ':'], .copied ['(', '?', ':']), ("(?<y>".toList, .opens (some ['y'])),
      (['c'], .copied ['c']), ([')'], .copied [')']), ("\\k<y>".toList, .written "\\3".toList),
      ([')'], .copied [')']), ("\\k<x>".toList, .written "\\1".toList)], rfl, ?_, ?_, ?_, ?_⟩ <;>
      decide +kernel
  · exact @Reader.mergeable_of_map _ _ "(a)(b)(?:(c)\\3)\\1".toList (by decide +kernel) (by decide)
  · exact @Reader.mergeable_of_map _ _ "(a)(?:b)(?:(c)\\2)\\1".toList (by decide +kernel) (by decide)

/-- A number that stays refers to another group under the flag: the first group gives up its own, and
the second one has it then. -/
theorem build_explicit_number : ∃ re re',
    (answer (build "(a)(?<x>b)\\1".toList [] []) initial).1 = .ok re ∧
    (answer (build "(a)(?<x>b)\\1".toList [] ['n']) initial).1 = .ok re' ∧
    (re.allMatches ['a', 'b', 'a']).map (fun c => c.whole.text) = [['a', 'b', 'a']] ∧
    re'.allMatches ['a', 'b', 'a'] = [] := by
  have houter : freshPart "(a)(?<x>b)\\1".toList [] = .ok ⟨"(a)(b)\\1".toList, [none, some ['x']]⟩ :=
    @freshPart_of_map "(a)(?<x>b)\\1".toList "(a)(b)\\1".toList [none, some ['x']] rfl
      (by decide +kernel)
  have htext (flags : Text) (hflags : partFlags flags = []) :
      freshText "(a)(?<x>b)\\1".toList [] flags = .ok "(a)(?<x>b)\\1".toList :=
    freshText_of_parts hflags rfl houter rfl
  obtain ⟨re, hre, hprogram, -, hsticky, -⟩ := @exists_freshRegex_of_map "(a)(?<x>b)\\1".toList []
    "(a)(b)\\1".toList [none, some ['x']] _ rfl ⟨List.nodup_nil, List.forall_mem_nil _⟩
    (by decide +kernel) rfl
  obtain ⟨re', hre', hprogram', -, hsticky', -⟩ := @exists_freshRegex_of_map "(a)(?<x>b)\\1".toList ['n']
    "(?:a)(b)\\1".toList [some ['x']] _ rfl ⟨List.nodup_singleton _, by simp⟩ (by decide +kernel) rfl
  refine ⟨re, re', answer_build_of_text (htext [] rfl) hre, answer_build_of_text (htext ['n'] rfl) hre',
    ?_, ?_⟩
  · simp only [Regex.allMatches, Regex.matchesFrom, Regex.searchAt?, Engine.search?, hprogram, hsticky]
    rfl
  · simp only [Regex.allMatches, Regex.matchesFrom, Regex.searchAt?, Engine.search?, hprogram', hsticky']
    rfl

end Context

end ExtensibleRegex
