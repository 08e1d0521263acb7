import ExtensibleRegex.Proofs.Dialect.BareClasses
import ExtensibleRegex.Proofs.Dialect.Modifiers
import ExtensibleRegex.Proofs.Expansion.Rewriting
import Mathlib.Tactic

/-!
# Compiling what has been compiled

The native pattern of a regex can be handed to the dialect again, as unions and built patterns do
with their parts. For a pattern without comments and free spacing it is then left as it is:

* a text that is fixed and has no repeated empty groups is expanded to itself
  (`Reader.expansion_of_fixed`);
* the native source of a regex of a fresh context is such a text, unless the parenthesis of a named
  group comes to stand before a question mark (`Context.recompile_source`).

Such a parenthesis can become that of a group which the engine names, and which the dialect then
takes for one of its own (`Context.recompile_foreign_group`).
-/

namespace ExtensibleRegex

open Native

namespace Reader

/-- **A fixed text is expanded to itself**, with no names, under flag `u` if its code points need
it. -/
theorem expansion_of_fixed {unicode : Bool} {t : Text} (hmodifier : modeModifier? t = none)
    (hfixed : Fixed unicode .pattern 0 t) (hmerged : mergeEmptyGroups t = t) :
    expansion t (if unicode then ['u'] else []) =
      .ok ⟨t, NativeFlags.ofText (if unicode then ['u'] else []), none⟩ := by
  have hflags : ∀ f ∈ (if unicode then ['u'] else [] : Text),
      f ∈ ['g', 'i', 'm', 'n', 's', 'u', 'x', 'y'] := by cases unicode <;> simp
  have hnodup : (if unicode then ['u'] else [] : Text).Nodup := by cases unicode <;> decide
  have hbland : (⟨if unicode then ['u'] else [], false⟩ : Reader).Bland := by
    cases unicode <;> exact ⟨rfl, rfl, rfl, rfl⟩
  have hunicode : (if unicode then ['u'] else [] : Text).contains 'u' = unicode := by
    cases unicode <;> rfl
  have hnative : nativeFlags (if unicode then ['u'] else []) =
      NativeFlags.ofText (if unicode then ['u'] else []) := by cases unicode <;> rfl
  have hempty : Fixed unicode .pattern Ledger.empty.groupCount t := hfixed
  obtain ⟨pieces, hreads, hrender, hnames⟩ :=
    reads_of_fixed hbland hunicode t.length (Nat.le_refl _) hempty []
  have hunnamed : (names pieces).any Option.isSome = false := by
    rw [List.any_eq_false]
    intro name hname
    rw [hnames name hname]
    decide
  rw [expansion_of_read hmodifier hflags hnodup hreads.read, hrender, hmerged, hnative, hunnamed]
  rfl

end Reader

namespace Context

/-- **Compiling what has been compiled changes nothing.** In a fresh context, the native source of a
regex whose pattern has no inline comment, without flag `x`, is compiled to itself under its own flag
`u`, with no names, if no named group of the pattern comes to stand before a question mark. -/
theorem recompile_source {c : Context} (h : c.Fresh) {pattern flags : Text} {re : Regex}
    (hre : (answer (regex pattern flags) c).1 = .ok re) (hcomment : ¬commentOpener <:+: pattern)
    (hx : 'x' ∉ flags ++ modifierFlags pattern) :
    ∃ prepared pieces, Dialect.initial.flags.prepare pattern flags = .ok prepared ∧
      (⟨prepared.flags, false⟩ : Reader).read prepared.pattern = .ok pieces ∧
      (Reader.OpensApart pieces →
        let own := if re.nativeFlags.unicode then ['u'] else []
        (answer (expand re.nativeSource own) (answer (regex pattern flags) c).2).1 =
          .ok ⟨re.nativeSource, NativeFlags.ofText own, none⟩) := by
  rw [h.answer_regex_initial] at hre
  obtain ⟨prepared, pieces, hprepare, hread, hsource, -⟩ := regex_initial hre
  refine ⟨prepared, pieces, hprepare, hread, fun hapart => ?_⟩
  obtain ⟨hsuffix, hsame, hknown⟩ := KnownFlags.of_prepare hprepare
  have hblank : prepared.flags.contains 'x' = false := by
    simpa using fun hmem => hx ((hsame 'x').1 hmem)
  have hastral : prepared.flags.contains 'A' = false := by
    simp only [List.contains_eq_mem, decide_eq_false_iff_not]
    intro hmem
    have hA := hknown 'A' hmem
    rw [Dialect.initial_flags] at hA
    exact absurd hA (by decide)
  have hunicode : re.nativeFlags.unicode = prepared.flags.contains 'u' := by
    have hmode := (regex_initial_flags hre hprepare).1
    show re.engine.mode.unicode = _
    rw [hmode]
    show (prepared.flags.contains 'u' || prepared.flags.contains 'A') = _
    rw [hastral, Bool.or_false]
  -- what has been written is fixed, also when empty groups have been left out
  have hwritten : Fixed (prepared.flags.contains 'u') .pattern 0 (Reader.render pieces) :=
    (Reader.reads_of_read hread).fixed hblank
      (fun hopener => hcomment (hopener.trans hsuffix.isInfix)) hapart
  have hfixed : Fixed re.nativeFlags.unicode .pattern 0 re.nativeSource := by
    rw [hsource, hunicode]
    exact (fixed_merged _ _ (Nat.le_refl _) _ _ hwritten).1
  have hmerged : mergeEmptyGroups re.nativeSource = re.nativeSource := by
    rw [hsource]
    exact (merged_of_settled _ _ (Nat.le_refl _) (settled_merged _ _ (Nat.le_refl _)).1).1
  have hafter : (answer (regex pattern flags) c).2.Fresh := h.after (keeps_regex pattern flags)
  exact (hafter.answer_expand _ _).trans
    (Reader.expansion_of_fixed re.engine.modeModifier?_source hfixed hmerged)

/-- A named group, a reference before a digit, bare classes, the dot and a large code point. -/
theorem recompile_source_mixed :
    let pattern := "(?<y>[^]\\u\x7b41\x7d)\\k<y>2(.|\\u\x7b1F600\x7d)".toList
    let source := "([\\s\\S]\\u0041)\\1(?:)2([\\s\\S]|\\u\x7b1F600\x7d)".toList
    ∃ re, (answer (regex pattern ['s', 'u']) initial).1 = .ok re ∧
      re.nativeSource = source ∧ re.nativeFlags.unicode = true ∧
      (answer (expand source ['u']) (answer (regex pattern ['s', 'u']) initial).2).1 =
        .ok ⟨source, ⟨false, false, false, true, false⟩, none⟩ := by
  intro pattern source
  have hprepare : Dialect.initial.flags.prepare pattern ['s', 'u'] = .ok ⟨pattern, ['s', 'u']⟩ := by
    rw [Dialect.initial_flags]
    rfl
  let read : List Segment := [.opens (some ['y']), .written "[\\s\\S]".toList,
    .written "\\u0041".toList, .copied [')'], .written "\\1(?:)".toList, .copied ['2'], .opens none,
    .written "[\\s\\S]".toList, .copied ['|'], .written "\\u\x7b1F600\x7d".toList, .copied [')']]
  have hread : (⟨['s', 'u'], false⟩ : Reader).read pattern = .ok read := by decide +kernel
  obtain ⟨e, he⟩ : ∃ e, Engine.ofSource source ⟨false, false, true⟩ = .ok e := ⟨_, rfl⟩
  obtain ⟨re, hre, hengine⟩ := exists_regex_initial hprepare hread he
  obtain ⟨hsource, hmode⟩ := Engine.ofSource_eq_ok.1 he
  have hnative : re.nativeSource = source := by
    show re.engine.source = source
    rw [hengine, hsource]
  have hunicode : re.nativeFlags.unicode = true := by
    show re.engine.mode.unicode = true
    rw [hengine, hmode]
  obtain ⟨prepared, pieces, hprepare', hread', hagain⟩ :=
    recompile_source fresh_initial hre (by decide) (by decide)
  obtain rfl := Except.ok.inj (hprepare'.symm.trans hprepare)
  obtain rfl := Except.ok.inj (hread'.symm.trans hread)
  have hsame := hagain (by decide)
  simp only [hnative, hunicode] at hsame
  exact ⟨re, hre, hnative, hunicode, hsame⟩

/-- Behind the parenthesis of a named group the rest of another name comes to stand, so that the
engine has a group with that name. The dialect then takes it for one of its own. -/
theorem recompile_foreign_group :
    ∃ re, (answer (regex "(?<n>?<m>a)".toList []) initial).1 = .ok re ∧
      re.nativeSource = "(?<m>a)".toList ∧ re.nativeFlags.unicode = false ∧
      (answer (expand re.nativeSource []) (answer (regex "(?<n>?<m>a)".toList []) initial).2).1 =
        .ok ⟨"(a)".toList, {}, some [some ['m']]⟩ := by
  have hprepare : Dialect.initial.flags.prepare "(?<n>?<m>a)".toList [] =
      .ok ⟨"(?<n>?<m>a)".toList, []⟩ := prepare_of_modeModifier? (by decide)
  have hread : (⟨[], false⟩ : Reader).read "(?<n>?<m>a)".toList =
      .ok [.opens (some ['n']), .copied ['?'], .copied ['<'], .copied ['m'], .copied ['>'],
        .copied ['a'], .copied [')']] := by decide +kernel
  obtain ⟨e, he⟩ : ∃ e, Engine.ofSource "(?<m>a)".toList ⟨false, false, false⟩ = .ok e := ⟨_, rfl⟩
  obtain ⟨re, hre, hengine⟩ := exists_regex_initial hprepare hread he
  obtain ⟨hsource, hmode⟩ := Engine.ofSource_eq_ok.1 he
  have hnative : re.nativeSource = "(?<m>a)".toList := by
    show re.engine.source = _
    rw [hengine, hsource]
  have hafter : (answer (regex "(?<n>?<m>a)".toList []) initial).2.Fresh :=
    fresh_initial.after (keeps_regex _ _)
  have hagain : (⟨[], false⟩ : Reader).read "(?<m>a)".toList =
      .ok [.opens (some ['m']), .copied ['a'], .copied [')']] := by decide +kernel
  refine ⟨re, hre, hnative, ?_, ?_⟩
  · show re.engine.mode.unicode = false
    rw [hengine, hmode]
  · rw [hafter.answer_expand, hnative,
      Reader.expansion_of_read (by decide) (by simp) (by decide) hagain]
    rfl

end Context

end ExtensibleRegex
