import ExtensibleRegex.Proofs.Dialect.Fresh
import ExtensibleRegex.Proofs.Native.Anchored
import Mathlib.Tactic

/-!
# The groups of a fresh dialect's regexes

A regex of a fresh context reports the names of its groups. This file says what they are:

* `answer_regex_initial` is the regex of a pattern, by the pieces that the pattern is read as;
* `regex_groups` says that the names reported are those of the groups that were written, that the
  native pattern has just these groups if every piece is clear and only then, and what follows for
  the slots of a match.

Two kinds of pattern are not clear: those in which a question mark comes to stand after the
parenthesis of a group, and those with a name that the engine takes and the token does not
(`regex_groups_foreign_name`).
-/

namespace ExtensibleRegex

open Native

/-! ## 1. Slots and names -/

/-- The number of a group is the one that its name is listed at, when no name is listed twice. -/
theorem GroupNames.index?_eq {names : GroupNames} (h : (names.filterMap id).Nodup) {i : Nat}
    {name : Text} (hi : names[i]? = some (some name)) : names.index? name = some (i + 1) := by
  unfold GroupNames.index?
  obtain ⟨hlt, hname⟩ := List.getElem?_eq_some_iff.1 hi
  have hfirst : names.findIdx? (· == some name) = some i := by
    rw [List.findIdx?_eq_some_iff_getElem]
    refine ⟨hlt, by simp [hname], fun j hj => ?_⟩
    have hpairs := List.pairwise_iff_getElem.1 (List.pairwise_filterMap.1 h) j i (by omega) hlt hj
    intro hsame
    exact hpairs name (by simpa using hsame) name (by simpa using hname) rfl
  rw [hfirst]
  rfl

namespace Native

theorem Program.length_groups_of_search? {program : Program} {p : Place} {f : Found}
    (h : program.search? p = some f) : f.groups.length = program.groups :=
  Program.length_groups_of_matchAt? (Program.searchFrom_eq_some _ p f h).1

/-- The variant of a pattern has one group more. -/
theorem Engine.groups_anchored (e : Engine) {variant : Program} (h : e.anchored = some variant) :
    variant.groups = e.program.groups + 1 := by
  obtain ⟨ls, p, hp, hprogram⟩ := Program.ofSource?_eq_some_iff.1 e.program_eq
  have hvariant := e.anchored_eq
  rw [h] at hvariant
  obtain ⟨ls', p', hp', hprogram'⟩ := Program.ofSource?_eq_some_iff.1 hvariant.symm
  have hls : ls' = ls ++ emptyGroupLexemes :=
    Option.some.inj (hp'.lexed.symm.trans (lexemes?_withEmptyGroup hp.lexed))
  rw [hprogram, hprogram', hls, captureNames_append]
  simp [emptyGroupLexemes, captureNames]

end Native

/-- A match has a slot for itself and one for each group. -/
theorem Regex.length_slots {re : Regex} {text : Text} {offset : Nat} {sticky : Bool} {c : Captures}
    (h : re.searchFrom? text offset sticky = some c) :
    c.slots.length = re.engine.program.groups + 1 ∧ c.names = re.names := by
  unfold searchFrom? at h
  split at h
  · rename_i p _
    unfold searchAt? at h
    obtain ⟨f, hf, rfl⟩ := Option.map_eq_some_iff.1 h
    refine ⟨?_, rfl⟩
    have hlength : f.groups.length = re.engine.program.groups := by
      split at hf
      · unfold Engine.searchAt? at hf
        split at hf
        · rename_i variant hvariant
          split at hf
          · rename_i g hg
            split at hf
            · cases hf
              rw [List.length_dropLast, Program.length_groups_of_search? hg,
                re.engine.groups_anchored hvariant]
              rfl
            · cases hf
          · cases hf
        · split at hf
          · rename_i g hg
            split at hf
            · cases hf
              exact Program.length_groups_of_search? hg
            · cases hf
          · cases hf
      · exact Program.length_groups_of_search? hf
    simp only [Captures.slots, captures, List.length_cons, hlength]
  · cases h

/-! ## 2. Regexes of a fresh context -/

namespace Context

/-- **The regex of a pattern in a fresh context**, by the pieces of the pattern. -/
theorem answer_regex_initial (pattern flags : Text) :
    (answer (regex pattern flags) initial).1 = (do
      let prepared ← Dialect.initial.flags.prepare pattern flags
      let pieces ← (⟨prepared.flags, false⟩ : Reader).read prepared.pattern
      let f := Reader.nativeFlags prepared.flags
      let engine ← Engine.ofSource (mergeEmptyGroups (Reader.render pieces)) f.mode
      return { engine
               global := f.global
               sticky := f.sticky
               names := if (Reader.names pieces).any Option.isSome then some (Reader.names pieces)
                 else none
               source := some pattern
               flags := some (orderFlags flags)
               namespaced := false }) := by
  rw [fresh_initial.answer_regex]
  unfold Reader.expansion
  cases Dialect.initial.flags.prepare pattern flags with
  | error e => rfl
  | ok prepared =>
    show (((⟨prepared.flags, false⟩ : Reader).read prepared.pattern).bind _).bind _ =
      ((⟨prepared.flags, false⟩ : Reader).read prepared.pattern).bind _
    cases (⟨prepared.flags, false⟩ : Reader).read prepared.pattern <;> rfl

/-- A regex of a fresh context, with the pieces of its pattern. -/
theorem regex_initial {pattern flags : Text} {re : Regex}
    (h : (answer (regex pattern flags) initial).1 = .ok re) :
    ∃ prepared pieces, Dialect.initial.flags.prepare pattern flags = .ok prepared ∧
      (⟨prepared.flags, false⟩ : Reader).read prepared.pattern = .ok pieces ∧
      re.nativeSource = mergeEmptyGroups (Reader.render pieces) ∧
      re.names = if (Reader.names pieces).any Option.isSome then some (Reader.names pieces)
        else none := by
  rw [answer_regex_initial] at h
  obtain ⟨prepared, hprepare, h⟩ := bind_eq_ok.1 h
  obtain ⟨pieces, hread, h⟩ := bind_eq_ok.1 h
  obtain ⟨engine, hengine, h⟩ := bind_eq_ok.1 h
  obtain rfl := Except.ok.inj h
  exact ⟨prepared, pieces, hprepare, hread, (Engine.ofSource_eq_ok.1 hengine).1, rfl⟩

/-- The pieces of a pattern make up a regex, if the engine accepts what is written for them. -/
theorem exists_regex_initial {pattern flags : Text} {prepared : Prepared} {pieces : List Segment}
    {e : Engine} (hprepare : Dialect.initial.flags.prepare pattern flags = .ok prepared)
    (hread : (⟨prepared.flags, false⟩ : Reader).read prepared.pattern = .ok pieces)
    (he : Engine.ofSource (mergeEmptyGroups (Reader.render pieces))
      (Reader.nativeFlags prepared.flags).mode = .ok e) :
    ∃ re, (answer (regex pattern flags) initial).1 = .ok re ∧ re.engine = e := by
  rw [answer_regex_initial]
  exact ⟨_, bind_eq_ok.2 ⟨_, hprepare, bind_eq_ok.2 ⟨_, hread, bind_eq_ok.2 ⟨e, he, rfl⟩⟩⟩, rfl⟩

/-- **The names that a fresh context reports are those of the groups, when every group opens as it
was read.** The pieces of the pattern say which groups were written, and with which names. The
native pattern has just these groups, and none with a name of its own, when all pieces are clear;
then every match has a slot for each of them, and a name is that of the group written with it. -/
theorem regex_groups {pattern flags : Text} {re : Regex} {groups : GroupNames}
    (h : (answer (regex pattern flags) initial).1 = .ok re) (hnames : re.names = some groups) :
    ∃ prepared pieces, Dialect.initial.flags.prepare pattern flags = .ok prepared ∧
      (⟨prepared.flags, false⟩ : Reader).read prepared.pattern = .ok pieces ∧
      re.nativeSource = mergeEmptyGroups (Reader.render pieces) ∧
      groups = Reader.names pieces ∧ (groups.filterMap id).Nodup ∧
      (Reader.Clear .pattern pieces ↔
        (lexemes? re.engine.mode.unicode re.nativeSource).map captureNames =
          some (List.replicate groups.length none)) ∧
      (Reader.Clear .pattern pieces →
        re.engine.program.groups = re.groupCount ∧
        (∀ before name after, pieces = before ++ .opens name :: after →
          countGroups (Reader.render (.opens name :: after)) = (Reader.names after).length + 1) ∧
        ∀ text offset sticky c, re.searchFrom? text offset sticky = some c →
          c.slots.length = re.groupCount + 1 ∧
          ∀ name i, groups[i]? = some (some name) → c.named? name = c.get? (i + 1)) := by
  obtain ⟨prepared, pieces, hprepare, hread, hsource, hgroups⟩ := regex_initial h
  have hreads := Reader.reads_of_read hread
  have hlisted : groups = Reader.names pieces := by
    rw [hnames] at hgroups
    split at hgroups
    · exact Option.some.inj hgroups
    · cases hgroups
  have hnodup : (groups.filterMap id).Nodup := by
    rw [hlisted]
    exact hreads.nodup_names List.nodup_nil
  have hcount : re.groupCount = groups.length := by simp only [Regex.groupCount, hnames]
  obtain ⟨ls, p, hp, hprogram⟩ := Program.ofSource?_eq_some_iff.1 re.engine.program_eq
  have hmarks : (captureNames ls).map Option.isSome = Reader.marks .pattern pieces := by
    rw [marks_lexemes? hp.lexed]
    show captureMarks false re.nativeSource = _
    rw [hsource]
    exact ((captureMarks_merged _ _ (Nat.le_refl _)).1 false).trans hreads.captureMarks_render
  have hclear : Reader.Clear .pattern pieces ↔
      captureNames ls = List.replicate groups.length none := by
    rw [← hreads.marks_iff, ← hmarks, ← hlisted]
    constructor
    · intro hfalse
      rw [List.eq_replicate_iff]
      refine ⟨by simpa using congrArg List.length hfalse, fun name hname => ?_⟩
      have hmem : name.isSome ∈ (captureNames ls).map Option.isSome := List.mem_map_of_mem hname
      rw [hfalse] at hmem
      exact Option.isSome_eq_false_iff.1 (List.eq_of_mem_replicate hmem) |> Option.isNone_iff_eq_none.1
    · intro hnone
      rw [hnone, List.map_replicate]
      rfl
  refine ⟨prepared, pieces, hprepare, hread, hsource, hlisted, hnodup, ?_, fun hall => ⟨?_, ?_, ?_⟩⟩
  · have hlexed : lexemes? re.engine.mode.unicode re.nativeSource = some ls := hp.lexed
    rw [hclear, hlexed, Option.map_some, Option.some.injEq]
  · rw [hprogram, hcount, hclear.1 hall, List.length_replicate]
  · intro before name after hpieces
    subst hpieces
    exact hreads.countGroups_from hall
  · intro text offset sticky c hc
    obtain ⟨hslots, hcaptures⟩ := Regex.length_slots hc
    refine ⟨?_, fun name i hi => ?_⟩
    · rw [hslots, hprogram, hcount, hclear.1 hall, List.length_replicate]
    · simp only [Captures.named?, Captures.indexOf?, hcaptures, hnames, Option.bind_some,
        GroupNames.index?_eq hnodup hi]

/-- A pattern with a named group and a group without a name. -/
theorem regex_groups_date :
    ∃ re, (answer (regex "(?<year>[0-9]+)-(x)".toList []) initial).1 = .ok re ∧
      re.names = some [some "year".toList, none] ∧ re.engine.program.groups = re.groupCount ∧
      ∀ text offset sticky c, re.searchFrom? text offset sticky = some c →
        c.slots.length = re.groupCount + 1 ∧ c.named? "year".toList = c.get? 1 := by
  have hprepare : Dialect.initial.flags.prepare "(?<year>[0-9]+)-(x)".toList [] =
      .ok ⟨"(?<year>[0-9]+)-(x)".toList, []⟩ := by
    rw [Dialect.initial_flags]
    rfl
  have hread : (⟨[], false⟩ : Reader).read "(?<year>[0-9]+)-(x)".toList =
      .ok [.opens (some "year".toList), .copied ['['], .copied ['0'], .copied ['-'], .copied ['9'],
        .copied [']'], .copied ['+'], .copied [')'], .copied ['-'], .opens none, .copied ['x'],
        .copied [')']] := by decide +kernel
  obtain ⟨e, he⟩ : ∃ e, Engine.ofSource "([0-9]+)-(x)".toList ⟨false, false, false⟩ = .ok e :=
    ⟨_, rfl⟩
  obtain ⟨re, hre, hnames⟩ : ∃ re, (answer (regex "(?<year>[0-9]+)-(x)".toList []) initial).1 =
      .ok re ∧ re.names = some [some "year".toList, none] := by
    rw [answer_regex_initial]
    exact ⟨_, bind_eq_ok.2 ⟨_, hprepare, bind_eq_ok.2 ⟨_, hread, bind_eq_ok.2 ⟨e, he, rfl⟩⟩⟩, rfl⟩
  obtain ⟨prepared, pieces, hprepare', hread', -, -, -, -, hall⟩ := regex_groups hre hnames
  obtain rfl := Except.ok.inj (hprepare'.symm.trans hprepare)
  obtain rfl := Except.ok.inj (hread'.symm.trans hread)
  obtain ⟨hcount, -, hslots⟩ := hall (by decide)
  refine ⟨re, hre, hnames, hcount, fun text offset sticky c hc => ?_⟩
  obtain ⟨hlength, hnamed⟩ := hslots text offset sticky c hc
  exact ⟨hlength, hnamed "year".toList 0 rfl⟩

/-- A name that the token for named groups does not take is copied, and the engine has a group with
that name, which the list of names does not count. -/
theorem regex_groups_foreign_name :
    ∃ re, (answer (regex "(?<é>a)(?<n>b)".toList []) initial).1 = .ok re ∧
      re.names = some [some ['n']] ∧ re.engine.program.groups = 2 ∧
      ((re.searchFrom? ['a', 'b'] 0 false).bind (·.named? ['n'])).map Span.text = some ['a'] := by
  have hprepare : Dialect.initial.flags.prepare "(?<é>a)(?<n>b)".toList [] =
      .ok ⟨"(?<é>a)(?<n>b)".toList, []⟩ := by
    rw [Dialect.initial_flags]
    rfl
  have hread : (⟨[], false⟩ : Reader).read "(?<é>a)(?<n>b)".toList =
      .ok [.copied ['('], .copied ['?'], .copied ['<'], .copied ['é'], .copied ['>'], .copied ['a'],
        .copied [')'], .opens (some ['n']), .copied ['b'], .copied [')']] := by decide +kernel
  have hprogram : Program.ofSource? "(?<é>a)(b)".toList ⟨false, false, false⟩ =
      some ⟨.seq (.group 1 (.seq (.atom (.literal 97 false)) .empty))
        (.seq (.group 2 (.seq (.atom (.literal 98 false)) .empty)) .empty), 2⟩ := by decide +kernel
  obtain ⟨e, he, hnode⟩ := Engine.ofSource_of_program hprogram
  obtain ⟨re, hre, hnames, hengine⟩ : ∃ re,
      (answer (regex "(?<é>a)(?<n>b)".toList []) initial).1 = .ok re ∧
        re.names = some [some ['n']] ∧ re.engine = e := by
    rw [answer_regex_initial]
    exact ⟨_, bind_eq_ok.2 ⟨_, hprepare, bind_eq_ok.2 ⟨_, hread, bind_eq_ok.2 ⟨e, he, rfl⟩⟩⟩, rfl,
      rfl⟩
  refine ⟨re, hre, hnames, by rw [hengine, hnode], ?_⟩
  have hcaptures : re.captures = fun f =>
      ⟨f.whole, f.groups, some [some ['n']], re.namespaced⟩ := by
    funext f
    simp only [Regex.captures, hnames]
  simp only [Regex.searchFrom?, Regex.searchAt?, Engine.search?, hengine, hnode, hcaptures]
  rfl

end Context

end ExtensibleRegex
