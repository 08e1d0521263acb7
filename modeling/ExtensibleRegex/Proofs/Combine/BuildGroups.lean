import ExtensibleRegex.Proofs.Combine.Anchors
import ExtensibleRegex.Proofs.Combine.Building
import ExtensibleRegex.Proofs.Combine.Insertion
import ExtensibleRegex.Proofs.Combine.Sources
import Mathlib.Tactic

/-!
# The groups of a build

A build puts subpatterns into an outer pattern and compiles what comes out once more. Its groups are
those of the outer pattern with the groups of the subpatterns between, and every reference is to the
group that it was to in its own pattern (`Context.build_groups`).
-/

namespace ExtensibleRegex

open Native

/-! ## 1. Texts with calls -/

theorem modeModifier?_of_calls {t : Text} {cs : List Call} (h : Calls .pattern t cs) :
    modeModifier? t = none := by
  cases h with
  | nil => rfl
  | plain hc _ => exact modeModifier?_of_head fun hparen => by cases hparen; cases hc
  | close _ => exact modeModifier?_of_head (by simp)
  | set _ => exact modeModifier?_of_head (by simp)
  | escape _ _ _ => exact modeModifier?_of_head (by simp)
  | number _ _ _ => exact modeModifier?_of_head (by simp [numberReference])
  | name _ _ _ _ _ => exact modeModifier?_of_head (by simp [nameReference])
  | capture hhead _ =>
    unfold modeModifier?
    split
    · rename_i heq
      cases heq
      exact absurd rfl hhead
    · rfl
  | named _ _ _ _ => rfl
  | @group kind w t _ opens _ =>
    cases hmode : modeModifier? ('(' :: '?' :: (w ++ t)) with
    | none => rfl
    | some modifier =>
      have hnone := lexeme?_of_modeModifier? hmode false false
      have hopening : (opening? ('?' :: (w ++ t))).map _ = none := hnone
      rw [opens.opening] at hopening
      cases hopening

theorem mentions_lexemes? {strict : Bool} {source : Text} {ls : List Lexeme}
    (h : lexemes? strict source = some ls) :
    ls.filterMap Lexeme.mention? = mentions .outside source := by
  unfold lexemes? at h
  split at h
  · rename_i found hfound
    split at h
    · exact mentions_lexAll? 0 source [] ls h
    · obtain rfl := Option.some.inj h
      exact mentions_lexAll? 0 source [] _ hfound
  · cases h

/-- The groups among mentions are the items that open them. -/
theorem length_groups (is : List Item) :
    ((is.filterMap Item.mention?).filterMap Mention.group?).length = (is.filterMap Item.name?).length := by
  induction is with
  | nil => rfl
  | cons i is ih =>
    cases i with
    | opens name => exact congrArg (· + 1) ih
    | refers n => exact ih
    | inserts name => exact ih

/-! ## 2. Patterns and their parts -/

namespace Context

/-- A pattern whose groups and references show in its expansion, which is a native pattern. -/
structure Shown (pattern : Text) (pieces : List Segment) : Prop where
  read : ∃ prepared, Dialect.initial.flags.prepare pattern [] = .ok prepared ∧
    (⟨prepared.flags, false⟩ : Reader).read prepared.pattern = .ok pieces
  clear : Reader.Clear .pattern pieces
  delimited : Reader.Delimited pieces
  lexemes : ∃ ls, lexAll? false false 0 (mergeEmptyGroups (Reader.render pieces)) [] = some ls ∧
    ∀ name ∈ captureNames ls, name = none
  no_name : ¬['\\', 'k', '<'] <:+: mergeEmptyGroups (Reader.render pieces)

variable {pattern : Text} {pieces : List Segment}

/-- **The part of a pattern** opens the groups and has the references that are read. -/
theorem Shown.part (h : Shown pattern pieces) : ∃ part, freshPart pattern [] = .ok part ∧
    part.pattern = mergeEmptyGroups (Reader.render pieces) ∧
    part.names = (if (Reader.names pieces).any Option.isSome then Reader.names pieces else []) ∧
    mentions .outside part.pattern = (Reader.items pieces).filterMap Item.mention? ∧
    part.WellFormed := by
  obtain ⟨prepared, hprepare, hread⟩ := h.read
  have hreads := Reader.reads_of_read hread
  have hmentions : mentions .outside (mergeEmptyGroups (Reader.render pieces)) =
      (Reader.items pieces).filterMap Item.mention? :=
    (mentions_mergeEmptyGroups _ _).trans (hreads.mentions_render h.clear h.delimited)
  have hpart : freshPart pattern [] = .ok
      ⟨mergeEmptyGroups (Reader.render pieces),
        if (Reader.names pieces).any Option.isSome then Reader.names pieces else []⟩ := by
    unfold freshPart Reader.expansion
    rw [hprepare]
    show (((⟨prepared.flags, false⟩ : Reader).read prepared.pattern) >>= _) >>= _ = _
    rw [hread]
    show Except.ok (Part.mk _ _) = _
    split <;> rfl
  refine ⟨_, hpart, rfl, rfl, hmentions, h.lexemes, h.no_name, ?_, fun name hname => ?_⟩
  · rw [hmentions]
    exact hreads.backward
  · simp only at hname
    split at hname
    · have hnamed := hreads.named rfl name hname
      exact ⟨hnamed.ne_nil, hnamed.isNameChar, hnamed.not_digits⟩
    · cases hname

/-- A part without its anchors. -/
def bare (part : Part) : Part := { part with pattern := stripAnchors part.pattern }

/-- A subpattern that is well-formed alone when its anchors are taken off, and that does not go on with
the parenthesis that it is put behind. -/
def Insertable (sub : Subpattern) : Prop :=
  ∀ part, freshSubpart [] sub = .ok part →
    (bare part).WellFormed ∧ (bare part).pattern.head? ≠ some '?'

/-- The groups and references that a part is put in with are those that it has. -/
theorem Insertable.items {sub : Subpattern} {part : Part} (h : Insertable sub)
    (hpart : freshSubpart [] sub = .ok part) :
    ((bare part).items false).filterMap Item.mention? = mentions .outside part.pattern := by
  obtain ⟨cs, -, hmentions⟩ := (h part hpart).1.exists_legible false
  exact hmentions.trans (mentions_stripAnchors part.pattern)

/-- Every part is that of a subpattern. -/
theorem of_freshSubparts {flags : Text} {subs : List (Text × Subpattern)} {parts : List (Text × Part)}
    (h : freshSubparts flags subs = .ok parts) : ∀ p ∈ parts, ∃ s ∈ subs, s.1 = p.1 ∧
      ∃ part, freshSubpart flags s.2 = .ok part ∧ p.2 = bare part := by
  obtain ⟨found, hfound, hreverse⟩ := bind_eq_ok.1 h
  obtain rfl := Except.ok.inj hreverse
  intro p hp
  obtain ⟨s, hs, hsub⟩ := exists_of_mapM_eq_ok hfound (List.mem_reverse.1 hp)
  obtain ⟨part, hpart, hsub⟩ := bind_eq_ok.1 hsub
  obtain rfl := Except.ok.inj hsub
  exact ⟨s, hs, rfl, part, hpart, rfl⟩

/-! ## 3. Builds -/

/-- What a regex without a mode modifier shows of a text with calls. -/
theorem items_of_freshRegex {t flags : Text} {cs : List Call} {re : Regex}
    (hn : flags.contains 'n' = false) (hx : flags.contains 'x' = false) (hcalls : Calls .pattern t cs)
    (h : freshRegex t flags = .ok re) : ∃ is ls, Resolves .empty cs is ∧ Distinct .empty is ∧
      Mention.Backward 0 (is.filterMap Item.mention?) ∧
      re.names = (if (is.filterMap Item.name?).any Option.isSome then some (is.filterMap Item.name?)
        else none) ∧
      re.engine.program.groups = (is.filterMap Item.name?).length ∧
      lexemes? re.engine.mode.unicode re.nativeSource = some ls ∧
      ls.filterMap Lexeme.mention? = is.filterMap Item.mention? := by
  obtain ⟨pieces, hread, hsource, -, -, -, hnames⟩ := read_of_freshRegex h (modeModifier?_of_calls hcalls)
  have hreads := Reader.reads_of_read hread
  have htold := Reader.told_of_calls (r := ⟨flags, false⟩) hn hx _ _ _ _ _ _ _ (Nat.lt_succ_self _) hcalls
    hreads
  obtain ⟨ls, p, hp, hprogram⟩ := Program.ofSource?_eq_some_iff.1 re.engine.program_eq
  have hmentions : ls.filterMap Lexeme.mention? = (Reader.items pieces).filterMap Item.mention? := by
    rw [mentions_lexemes? hp.lexed, hsource, mentions_mergeEmptyGroups]
    exact hreads.mentions_render htold.clear htold.delimited
  refine ⟨Reader.items pieces, ls, htold.resolves, ?_, hreads.backward, ?_, ?_, hp.lexed, hmentions⟩
  · unfold Distinct
    rw [names_after, Reader.names_items]
    exact hreads.nodup_names List.nodup_nil
  · rw [Reader.names_items]
    exact hnames
  · rw [hprogram, ← length_groups, ← hmentions, ← isSome_captureNames, List.length_map]

variable {c : Context} {flags : Text} {subs : List (Text × Subpattern)} {re : Regex}

/-- **A build keeps the groups of its patterns, and each reference with its group.** In a fresh context,
let a build without the flags `n` and `x` succeed whose outer pattern shows its groups and references,
and whose subpatterns are well-formed alone. The groups of the result are those of the outer pattern,
with those of a subpattern wherever it is put in, and the references are to the same groups as before,
which have opened. -/
theorem build_groups (h : c.Fresh) (hn : 'n' ∉ buildFlags pattern flags)
    (hx : 'x' ∉ buildFlags pattern flags) (houter : Shown pattern pieces)
    (hsubs : ∀ s ∈ subs, Insertable s.2) (hre : (answer (build pattern subs flags) c).1 = .ok re) :
    ∃ outer parts is ls, freshPart pattern [] = .ok outer ∧ freshSubparts [] subs = .ok parts ∧
      (outer.items true).filterMap Item.mention? = (Reader.items pieces).filterMap Item.mention? ∧
      (∀ s ∈ subs, ∀ part, freshSubpart [] s.2 = .ok part →
        ((bare part).items false).filterMap Item.mention? = mentions .outside part.pattern) ∧
      is = Part.composed outer parts ∧ Mention.Backward 0 (is.filterMap Item.mention?) ∧
      re.names = (if (is.filterMap Item.name?).any Option.isSome then some (is.filterMap Item.name?)
        else none) ∧
      re.engine.program.groups = (is.filterMap Item.name?).length ∧
      lexemes? re.engine.mode.unicode re.nativeSource = some ls ∧
      ls.filterMap Lexeme.mention? = is.filterMap Item.mention? := by
  rw [(answers_build pattern subs flags c h).1] at hre
  obtain ⟨t, ht, hre⟩ := bind_eq_ok.1 hre
  have hflags : partFlags flags = [] := by
    have hx' : 'x' ∉ flags := by
      intro hmem
      refine hx ?_
      unfold buildFlags
      cases modeModifier? pattern <;> simp [mem_keepLastFlags, hmem]
    unfold partFlags
    simp [hx']
  unfold freshText at ht
  rw [hflags] at ht
  obtain ⟨parts, hparts, ht⟩ := bind_eq_ok.1 ht
  obtain ⟨outer, hfound, ht⟩ := bind_eq_ok.1 ht
  obtain ⟨part, hpart, -, -, hmentions, hwell⟩ := houter.part
  obtain rfl := Except.ok.inj (hpart.symm.trans hfound)
  have hinsertable : ∀ p ∈ parts, p.2.WellFormed ∧ p.2.pattern.head? ≠ some '?' := by
    intro p hp
    obtain ⟨s, hs, -, inner, hinner, heq⟩ := of_freshSubparts hparts p hp
    rw [heq]
    exact hsubs s hs inner hinner
  obtain ⟨cs, hcalls, hcomposed⟩ := Part.calls_assemble hwell hinsertable ht
  obtain ⟨is, ls, hresolves, hdistinct, hbackward, hshown⟩ :=
    items_of_freshRegex (by simpa using hn) (by simpa using hx) hcalls hre
  refine ⟨part, parts, is, ls, hpart, hparts, ?_, fun s hs inner hinner => (hsubs s hs).items hinner,
    hcomposed is hresolves hdistinct, hbackward, hshown⟩
  obtain ⟨ds, -, hitems⟩ := hwell.exists_legible true
  exact hitems.trans hmentions

/-- A subpattern in a group of its own and in a group that does not capture, each time with a reference to
its own group, and references to a group of the outer pattern around them. -/
theorem build_groups_twice : ∃ re ls,
    (answer (build "(?<x>a)({{s}})\\k<x>{{s}}\\k<x>".toList [(['s'], .pattern "^(b)\\1$".toList)] [])
      initial).1 = .ok re ∧
    re.names = some [some ['x'], some ['s'], none, none] ∧ re.engine.program.groups = 4 ∧
    lexemes? re.engine.mode.unicode re.nativeSource = some ls ∧
    ls.filterMap Lexeme.mention? = [.opens false, .opens false, .opens false, .number ['3'],
      .number ['1'], .opens false, .number ['4'], .number ['1']] := by
  have hsub : freshPart "^(b)\\1$".toList [] = .ok ⟨"^(b)\\1$".toList, []⟩ :=
    @freshPart_of_map "^(b)\\1$".toList "^(b)\\1$".toList [none] rfl (by decide +kernel)
  have hsubs : freshSubparts [] [(['s'], .pattern "^(b)\\1$".toList)] =
      .ok [(['s'], ⟨"(b)\\1".toList, []⟩)] := by
    simp only [freshSubparts, freshSubpart, List.mapM_cons, List.mapM_nil, hsub]
    rfl
  have houter : freshPart "(?<x>a)({{s}})\\k<x>{{s}}\\k<x>".toList [] =
      .ok ⟨"(a)({{s}})\\1{{s}}\\1".toList, [some ['x'], none]⟩ :=
    @freshPart_of_map "(?<x>a)({{s}})\\k<x>{{s}}\\k<x>".toList "(a)({{s}})\\1{{s}}\\1".toList
      [some ['x'], none] rfl (by decide +kernel)
  have htext : freshText "(?<x>a)({{s}})\\k<x>{{s}}\\k<x>".toList
      [(['s'], .pattern "^(b)\\1$".toList)] [] =
        .ok "(?<x>a)(?<s>(b)\\3)\\k<x>(?:(b)\\4)\\k<x>".toList :=
    freshText_of_parts rfl hsubs houter rfl
  obtain ⟨re, hre, -⟩ := @exists_freshRegex_of_map
    "(?<x>a)(?<s>(b)\\3)\\k<x>(?:(b)\\4)\\k<x>".toList [] "(a)((b)\\3)\\1(?:(b)\\4)\\1".toList
    [some ['x'], some ['s'], none, none] _ rfl ⟨List.nodup_nil, List.forall_mem_nil _⟩ (by decide +kernel) rfl
  have hbuild := answer_build_of_text htext hre
  have hshown : Shown "(?<x>a)({{s}})\\k<x>{{s}}\\k<x>".toList
      [.opens (some ['x']), .copied ['a'], .copied [')'], .opens none, .copied ['\x7b'],
        .copied ['\x7b'], .copied ['s'], .copied ['\x7d'], .copied ['\x7d'], .copied [')'],
        .written ['\\', '1'], .copied ['\x7b'], .copied ['\x7b'], .copied ['s'], .copied ['\x7d'],
        .copied ['\x7d'], .written ['\\', '1']] := by
    refine ⟨⟨_, KnownFlags.prepare_of_known rfl (fun _ hf => absurd hf List.not_mem_nil) List.nodup_nil,
      by decide +kernel⟩, by decide, by decide, ⟨_, rfl, by decide⟩, by decide⟩
  have hinsertable : ∀ s ∈ [(['s'], Subpattern.pattern "^(b)\\1$".toList)], Insertable s.2 := by
    intro s hs part hpart
    obtain rfl := List.mem_singleton.1 hs
    obtain rfl := Except.ok.inj (hpart.symm.trans hsub)
    have hbare : bare ⟨"^(b)\\1$".toList, []⟩ = ⟨"(b)\\1".toList, []⟩ := rfl
    rw [hbare]
    exact ⟨⟨⟨_, rfl, by decide⟩, by decide, ⟨⟨by decide, by decide⟩, trivial⟩,
      fun name hname => absurd hname List.not_mem_nil⟩, by decide⟩
  obtain ⟨outer, parts, is, ls, houter', hparts', -, -, his, -, hnames, hgroups, hlexemes, hmentions⟩ :=
    build_groups fresh_initial (by decide) (by decide) hshown hinsertable hbuild
  obtain rfl := Except.ok.inj (houter.symm.trans houter')
  obtain rfl := Except.ok.inj (hsubs.symm.trans hparts')
  have hcomposed : is = [.opens (some ['x']), .opens (some ['s']), .opens none, .refers 3, .refers 1,
      .opens none, .refers 4, .refers 1] := by
    rw [his]
    decide +kernel
  subst hcomposed
  exact ⟨re, ls, hbuild, hnames, hgroups, hlexemes, hmentions⟩

/-- Of two comments behind a reference nothing is left, so that the reference goes on with the digit
behind them: the reference to the first group becomes one to the eleventh. -/
theorem build_groups_grown_reference : ∃ re,
    ((⟨[], false⟩ : Reader).read "(a)(b)(c)(d)(e)(f)(g)(h)(i)(j)(k)\\1(?#c)(?#d)1".toList).map
      Reader.items = .ok (List.replicate 11 (.opens none) ++ [.refers 1]) ∧
    (answer (build "(a)(b)(c)(d)(e)(f)(g)(h)(i)(j)(k)\\1(?#c)(?#d)1".toList [] []) initial).1 =
      .ok re ∧
    mentions .outside re.nativeSource = List.replicate 11 (.opens false) ++ [.number ['1', '1']] ∧
    re.allMatches "abcdefghijka1".toList = [] := by
  have houter : freshPart "(a)(b)(c)(d)(e)(f)(g)(h)(i)(j)(k)\\1(?#c)(?#d)1".toList [] =
      .ok ⟨"(a)(b)(c)(d)(e)(f)(g)(h)(i)(j)(k)\\11".toList, []⟩ :=
    @freshPart_of_map "(a)(b)(c)(d)(e)(f)(g)(h)(i)(j)(k)\\1(?#c)(?#d)1".toList
      "(a)(b)(c)(d)(e)(f)(g)(h)(i)(j)(k)\\11".toList (List.replicate 11 none) rfl (by decide +kernel)
  have htext : freshText "(a)(b)(c)(d)(e)(f)(g)(h)(i)(j)(k)\\1(?#c)(?#d)1".toList [] [] =
      .ok "(a)(b)(c)(d)(e)(f)(g)(h)(i)(j)(k)\\11".toList :=
    freshText_of_parts rfl rfl houter rfl
  obtain ⟨re, hre, hprogram, -, hsticky, hsource⟩ := @exists_freshRegex_of_map
    "(a)(b)(c)(d)(e)(f)(g)(h)(i)(j)(k)\\11".toList []
    "(a)(b)(c)(d)(e)(f)(g)(h)(i)(j)(k)\\11".toList (List.replicate 11 none) _ rfl
    ⟨List.nodup_nil, List.forall_mem_nil _⟩ (by decide +kernel) rfl
  have hnone : re.searchAt? (.first "abcdefghijka1".toList) re.sticky = none := by
    unfold Regex.searchAt? Engine.search?
    rw [hsticky, hprogram]
    rfl
  refine ⟨re, by decide +kernel, answer_build_of_text htext hre, ?_, ?_⟩
  · rw [hsource]
    decide +kernel
  · unfold Regex.allMatches Regex.matchesFrom
    rw [hnone]

end Context

end ExtensibleRegex
