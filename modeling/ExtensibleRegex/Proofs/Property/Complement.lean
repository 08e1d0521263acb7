import ExtensibleRegex.Proofs.Property.ClassReading
import ExtensibleRegex.Proofs.Property.Negation
import Mathlib.Tactic

/-!
# Negated properties in classes

Outside of a class a negated property is written as a class with a caret, and the engine takes its
complement. In a class there is no caret to write, so that the complement itself is written out. This
file compares the two:

* the expansion of a class that holds just a property escape (`expand_class`);
* what a class of class data matches, alone between the ends of a text of one code point
  (`ClassData.exists_program`);
* so in a context with properties both regexes match the same code points of the basic plane, and those
  that the property does not have, if the ranges of its data ascend
  (`Context.Furnished.regex_complement`).

If they do not ascend, what is written out still covers the complement. But it may hold code points of
the property, since it is written range by range (`Context.isMatch_class_descending`).
-/

namespace ExtensibleRegex

open Native

/-! ## 1. Property escapes in a class -/

/-- The pattern of a class that holds a property escape, from the start of a text to its end. -/
def classPattern (letter : Char) (name : Text) : Text :=
  '^' :: '[' :: (escapeText letter [] name ++ [']', '$'])

/-- What stands for a property with a class, without flag `A`, in either scope. -/
theorem propertyText_eq_ok {found : Captures} {e : PropertyEscape} {flags bmp : Text}
    {t : PropertyTable} {p : UnicodeProperty} {inverse : Bool} (scope : Scope)
    (he : PropertyEscape.ofCaptures found = .ok e) (htarget : t.target? e.name = some (p, inverse))
    (hbmp : p.bmp = some bmp) (hflags : 'A' ∉ flags) :
    propertyText found scope flags t = .ok (classText bmp scope (e.negated ^^ inverse)) := by
  have hresolve := t.resolve_eq e
  rw [htarget] at hresolve
  obtain ⟨key, hkey⟩ := hresolve
  have hplain : flags.contains 'A' = false := by simpa using hflags
  unfold propertyText
  rw [he]
  show (t.resolve e).bind _ = _
  rw [hkey]
  show (if flags.contains 'A' = true then _ else _) = _
  simp only [hplain, Bool.false_eq_true, if_false, hbmp]
  rfl

namespace Run

variable {s : RunSetting} {x : Run}

/-- A step at a bracket that opens a class with an escape. -/
theorem step_openClass (hs : s.KnowsProperties) (hscope : x.scope = .pattern) {rest : Text}
    (hahead : x.place.ahead = '[' :: '\\' :: rest) :
    x.step s = .running { x.write ['['] (x.place.advance 1) with scope := .charClass } := by
  have hfound : firstFound? Builtin.table x.scope s.flags ('[' :: '\\' :: rest) = none := by
    have hspace : Trigger.isSpace '[' = false := by decide
    have hblank : Trigger.blank ('[' :: '\\' :: rest) = none := by simp [Trigger.blank, hspace]
    simp [Builtin.table, firstFound?, Builtin.specs, Builtin.finders, TokenSpec.applies, hblank,
      Trigger.bareClass]
  rw [step_copy hs hahead (by decide) hfound]
  unfold copy
  rw [hahead, hscope]
  rfl

/-- A step at the bracket that closes a class. -/
theorem step_closeClass (hs : s.KnowsProperties) (hscope : x.scope = .charClass) {rest : Text}
    (hahead : x.place.ahead = ']' :: rest) :
    x.step s = .running { x.write [']'] (x.place.advance 1) with scope := .pattern } := by
  have hfound : firstFound? Builtin.table x.scope s.flags (']' :: rest) = none := by
    rw [hscope]
    simp [Builtin.table, firstFound?, Builtin.specs, Builtin.finders, TokenSpec.applies,
      TokenScope.admits]
  rw [step_copy hs hahead (by decide) hfound]
  unfold copy
  rw [hahead, hscope]
  rfl

/-- A step at the escape of a property in a class. -/
theorem step_escapeInClass (hs : s.KnowsProperties) (hsound : x.memory.properties.Sound)
    (hscope : x.scope = .charClass) {letter : Char} {name bmp rest : Text} {p : UnicodeProperty}
    {inverse : Bool} (hletter : letter = 'p' ∨ letter = 'P') (hname : '\x7d' ∉ name)
    (hcaret : name.head? ≠ some '^')
    (htarget : x.memory.properties.target? name = some (p, inverse)) (hbmp : p.bmp = some bmp)
    (hflags : 'A' ∉ s.flags)
    (hahead : x.place.ahead = '\\' :: letter :: '\x7b' :: ([] ++ (name ++ '\x7d' :: rest))) :
    ∃ memory, x.step s =
      .running { x.write (classText bmp .charClass (decide (letter = 'P') ^^ inverse))
        (propertyCaptures x.place [] name).whole.stop with memory } := by
  obtain ⟨memory, hstep⟩ := step_property hs hsound hletter (.inl ⟨rfl, hcaret⟩) hname hahead
  let e : PropertyEscape := ⟨'\\' :: letter :: '\x7b' :: ([] ++ (name ++ ['\x7d'])), name,
    letter = 'P' ∨ ([] : Text) ≠ []⟩
  have he : PropertyEscape.ofCaptures (propertyCaptures x.place [] name) = .ok e := by
    rw [ofCaptures_property hahead]
    exact if_neg fun h => h.2 rfl
  have htext := propertyText_eq_ok .charClass he htarget hbmp hflags
  have hnegated : e.negated = decide (letter = 'P') := by simp [e]
  rw [hnegated, ← hscope] at htext
  rw [htext] at hstep
  exact ⟨memory, hscope ▸ hstep⟩

end Run

section Expansion

variable {letter : Char} {name bmp flags : Text} {p : UnicodeProperty} {inverse : Bool}

/-- **The expansion of a class with a property escape.** -/
theorem expand_class {t : Token} (ht : t.IsProperty) (features : Features) {memory : Memory}
    (hsound : memory.properties.Sound) (hletter : letter = 'p' ∨ letter = 'P')
    (hname : '\x7d' ∉ name) (hcaret : name.head? ≠ some '^')
    (htarget : memory.properties.target? name = some (p, inverse)) (hbmp : p.bmp = some bmp)
    (hflags : 'A' ∉ flags) :
    (expand (t :: Dialect.initial.tokens) features ⟨classPattern letter name, flags⟩ memory).1 =
      .ok ⟨mergeEmptyGroups ('^' :: '[' ::
        (classText bmp .charClass (decide (letter = 'P') ^^ inverse) ++ [']', '$'])),
        Reader.nativeFlags flags, none⟩ := by
  let s : RunSetting := ⟨t :: Dialect.initial.tokens, flags⟩
  have hs : s.KnowsProperties := ⟨t, ht, rfl⟩
  -- the run before the escape
  let x : Run := .initial (classPattern letter name) features memory
  let x₁ : Run := x.write ['^'] (x.place.advance 1)
  let x₂ : Run := { x₁.write ['['] (x₁.place.advance 1) with scope := .charClass }
  have hescape : x₂.place.ahead = '\\' :: letter :: '\x7b' :: ([] ++ (name ++ '\x7d' :: [']', '$'])) := by
    show ((x.place.advance 1).advance 1).ahead = _
    rw [Place.advance_advance, Place.ahead_advance]
    show escapeText letter [] name ++ [']', '$'] = _
    simp [escapeText]
  have hstart : x.step s = .running x₁ := Run.step_anchor hs rfl rfl (.inl rfl)
  have hopen : x₁.step s = .running x₂ := by
    have hahead : x₁.place.ahead =
        '[' :: '\\' :: (letter :: '\x7b' :: ([] ++ (name ++ ['\x7d'])) ++ [']', '$']) := by
      show (x.place.advance 1).ahead = _
      rw [Place.ahead_advance]
      rfl
    exact Run.step_openClass hs rfl hahead
  obtain ⟨m, hstep⟩ := Run.step_escapeInClass (x := x₂) hs hsound rfl hletter hname hcaret htarget hbmp
    hflags hescape
  -- the run behind the escape
  let x₃ : Run := { x₂.write (classText bmp .charClass (decide (letter = 'P') ^^ inverse))
    (propertyCaptures x₂.place [] name).whole.stop with memory := m }
  have hrest : x₃.place.ahead = [']', '$'] := stop_propertyCaptures hescape
  let x₄ : Run := { x₃.write [']'] (x₃.place.advance 1) with scope := .pattern }
  have hrest' : x₄.place.ahead = ['$'] := by
    show (x₃.place.advance 1).ahead = _
    rw [Place.ahead_advance, hrest]
    rfl
  let x₅ : Run := x₄.write ['$'] (x₄.place.advance 1)
  have hclose : x₃.step s = .running x₄ := Run.step_closeClass hs rfl hrest
  have hstop : x₄.step s = .running x₅ := Run.step_anchor hs rfl hrest' (.inr rfl)
  have hend : x₅.step s = .finished x₅ := by
    have hnone : x₅.place.ahead = [] := by
      show (x₄.place.advance 1).ahead = _
      rw [Place.ahead_advance, hrest']
      rfl
    unfold Run.step
    exact if_pos ⟨rfl, List.isEmpty_iff.2 hnone⟩
  have hsteps : x.steps s 6 = .finished x₅ := by
    rw [Run.steps_of_running hstart, Run.steps_of_running hopen, Run.steps_of_running hstep,
      Run.steps_of_running hclose, Run.steps_of_running hstop, Run.steps, hend]
  have hflat : x₅.output.reverse.flatten = '^' :: '[' ::
      (classText bmp .charClass (decide (letter = 'P') ^^ inverse) ++ [']', '$']) := by
    simp [x₅, x₄, x₃, x₂, x₁, x, Run.write, Run.initial]
  have hnames : x₅.ledger.groupNames? = none := by
    simp [x₅, x₄, x₃, x₂, x₁, x, Run.write, Run.initial, Ledger.groupNames?, Ledger.hasNamed,
      Ledger.empty]
  unfold expand
  rw [Run.finish?_of_finished hsteps]
  simp only [Run.expansion, hflat, hnames]
  rfl

end Expansion

/-! ## 2. Classes between the ends of a text -/

namespace Native

/-- A class from the start of a text or line to its end. -/
def classNode (lines negated : Bool) (s : CodeSet) : Node :=
  .seq (.start lines) (.seq (.atom (.set negated s false)) (.seq (.stop lines) .empty))

/-- The program of a class between the ends of a text. -/
theorem ofSource?_classNode {mode : Mode} (hcase : mode.ignoreCase = false) {negated : Bool}
    {s : CodeSet} {cs : Text}
    (h : lexAll? mode.unicode mode.unicode 0 ('[' :: cs) [] = some [.set negated s]) :
    Program.ofSource? ('^' :: ('[' :: cs ++ ['$'])) mode =
      some ⟨classNode mode.multiline negated s, 0⟩ := by
  have hlex : lexAll? mode.unicode mode.unicode 0 ('^' :: ('[' :: cs ++ ['$'])) [] =
      some [.lineStart, .set negated s, .lineEnd] := by
    have hinert : Inert ['$'] := ⟨rfl, nofun⟩
    have hclass : lexAll? mode.unicode mode.unicode 0 ('[' :: cs) [.lineStart] =
        some [.lineStart, .set negated s] := by
      rw [lexAll?_read, h]
      rfl
    exact lexAll?_append hinert 0 _ _ _ (Nat.zero_le _) hclass
  refine (Program.reads_of_lexAll? hlex rfl rfl rfl).trans ?_
  rw [hcase]
  rfl

theorem run_classNode (lines negated : Bool) (s : CodeSet) (t : Track) :
    (classNode lines negated s).run .forward some t =
      if atStart lines t.place then
        (Node.atom (.set negated s false)).run .forward
          (fun u => if atStop lines u.place then some u else none) t
      else none := by
  have hstop : (Node.seq (.stop lines) .empty).run .forward some =
      fun u => if atStop lines u.place then some u else none := by
    funext u
    rw [Node.run_seq_forward]
    simp only [Node.run]
  have hinner : (Node.seq (.atom (.set negated s false)) (.seq (.stop lines) .empty)).run .forward some =
      (Node.atom (.set negated s false)).run .forward
        fun u => if atStop lines u.place then some u else none := by
    funext u
    rw [Node.run_seq_forward, hstop]
  unfold classNode
  rw [Node.run_seq_forward, hinner]
  simp only [Node.run]

/-- Between the ends of a text of one code point, a class matches what it admits. -/
theorem isSome_search?_classNode (lines negated : Bool) (s : CodeSet) (c : Char) :
    (Program.search? ⟨classNode lines negated s, 0⟩ (.first [c])).isSome =
      (s.contains c.toNat != negated) := by
  have hfirst : ((classNode lines negated s).run .forward some ⟨.first [c], []⟩).isSome =
      (s.contains c.toNat != negated) := by
    have hstart : atStart lines (Place.first [c]) = true := by cases lines <;> rfl
    have hadmits : (Atom.set negated s false).admits c = (s.contains c.toNat != negated) := rfl
    rw [run_classNode, if_pos hstart, ← hadmits]
    simp only [Node.run, Atom.step, Direction.next?, Place.next?, Place.first]
    cases (Atom.set negated s false).admits c <;> cases lines <;> rfl
  have hlater {p : Place} (hp : p.ahead = []) :
      Program.matchAt? ⟨classNode lines negated s, 0⟩ p = none := by
    have hnext : p.next? = none := (Place.next?_eq_none_iff p).2 (List.isEmpty_iff.2 hp)
    unfold Program.matchAt?
    simp only [run_classNode, Node.run, Atom.step, Direction.next?, hnext, ite_self]
  have hsearch : Program.search? ⟨classNode lines negated s, 0⟩ (.first [c]) =
      Program.matchAt? ⟨classNode lines negated s, 0⟩ (.first [c]) := by
    obtain ⟨q, hq, hahead⟩ : ∃ q, (Place.first [c]).next? = some (c, q) ∧ q.ahead = [] :=
      ⟨_, rfl, rfl⟩
    show Program.searchFrom _ [c] (.first [c]) = _
    simp only [Program.searchFrom, hq, hlater hahead]
    cases Program.matchAt? ⟨classNode lines negated s, 0⟩ (.first [c]) <;> rfl
  rw [← hfirst, hsearch]
  unfold Program.matchAt?
  cases (classNode lines negated s).run .forward some ⟨.first [c], []⟩ <;> rfl

end Native

/-- **A class of class data** matches the characters of its ranges, or the other ones behind a caret,
alone between the ends of a text. -/
theorem ClassData.exists_program {t : Text} {rs : List (Nat × Nat)} (h : ClassData t rs)
    (hpairs : PairsAlone t) {mode : Mode} (hcase : mode.ignoreCase = false) (negated : Bool) :
    ∃ P, Program.ofSource? (mergeEmptyGroups
        ('^' :: ('[' :: (if negated then '^' :: t else t) ++ [']', '$']))) mode = some P ∧
      ∀ c : Char, c.toNat ≤ 0xFFFF →
        (P.search? (.first [c])).isSome = (inRanges rs c.toNat != negated) := by
  obtain ⟨s, hs, hplain, hcaret⟩ := @ClassData.exists_members mode.unicode mode.unicode t rs h hpairs
  have hlex : lexAll? mode.unicode mode.unicode 0
      ('[' :: (mergeEmptyGroups (if negated then '^' :: t else t) ++ [']'])) [] =
        some [.set negated s] := by
    cases negated with
    | false => exact hplain
    | true =>
      have hmerged : mergeEmptyGroups ('^' :: t) = '^' :: merged t :=
        merged_cons (isPrefixOf_emptyGroup_of_ne (by decide) t)
      simp only [if_true, hmerged]
      exact hcaret
  have hmerged : mergeEmptyGroups ('^' :: ('[' :: (if negated then '^' :: t else t) ++ [']', '$'])) =
      '^' :: ('[' :: (mergeEmptyGroups (if negated then '^' :: t else t) ++ [']']) ++ ['$']) := by
    have hsplit (u : Text) : '^' :: ('[' :: u ++ [']', '$']) = '^' :: ('[' :: (u ++ [']']) ++ ['$']) := by
      simp
    rw [hsplit, mergeEmptyGroups_whole, UnicodeProperty.mergeEmptyGroups_class]
  refine ⟨_, (congrArg (Program.ofSource? · mode) hmerged).trans (ofSource?_classNode hcase hlex),
    fun c hc => ?_⟩
  rw [isSome_search?_classNode, hs c hc]

/-! ## 3. Regexes -/

theorem isMatch_single (re : Regex) (c : Char) :
    re.isMatch [c] = (re.engine.program.search? (.first [c])).isSome := by
  simp [Regex.isMatch, Regex.find?, Regex.searchAt?, Engine.search?]

namespace Context

variable {c : Context} {ps : List UnicodeProperty} {flags name bmp : Text} {p : UnicodeProperty}
  {inverse : Bool} {rs : List (Nat × Nat)}

/-- The regex of a class that holds a property escape, from the start of a text to its end. -/
abbrev classRegex (letter : Char) (name flags : Text) : ContextM Regex :=
  regex (classPattern letter name) flags

/-- Flags that leave the letters and the mode of property escapes as they are. -/
theorem known_of_mem {f : Char} (h : f ∈ ['g', 'm', 'n', 's', 'u', 'x', 'y']) :
    f ∈ ['A', 'g', 'i', 'm', 'n', 's', 'u', 'x', 'y'] := by
  simp only [List.mem_cons] at h ⊢
  tauto

theorem ignoreCase_nativeFlags (hflags : ∀ f ∈ flags, f ∈ ['g', 'm', 'n', 's', 'u', 'x', 'y']) :
    (Reader.nativeFlags flags).mode.ignoreCase = false := by
  show flags.contains 'i' = false
  rw [← Bool.not_eq_true, List.contains_iff_mem]
  intro hmem
  exact absurd (hflags 'i' hmem) (by decide)

section Answers

variable {letter : Char} (h : c.Furnished ps)
  (hflags : ∀ f ∈ flags, f ∈ ['g', 'm', 'n', 's', 'u', 'x', 'y']) (hnodup : flags.Nodup)
  (hname : '\x7d' ∉ name) (hcaret : name.head? ≠ some '^')
  (htarget : (ps.foldl PropertyTable.insert .empty).target? name = some (p, inverse))
  (hbmp : p.bmp = some bmp) (hletter : letter = 'p' ∨ letter = 'P')

include h hflags hnodup hname hcaret htarget hbmp hletter

/-- A property escape in a class, alone between the ends of a text. -/
theorem Furnished.exists_classRegex
    (hdata : ClassData (classText bmp .charClass (decide (letter = 'P') ^^ inverse)) rs)
    (hpairs : PairsAlone (classText bmp .charClass (decide (letter = 'P') ^^ inverse))) :
    ∃ re, (answer (classRegex letter name flags) c).1 = .ok re ∧
      ∀ d : Char, d.toNat ≤ 0xFFFF → re.isMatch [d] = inRanges rs d.toNat := by
  obtain ⟨P, hP, hmatch⟩ := hdata.exists_program hpairs (ignoreCase_nativeFlags hflags) false
  obtain ⟨re, hprogram, hre⟩ := exists_regexOf hP
  have hplain : 'A' ∉ flags := fun hA => absurd (hflags 'A' hA) (by decide)
  have hregex : (answer (classRegex letter name flags) c).1 = _ :=
    h.answer_regex_of_expand (.ok _) (fun f hf => known_of_mem (hflags f hf)) hnodup nofun
      fun t features memory ht hmemory => expand_class ht features (hmemory ▸ sound_foldl_insert ps)
        hletter hname hcaret (hmemory ▸ htarget) hbmp hplain
  refine ⟨_, hregex.trans (hre (classPattern letter name)), ?_⟩
  intro d hd
  rw [isMatch_single]
  show (re.engine.program.search? (.first [d])).isSome = _
  rw [hprogram, hmatch d hd, Bool.bne_false]

/-- A property escape by itself, between the ends of a text. -/
theorem Furnished.exists_plainRegex (hdata : ClassData bmp rs) (hpairs : PairsAlone bmp) :
    ∃ re, (answer (wholeRegex letter name flags) c).1 = .ok re ∧
      ∀ d : Char, d.toNat ≤ 0xFFFF →
        re.isMatch [d] = (inRanges rs d.toNat != (decide (letter = 'P') ^^ inverse)) := by
  obtain ⟨P, hP, hmatch⟩ := hdata.exists_program hpairs (ignoreCase_nativeFlags hflags)
    (decide (letter = 'P') ^^ inverse)
  obtain ⟨re, hprogram, hre⟩ := exists_regexOf hP
  have hplain : flags.contains 'A' = false := by
    rw [← Bool.not_eq_true, List.contains_iff_mem]
    intro hA
    exact absurd (hflags 'A' hA) (by decide)
  have hwritten : escapeWritten letter [] name flags (ps.foldl PropertyTable.insert .empty) =
      .ok (classText bmp .pattern (decide (letter = 'P') ^^ inverse)) := by
    refine escapeWritten_eq_ok.2 ⟨fun hdouble => hdouble.2 rfl, p, inverse, htarget, ?_⟩
    unfold UnicodeProperty.patternText?
    rw [hplain, hbmp]
    simp
  have hregex := h.answer_regex (u := ['^']) (v := ['$']) (fun f hf => known_of_mem (hflags f hf))
    hnodup (by simp) (by simp) hletter (.inl ⟨rfl, hcaret⟩) hname
  rw [hwritten] at hregex
  have hsame : ['^'] ++ (classText bmp .pattern (decide (letter = 'P') ^^ inverse) ++ ['$']) =
      '^' :: ('[' :: (if (decide (letter = 'P') ^^ inverse) = true then '^' :: bmp else bmp) ++
        [']', '$']) := by
    cases decide (letter = 'P') ^^ inverse <;> simp [classText]
  refine ⟨_, hregex.trans (Eq.trans ?_ (hre ('^' :: (escapeText letter [] name ++ ['$'])))), ?_⟩
  · rw [← hsame]
    rfl
  · intro d hd
    rw [isMatch_single]
    show (re.engine.program.search? (.first [d])).isSome = _
    rw [hprogram, hmatch d hd]

end Answers

/-- **Negated properties agree inside and outside of classes**, among the characters of the basic
plane. A class with a negated property always matches what the property does not have, and nothing
else if the ranges of its data ascend. -/
theorem Furnished.regex_complement (h : c.Furnished ps)
    (hflags : ∀ f ∈ flags, f ∈ ['g', 'm', 'n', 's', 'u', 'x', 'y']) (hnodup : flags.Nodup)
    (hname : '\x7d' ∉ name) (hcaret : name.head? ≠ some '^')
    (htarget : (ps.foldl PropertyTable.insert .empty).target? name = some (p, inverse))
    (hbmp : p.bmp = some bmp) (hdata : ClassData bmp rs) (hpairs : PairsAlone bmp)
    (hcomplement : PairsAlone (complementBmp bmp)) :
    (∃ ss, ClassData (complementBmp bmp) ss ∧
      (∀ n ≤ 0xFFFF, (inRanges rs n || inRanges ss n) = true) ∧
      (Ascending rs → ∀ n ≤ 0xFFFF, inRanges ss n = !inRanges rs n)) ∧
    ∃ re negated outside, (answer (classRegex 'p' name flags) c).1 = .ok re ∧
      (answer (classRegex 'P' name flags) c).1 = .ok negated ∧
      (answer (wholeRegex 'P' name flags) c).1 = .ok outside ∧
      ∀ d : Char, d.toNat ≤ 0xFFFF →
        outside.isMatch [d] = (inRanges rs d.toNat == inverse) ∧
        (re.isMatch [d] || negated.isMatch [d]) = true ∧
        (Ascending rs → negated.isMatch [d] = outside.isMatch [d] ∧
          outside.isMatch [d] = !re.isMatch [d]) := by
  have hgaps := hdata.complementBmp
  have hcovers {n : Nat} (hn : n ≤ 0xFFFF) : (inRanges rs n || inRanges (gaps 0 rs) n) = true := by
    cases hin : inRanges rs n with
    | true => rfl
    | false => exact inRanges_gaps_of_not hn rs (Nat.zero_le n) hin
  refine ⟨⟨_, hgaps, fun n hn => hcovers hn, fun hascend n hn => hascend.inRanges_gaps hn⟩, ?_⟩
  -- what stands in the class, for both letters: the data or the gaps
  have hclass {letter : Char} (hletter : letter = 'p' ∨ letter = 'P') :
      ∃ re, (answer (classRegex letter name flags) c).1 = .ok re ∧
        ∀ d : Char, d.toNat ≤ 0xFFFF → re.isMatch [d] =
          inRanges (if (decide (letter = 'P') ^^ inverse) = true then gaps 0 rs else rs) d.toNat := by
    refine h.exists_classRegex hflags hnodup hname hcaret htarget hbmp hletter ?_ ?_
    · cases decide (letter = 'P') ^^ inverse
      · exact hdata
      · exact hgaps
    · cases decide (letter = 'P') ^^ inverse
      · exact hpairs
      · exact hcomplement
  obtain ⟨re, hre, hmatch⟩ := hclass (.inl rfl)
  obtain ⟨negated, hnegated, hmatch'⟩ := hclass (.inr rfl)
  obtain ⟨outside, houtside, hmatch''⟩ := h.exists_plainRegex hflags hnodup hname hcaret htarget hbmp
    (.inr rfl) hdata hpairs
  refine ⟨re, negated, outside, hre, hnegated, houtside, ?_⟩
  intro d hd
  rw [hmatch d hd, hmatch' d hd, hmatch'' d hd]
  have hcover := hcovers hd
  cases inverse with
  | false =>
    refine ⟨by simp, hcover, ?_⟩
    intro hascend
    have hexact := hascend.inRanges_gaps hd
    simp [hexact]
  | true =>
    refine ⟨by simp, by simpa [Bool.or_comm] using hcover, ?_⟩
    intro hascend
    have hexact := hascend.inRanges_gaps hd
    simp [hexact]

/-- A property with two ranges, and its complement, where lines are minded. -/
theorem regex_complement_letter :
    let letter : UnicodeProperty := { name := "Letter".toList, bmp := some "A-Za-z".toList }
    let c := (answer (addProperties [letter]) initial).2
    ∃ re negated outside, (answer (classRegex 'p' "Letter".toList ['m', 'u']) c).1 = .ok re ∧
      (answer (classRegex 'P' "Letter".toList ['m', 'u']) c).1 = .ok negated ∧
      (answer (wholeRegex 'P' "Letter".toList ['m', 'u']) c).1 = .ok outside ∧
      ∀ d : Char, d.toNat ≤ 0xFFFF → negated.isMatch [d] = outside.isMatch [d] ∧
        outside.isMatch [d] = !re.isMatch [d] := by
  intro letter c
  have hc : c.Furnished [letter] := furnished_initial (by decide)
  have hflags : ∀ f ∈ ['m', 'u'], f ∈ ['g', 'm', 'n', 's', 'u', 'x', 'y'] := by simp
  have hname : '\x7d' ∉ "Letter".toList := by decide
  have hdata : ClassData "A-Za-z".toList [(65, 90), (97, 122)] :=
    .range (.plain (by decide) (by decide)) (.plain (by decide) (by decide)) (by decide)
      (.range (.plain (by decide) (by decide)) (.plain (by decide) (by decide)) (by decide) .nil)
  obtain ⟨-, re, negated, outside, hre, hnegated, houtside, hall⟩ := hc.regex_complement hflags
    (by decide) hname (by decide) rfl rfl hdata (by decide) (by decide +kernel)
  exact ⟨re, negated, outside, hre, hnegated, houtside, fun d hd => (hall d hd).2.2 (by decide)⟩

/-- **Ranges that descend are not left out of the complement.** Of the data `ba`, the gap before `b`
holds `a`, and the gap behind `a` holds `b`. -/
theorem isMatch_class_descending :
    let p : UnicodeProperty := { name := ['X'], bmp := some ['b', 'a'] }
    let c := (answer (addProperties [p]) initial).2
    ClassData ['b', 'a'] [(98, 98), (97, 97)] ∧
      ∃ re negated, (answer (classRegex 'p' ['X'] []) c).1 = .ok re ∧
        (answer (classRegex 'P' ['X'] []) c).1 = .ok negated ∧
        re.isMatch ['a'] = true ∧ negated.isMatch ['a'] = true := by
  intro p c
  have hc : c.Furnished [p] := furnished_initial (by decide)
  have hflags : ∀ f ∈ [], f ∈ ['g', 'm', 'n', 's', 'u', 'x', 'y'] := nofun
  have hname : '\x7d' ∉ ['X'] := by decide
  have hdata : ClassData ['b', 'a'] [(98, 98), (97, 97)] :=
    .point (.plain (by decide) (by decide)) (.point (.plain (by decide) (by decide)) .nil)
  obtain ⟨re, hre, hmatch⟩ := hc.exists_classRegex hflags .nil hname (by decide) rfl rfl (.inl rfl)
    hdata (by decide)
  obtain ⟨negated, hnegated, hother⟩ := hc.exists_classRegex hflags .nil hname (by decide) rfl rfl
    (.inr rfl) hdata.complementBmp (by decide +kernel)
  refine ⟨hdata, re, negated, hre, hnegated, ?_, ?_⟩
  · rw [hmatch 'a' (by decide)]
    decide
  · rw [hother 'a' (by decide)]
    decide

end Context

end ExtensibleRegex
