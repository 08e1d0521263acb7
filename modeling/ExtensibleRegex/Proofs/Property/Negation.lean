import ExtensibleRegex.Proofs.Property.Meaning
import ExtensibleRegex.Proofs.Property.Patterns
import Mathlib.Tactic

/-!
# Negated properties

A property escape negates in three ways: with a capital letter, with a caret, and through a
property that is declared as the inverse of another one. This file shows that they agree:

* a name stands for a property or for its complement (`PropertyTable.target?`), and an escape is
  written accordingly (`PropertyEscape.written_eq_ok`);
* what is written for a property and for its complement is `Opposite`
  (`UnicodeProperty.Proper.opposite_patternText`);
* so in a context with properties the escapes with and without a capital letter share out the code
  points, and a caret and an inverse property say what a capital letter says
  (`Context.Furnished.regex_property`).

One declaration as an inverse is followed, and no more. A property that is declared as the inverse of
an inverse is not the complement of it (`Context.isMatch_inverse_of_inverse`), so the properties in
between have to be left out (`PropertyTable.Chained`).
-/

namespace ExtensibleRegex

open Native

/-! ## 1. What names stand for -/

namespace PropertyTable

variable {t : PropertyTable} {name : Text} {p : UnicodeProperty}

/-- The property that a name stands for, and whether its complement is meant. -/
def target? (t : PropertyTable) (name : Text) : Option (UnicodeProperty × Bool) :=
  match t.find? name with
  | none => none
  | some p =>
    match p.inverseOf with
    | none => some (p, false)
    | some target => (t.find? target).map fun q => (q, true)

/-- A name is declared as the inverse of a property that is itself declared as an inverse. -/
def Chained (t : PropertyTable) (name : Text) : Prop :=
  ∃ p target q, t.find? name = some p ∧ p.inverseOf = some target ∧ t.find? target = some q ∧
    q.inverseOf.isSome = true

/-- A name is declared as the inverse of another one, or of another name of the same property. -/
def InverseOf (t : PropertyTable) (name other : Text) : Prop :=
  ∃ p target, t.find? name = some p ∧ p.inverseOf = some target ∧ t.find? target = t.find? other

theorem mem_entries_foldl_insert : ∀ (ps : List UnicodeProperty) (t : PropertyTable) {key : Text},
    (key, p) ∈ (ps.foldl insert t).entries → p ∈ ps ∨ (key, p) ∈ t.entries
  | [], _, _, h => .inr h
  | q :: ps, t, key, h => by
      rcases mem_entries_foldl_insert ps (t.insert q) h with hp | hp
      · exact .inl (List.mem_cons_of_mem q hp)
      · unfold insert at hp
        rcases List.mem_cons.1 hp with heq | hp
        · cases heq
          exact .inl List.mem_cons_self
        · cases hother : q.otherName with
          | none =>
            rw [hother] at hp
            exact .inr hp
          | some other =>
            rw [hother] at hp
            rcases List.mem_cons.1 hp with heq | hp
            · cases heq
              exact .inl List.mem_cons_self
            · exact .inr hp

/-- What a table with some properties finds is one of them. -/
theorem mem_of_find? {ps : List UnicodeProperty} (h : (ps.foldl insert .empty).find? name = some p) :
    p ∈ ps := by
  rcases mem_entries_foldl_insert ps .empty (mem_of_lookup_eq_some h) with hp | hp
  · exact hp
  · cases hp

theorem exists_find?_of_target? {inverse : Bool} (h : t.target? name = some (p, inverse)) :
    ∃ n, t.find? n = some p := by
  unfold target? at h
  split at h
  · cases h
  · rename_i q hq
    split at h
    · cases h
      exact ⟨name, hq⟩
    · rename_i target _
      obtain ⟨q, hq, h⟩ := Option.map_eq_some_iff.1 h
      cases h
      exact ⟨target, hq⟩

/-- Unless declarations are chained, a name stands for a property that is not an inverse. -/
theorem inverseOf_of_target? {inverse : Bool} (h : t.target? name = some (p, inverse))
    (hchain : ¬t.Chained name) : p.inverseOf = none := by
  unfold target? at h
  split at h
  · cases h
  · rename_i q hq
    split at h
    · rename_i hinverse
      cases h
      exact hinverse
    · rename_i target htarget
      obtain ⟨r, hr, h⟩ := Option.map_eq_some_iff.1 h
      cases h
      rw [← Option.not_isSome_iff_eq_none]
      exact fun hsome => hchain ⟨q, target, _, hq, htarget, hr, hsome⟩

/-- What a declared inverse stands for: the complement of the other property. -/
theorem InverseOf.target? {other : Text} (h : t.InverseOf name other) (hchain : ¬t.Chained name)
    {inverse : Bool} (hother : t.target? other = some (p, inverse)) :
    t.target? name = some (p, !inverse) := by
  obtain ⟨q, target, hq, htarget, hsame⟩ := h
  unfold PropertyTable.target? at hother ⊢
  cases hfind : t.find? other with
  | none =>
    rw [hfind] at hother
    cases hother
  | some r =>
    have hnone : r.inverseOf = none := by
      rw [← Option.not_isSome_iff_eq_none]
      exact fun hsome => hchain ⟨q, target, r, hq, htarget, hsame.trans hfind, hsome⟩
    simp only [hfind, hnone] at hother
    cases hother
    simp only [hq, htarget, hsame, hfind]
    rfl

end PropertyTable

/-- A property that is accepted and is no inverse has data. -/
theorem UnicodeProperty.hasData_of_check {p : UnicodeProperty} (h : p.check = .ok ())
    (hinverse : p.inverseOf = none) : p.HasData := by
  unfold UnicodeProperty.check at h
  unfold UnicodeProperty.HasData
  split at h
  · cases h
  · split at h
    · cases h
    · rename_i hdata
      rw [hinverse] at hdata
      cases hbmp : p.bmp <;> cases hastral : p.astral <;> simp_all

/-- An escape refers to the property that its name stands for. -/
theorem PropertyTable.resolve_eq (t : PropertyTable) (e : PropertyEscape) :
    match t.target? e.name with
    | none => ∃ err, t.resolve e = .error err
    | some (p, inverse) => ∃ key, t.resolve e = .ok (key, p, e.negated ^^ inverse) := by
  unfold target? resolve
  cases t.find? e.name with
  | none => exact ⟨_, rfl⟩
  | some p =>
    cases hinverse : p.inverseOf with
    | none => simp [hinverse]
    | some target =>
      cases hq : t.find? target with
      | none => simp [hinverse, hq]
      | some q => simp [hinverse, hq]

/-- **What is written for a property escape**: the pattern of the property that the name stands
for, or of its complement. -/
theorem PropertyEscape.written_eq_ok {e : PropertyEscape} {flags w : Text} {t : PropertyTable} :
    e.written flags t = .ok w ↔ ∃ p inverse, t.target? e.name = some (p, inverse) ∧
      p.patternText? flags (e.negated ^^ inverse) = some w := by
  have hresolve := t.resolve_eq e
  unfold written
  cases htarget : t.target? e.name with
  | none =>
    rw [htarget] at hresolve
    obtain ⟨err, herr⟩ := hresolve
    rw [herr]
    exact ⟨nofun, nofun⟩
  | some r =>
    obtain ⟨p, inverse⟩ := r
    rw [htarget] at hresolve
    obtain ⟨key, hkey⟩ := hresolve
    rw [hkey]
    show (match p.patternText? flags (e.negated ^^ inverse) with
      | none => throw (Error.property (.needsAstral e.token))
      | some text => pure text) = Except.ok w ↔ _
    constructor
    · intro h
      refine ⟨p, inverse, rfl, ?_⟩
      cases htext : p.patternText? flags (e.negated ^^ inverse) with
      | none => rw [htext] at h; cases h
      | some text => rw [htext] at h; cases h; rfl
    · rintro ⟨q, inverse', heq, htext⟩
      cases heq
      rw [htext]
      rfl

/-! ## 2. Patterns and their complements -/

/-- **What is written for a property and for its complement** is opposite, without flag `A` and
with it. -/
theorem UnicodeProperty.Proper.opposite_patternText {p : UnicodeProperty} (h : p.Proper)
    (htame : ∀ a, p.astral = some a → Tame a) (hdata : p.HasData) {flags v w : Text}
    (hflags : flags = [] ∨ flags = ['A']) (hv : p.patternText? flags false = some v)
    (hw : p.patternText? flags true = some w) {P : Program}
    (hP : Program.ofSource? (mergeEmptyGroups ('^' :: (v ++ ['$']))) (Reader.nativeFlags flags).mode =
      some P) :
    Opposite (Reader.nativeFlags flags).mode (mergeEmptyGroups v) (mergeEmptyGroups w) := by
  have hmerged := h.mergedData htame
  rw [mergeEmptyGroups_whole] at hP
  rcases hflags with rfl | rfl
  · obtain ⟨b, hbmp, rfl⟩ := Option.map_eq_some_iff.1 hv
    obtain ⟨b', hbmp', rfl⟩ := Option.map_eq_some_iff.1 hw
    cases hbmp.symm.trans hbmp'
    have hb : p.mergedData.bmp = some (mergeEmptyGroups b) := congrArg (Option.map _) hbmp
    have hplain : mergeEmptyGroups (classText b .pattern false) =
        '[' :: (mergeEmptyGroups b ++ [']']) := mergeEmptyGroups_class b
    have hnegated : mergeEmptyGroups (classText b .pattern true) =
        '[' :: '^' :: (mergeEmptyGroups b ++ [']']) := by
      have hcaret : mergeEmptyGroups ('^' :: b) = '^' :: mergeEmptyGroups b :=
        (merged_append_cons (c := '^') (by decide) b 0 [] (Nat.le_refl _)).1
      have hclass := mergeEmptyGroups_class ('^' :: b)
      rw [hcaret] at hclass
      exact hclass
    rw [hplain] at hP ⊢
    rw [hnegated]
    exact opposite_class (hmerged.classBody _ hb) (hmerged.caret _ hb) hP
  · cases hv
    cases hw
    have hdata' : p.mergedData.HasData := by
      simpa [HasData, UnicodeProperty.mergedData] using hdata
    rw [h.merged_pointPattern hdata] at hP ⊢
    rw [h.merged_pointPattern hdata]
    exact hmerged.opposite hdata' hP

/-! ## 3. Regexes -/

/-- What stands for a property escape with braces, by the property that its name stands for. -/
theorem escapeWritten_eq_ok {letter : Char} {caret name flags w : Text} {t : PropertyTable} :
    escapeWritten letter caret name flags t = .ok w ↔ ¬(letter = 'P' ∧ caret ≠ []) ∧
      ∃ p inverse, t.target? name = some (p, inverse) ∧
        p.patternText? flags (decide (letter = 'P' ∨ caret ≠ []) ^^ inverse) = some w := by
  unfold escapeWritten
  by_cases hdouble : letter = 'P' ∧ caret ≠ []
  · rw [if_pos hdouble]
    exact ⟨nofun, fun h => absurd hdouble h.1⟩
  · rw [if_neg hdouble, PropertyEscape.written_eq_ok]
    exact ⟨fun h => ⟨hdouble, h⟩, And.right⟩

/-- The regex that a pattern gets whose native pattern and flags are given. -/
def regexOf (flags pattern native : Text) : Except Error Regex := do
  let engine ← Engine.ofSource native (Reader.nativeFlags flags).mode
  return { engine
           global := (Reader.nativeFlags flags).global
           sticky := (Reader.nativeFlags flags).sticky
           names := none
           source := some pattern
           flags := some (orderFlags flags)
           namespaced := false }

theorem regexOf_eq_ok {flags pattern native : Text} {re : Regex}
    (h : regexOf flags pattern native = .ok re) :
    Program.ofSource? native (Reader.nativeFlags flags).mode = some re.engine.program := by
  obtain ⟨e, he, h⟩ := bind_eq_ok.1 h
  cases h
  obtain ⟨hsource, hmode⟩ := Engine.ofSource_eq_ok.1 he
  have hprogram := e.program_eq
  rwa [hsource, hmode] at hprogram

/-- A well-formed native pattern has a regex, which is the same for all patterns but for what was
written. -/
theorem exists_regexOf {flags native : Text} {P : Program}
    (h : Program.ofSource? native (Reader.nativeFlags flags).mode = some P) :
    ∃ re : Regex, re.engine.program = P ∧ ∀ pattern,
      regexOf flags pattern native = .ok { re with source := some pattern } := by
  obtain ⟨e, he, hprogram⟩ := Engine.ofSource_of_program h
  exact ⟨⟨e, _, _, none, none, _, false⟩, hprogram, fun _ => bind_eq_ok.2 ⟨e, he, rfl⟩⟩

namespace Context

variable {c : Context} {ps : List UnicodeProperty} {flags name : Text}

/-- The regex of `\p` or `\P` with a name in braces, after a caret if there is one. -/
abbrev escapeRegex (letter : Char) (caret name flags : Text) : ContextM Regex :=
  regex (escapeText letter caret name) flags

/-- The regex of `\p` or `\P` with a name in braces, from the start of a text to its end. -/
abbrev wholeRegex (letter : Char) (name flags : Text) : ContextM Regex :=
  regex ('^' :: (escapeText letter [] name ++ ['$'])) flags

/-- The flags of the two modes are known and not repeated. -/
theorem known_flags (h : flags = [] ∨ flags = ['A']) :
    (∀ f ∈ flags, f ∈ ['A', 'g', 'i', 'm', 'n', 's', 'u', 'x', 'y']) ∧ flags.Nodup := by
  rcases h with rfl | rfl <;> simp

section Answers

variable {letter : Char} {caret : Text} (h : c.Furnished ps) (hflags : flags = [] ∨ flags = ['A'])
  (hletter : letter = 'p' ∨ letter = 'P') (hname : '\x7d' ∉ name)

include h hflags hletter hname

theorem Furnished.answer_escapeRegex
    (hcaret : caret = [] ∧ name.head? ≠ some '^' ∨ caret = ['^']) :
    (answer (escapeRegex letter caret name flags) c).1 =
      (escapeWritten letter caret name flags (ps.foldl PropertyTable.insert .empty)).bind fun text =>
        regexOf flags (escapeText letter caret name) (mergeEmptyGroups text) := by
  have hknown := known_flags hflags
  have hregex := h.answer_regex (u := []) (v := []) hknown.1 hknown.2 (by simp) (by simp) hletter
    hcaret hname
  simp only [List.nil_append, List.append_nil] at hregex
  exact hregex

theorem Furnished.answer_wholeRegex (hcaret : name.head? ≠ some '^') :
    (answer (wholeRegex letter name flags) c).1 =
      (escapeWritten letter [] name flags (ps.foldl PropertyTable.insert .empty)).bind fun text =>
        regexOf flags ('^' :: (escapeText letter [] name ++ ['$']))
          (mergeEmptyGroups ('^' :: (text ++ ['$']))) := by
  have hknown := known_flags hflags
  exact h.answer_regex (u := ['^']) (v := ['$']) hknown.1 hknown.2 (by simp) (by simp) hletter
    (.inl ⟨rfl, hcaret⟩) hname

end Answers

/-- A caret behind a capital letter is refused. -/
theorem Furnished.head?_ne_caret (h : c.Furnished ps) (hflags : flags = [] ∨ flags = ['A'])
    (hname : '\x7d' ∉ name) {re : Regex} (hre : (answer (wholeRegex 'P' name flags) c).1 = .ok re) :
    name.head? ≠ some '^' := by
  intro hhead
  obtain ⟨rest, rfl⟩ := List.head?_eq_some_iff.1 hhead
  have hknown := known_flags hflags
  have hregex := @Furnished.answer_regex _ _ h _ ['^'] ['$'] ['^'] rest 'P' hknown.1 hknown.2
    (by simp) (by simp) (.inr rfl) (.inr rfl) fun hmem => hname (List.mem_cons_of_mem _ hmem)
  cases hregex.symm.trans hre

/-- **Property escapes respect negation.** -/
theorem Furnished.regex_property (h : c.Furnished ps) (hproper : ∀ p ∈ ps, p.Proper)
    (htame : ∀ p ∈ ps, ∀ a, p.astral = some a → Tame a) (hflags : flags = [] ∨ flags = ['A'])
    (hname : '\x7d' ∉ name) (hchain : ¬(ps.foldl PropertyTable.insert .empty).Chained name)
    {re re' : Regex} (hre : (answer (wholeRegex 'p' name flags) c).1 = .ok re)
    (hre' : (answer (wholeRegex 'P' name flags) c).1 = .ok re') :
    (∀ d, re.isMatch [d] = !re'.isMatch [d]) ∧
    ∃ negated, (answer (escapeRegex 'P' [] name flags) c).1 = .ok negated ∧
      (∃ r, (answer (escapeRegex 'p' ['^'] name flags) c).1 = .ok r ∧
        { r with source := negated.source } = negated) ∧
      ∀ other, '\x7d' ∉ other → other.head? ≠ some '^' →
        (ps.foldl PropertyTable.insert .empty).InverseOf other name →
        ¬(ps.foldl PropertyTable.insert .empty).Chained other →
        ∃ r, (answer (escapeRegex 'p' [] other flags) c).1 = .ok r ∧
          { r with source := negated.source } = negated := by
  have hcaret := h.head?_ne_caret hflags hname hre'
  rw [h.answer_wholeRegex hflags (.inl rfl) hname hcaret] at hre
  rw [h.answer_wholeRegex hflags (.inr rfl) hname hcaret] at hre'
  obtain ⟨w, hw, hre⟩ := bind_eq_ok.1 hre
  obtain ⟨w', hw', hre'⟩ := bind_eq_ok.1 hre'
  obtain ⟨-, p, inverse, htarget, hpattern⟩ := escapeWritten_eq_ok.1 hw
  obtain ⟨-, p', inverse', htarget', hpattern'⟩ := escapeWritten_eq_ok.1 hw'
  cases htarget.symm.trans htarget'
  obtain ⟨n, hfind⟩ := PropertyTable.exists_find?_of_target? htarget
  have hmem := PropertyTable.mem_of_find? hfind
  have hdata := UnicodeProperty.hasData_of_check (h.dialect.checked p hmem)
    (PropertyTable.inverseOf_of_target? htarget hchain)
  have hP := regexOf_eq_ok hre
  have hP' := regexOf_eq_ok hre'
  -- one of the two texts is the pattern of the property, the other one that of its complement
  have hopposite : Opposite (Reader.nativeFlags flags).mode (mergeEmptyGroups w)
      (mergeEmptyGroups w') := by
    have hspec {v v' : Text} := @UnicodeProperty.Proper.opposite_patternText p
      (hproper p hmem) (htame p hmem) hdata flags v v' hflags
    cases inverse with
    | false => exact hspec hpattern hpattern' hP
    | true => exact (hspec hpattern' hpattern hP').symm
  refine ⟨?_, ?_⟩
  · obtain ⟨P, Q, hwhole, hwhole', hPQ⟩ := hopposite.whole
    rw [mergeEmptyGroups_whole] at hP hP'
    cases hP.symm.trans hwhole
    cases hP'.symm.trans hwhole'
    intro d
    have hmatch (r : Regex) : r.isMatch [d] = (r.engine.program.search? (.first [d])).isSome := by
      simp [Regex.isMatch, Regex.find?, Regex.searchAt?, Engine.search?]
    rw [hmatch, hmatch]
    exact hPQ d
  · obtain ⟨Q, hQ⟩ := hopposite.right
    obtain ⟨negated, -, hnegated⟩ := exists_regexOf hQ
    have hbind {t : Text} {r : Except Error Text} (hr : r = .ok w') :
        (r.bind fun text => regexOf flags t (mergeEmptyGroups text)) =
          .ok { negated with source := some t } := by
      rw [hr]
      exact hnegated t
    refine ⟨_, (h.answer_escapeRegex hflags (.inr rfl) hname (.inl ⟨rfl, hcaret⟩)).trans (hbind hw'),
      ⟨_, (h.answer_escapeRegex hflags (.inl rfl) hname (.inr rfl)).trans (hbind ?_), rfl⟩, ?_⟩
    · exact escapeWritten_eq_ok.2 ⟨by simp, p, inverse, htarget, hpattern'⟩
    · intro other hother hhead hinverse hplain
      refine ⟨_, (h.answer_escapeRegex hflags (.inl rfl) hother (.inl ⟨rfl, hhead⟩)).trans
        (hbind ?_), rfl⟩
      refine escapeWritten_eq_ok.2 ⟨by simp, p, !inverse, hinverse.target? hplain htarget, ?_⟩
      have hsame : (decide ('p' = 'P' ∨ ([] : Text) ≠ []) ^^ !inverse) =
          (decide ('P' = 'P' ∨ ([] : Text) ≠ []) ^^ inverse) := by
        cases inverse <;> rfl
      rw [hsame]
      exact hpattern'

section Exists

variable {w : Text} {P : Program} (h : c.Furnished ps) (letter : Char) (name : Text)
  (hletter : letter = 'p' ∨ letter = 'P') (hname : '\x7d' ∉ name) (hcaret : name.head? ≠ some '^')
  (hw : escapeWritten letter [] name ['A'] (ps.foldl PropertyTable.insert .empty) = .ok w)

include h hletter hname hcaret hw

theorem Furnished.exists_wholeRegex
    (hP : Program.ofSource? (mergeEmptyGroups ('^' :: (w ++ ['$']))) pointMode = some P) :
    ∃ re, (answer (wholeRegex letter name ['A']) c).1 = .ok re ∧ re.engine.program = P := by
  obtain ⟨re, hre, hall⟩ := @exists_regexOf ['A'] _ P hP
  rw [h.answer_wholeRegex (.inr rfl) hletter hname hcaret, hw]
  exact ⟨_, hall _, hre⟩

theorem Furnished.exists_escapeRegex
    (hP : Program.ofSource? (mergeEmptyGroups w) pointMode = some P) :
    ∃ re, (answer (escapeRegex letter [] name ['A']) c).1 = .ok re ∧ re.engine.program = P := by
  obtain ⟨re, hre, hall⟩ := @exists_regexOf ['A'] _ P hP
  rw [h.answer_escapeRegex (.inr rfl) hletter hname (.inl ⟨rfl, hcaret⟩), hw]
  exact ⟨_, hall _, hre⟩

end Exists

/-- A property with two names, and its inverse, under flag `A`. -/
theorem regex_property_letter :
    let letter : UnicodeProperty :=
      ⟨"Letter".toList, some ['L'], some "A-Za-z".toList, some "[𐀀-𐏿]".toList, none, false⟩
    let sign : UnicodeProperty := { name := "Sign".toList, inverseOf := some ['L'] }
    let c := (answer (addProperties [letter, sign]) initial).2
    ∃ re re', (answer (wholeRegex 'p' "Letter".toList ['A']) c).1 = .ok re ∧
      (answer (wholeRegex 'P' "Letter".toList ['A']) c).1 = .ok re' ∧
      (∀ d, re.isMatch [d] = !re'.isMatch [d]) ∧
      ∃ negated r, (answer (escapeRegex 'P' [] "Letter".toList ['A']) c).1 = .ok negated ∧
        (answer (escapeRegex 'p' [] "Sign".toList ['A']) c).1 = .ok r ∧
        { r with source := negated.source } = negated := by
  intro letter sign c
  have hc : c.Furnished [letter, sign] := furnished_initial (by decide)
  have hastral : lexAll? true true 0 "[𐀀-𐏿]".toList [] =
      some [.set false (.ranges [(0x10000, 0x103FF)])] := by decide +kernel
  have hletter : letter.Proper := {
    classBody := fun b hb => by
      cases hb
      repeat' first | exact .close | refine .other (by decide) (by decide) ?_
    caret := fun b hb => by
      cases hb
      decide
    onePoint := fun a ha => by
      cases ha
      exact onePoint_class hastral }
  have hsign : sign.Proper := ⟨nofun, nofun, nofun⟩
  obtain ⟨P, hP⟩ : ∃ P, Program.ofSource? "^(?:[A-Za-z]|[𐀀-𐏿])$".toList pointMode = some P :=
    Option.isSome_iff_exists.1 (by decide +kernel)
  obtain ⟨Q, hQ⟩ : ∃ Q, Program.ofSource? "^(?:(?![A-Za-z]|[𐀀-𐏿])[\\s\\S])$".toList pointMode = some Q :=
    Option.isSome_iff_exists.1 (by decide +kernel)
  obtain ⟨re, hre, -⟩ := hc.exists_wholeRegex 'p' "Letter".toList (.inl rfl)
    (by decide) (by decide) rfl hP
  obtain ⟨re', hre', -⟩ := hc.exists_wholeRegex 'P' "Letter".toList (.inr rfl)
    (by decide) (by decide) rfl hQ
  have hchain (n : Text) (hn : n = "Letter".toList ∨ n = "Sign".toList) :
      ¬([letter, sign].foldl PropertyTable.insert .empty).Chained n := by
    rintro ⟨p, target, q, hp, htarget, hq, hinverse⟩
    rcases hn with rfl | rfl
    · cases hp
      cases htarget
    · cases hp
      cases htarget
      cases hq
      cases hinverse
  obtain ⟨hmatch, negated, hnegated, -, hinverse⟩ := hc.regex_property (by simp [hletter, hsign])
    (by decide) (.inr rfl) (by decide) (hchain _ (.inl rfl)) hre hre'
  obtain ⟨r, hr, hsame⟩ := hinverse "Sign".toList (by decide) (by decide)
    ⟨sign, ['L'], rfl, rfl, rfl⟩ (hchain _ (.inr rfl))
  exact ⟨re, re', hre, hre', hmatch, negated, r, hnegated, hr, hsame⟩

/-- **An inverse of an inverse is not the complement of it.** The declaration of the property in
between is not followed, and it has no data of its own, so that its inverse matches nothing. -/
theorem isMatch_inverse_of_inverse :
    let ps : List UnicodeProperty := [{ name := ['Z'], bmp := some ['a'] },
      { name := ['X'], inverseOf := some ['Z'] }, { name := ['Y'], inverseOf := some ['X'] }]
    let c := (answer (addProperties ps) initial).2
    (∀ p ∈ ps, p.Proper) ∧ (ps.foldl PropertyTable.insert .empty).InverseOf ['Y'] ['X'] ∧
      ∃ re re' negated r, (answer (wholeRegex 'p' ['X'] ['A']) c).1 = .ok re ∧
        (answer (wholeRegex 'P' ['X'] ['A']) c).1 = .ok re' ∧
        (answer (escapeRegex 'P' [] ['X'] ['A']) c).1 = .ok negated ∧
        (answer (escapeRegex 'p' [] ['Y'] ['A']) c).1 = .ok r ∧
        negated.isMatch ['a'] = true ∧ r.isMatch ['a'] = false := by
  intro ps c
  have hc : c.Furnished ps := furnished_initial (by decide)
  have hbody : ClassBody "a]".toList := .other (by decide) (by decide) .close
  have hproper : ∀ p ∈ ps, p.Proper := by
    refine List.forall_mem_cons.2 ⟨⟨fun b hb => ?_, fun b hb => ?_, nofun⟩,
      List.forall_mem_cons.2 ⟨⟨nofun, nofun, nofun⟩,
        List.forall_mem_cons.2 ⟨⟨nofun, nofun, nofun⟩, nofun⟩⟩⟩
    · cases hb
      exact hbody
    · cases hb
      decide
  have hprogram (w : Text) (hw : (Program.ofSource? w pointMode).isSome = true) :
      ∃ P, Program.ofSource? w pointMode = some P := Option.isSome_iff_exists.1 hw
  obtain ⟨P, hP⟩ := hprogram "^(?:(?![a])[\\s\\S])$".toList (by decide +kernel)
  obtain ⟨Q, hQ⟩ := hprogram "^(?:[a])$".toList (by decide +kernel)
  obtain ⟨N, hN, hfound⟩ : ∃ N, Program.ofSource? "(?:[a])".toList pointMode = some N ∧
      (N.search? (.first ['a'])).isSome = true := (Option.any_eq_true _ _).1 (by decide +kernel)
  obtain ⟨R, hR, hmissed⟩ : ∃ R, Program.ofSource? "(?:(?!)[\\s\\S])".toList pointMode = some R ∧
      (R.search? (.first ['a'])).isNone = true := (Option.any_eq_true _ _).1 (by decide +kernel)
  obtain ⟨re, hre, -⟩ := hc.exists_wholeRegex 'p' ['X'] (.inl rfl)
    (by decide) (by decide) rfl hP
  obtain ⟨re', hre', -⟩ := hc.exists_wholeRegex 'P' ['X'] (.inr rfl)
    (by decide) (by decide) rfl hQ
  obtain ⟨negated, hnegated, hN'⟩ := hc.exists_escapeRegex 'P' ['X'] (.inr rfl)
    (by decide) (by decide) rfl hN
  obtain ⟨r, hr, hR'⟩ := hc.exists_escapeRegex 'p' ['Y'] (.inl rfl)
    (by decide) (by decide) rfl hR
  refine ⟨hproper, ⟨_, ['X'], rfl, rfl, rfl⟩, re, re', negated, r, hre, hre', hnegated, hr, ?_, ?_⟩
  · simpa [Regex.isMatch, Regex.find?, Regex.searchAt?, Engine.search?, hN'] using hfound
  · simpa [Regex.isMatch, Regex.find?, Regex.searchAt?, Engine.search?, hR'] using hmissed

end Context

end ExtensibleRegex
