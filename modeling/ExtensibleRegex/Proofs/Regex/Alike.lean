import ExtensibleRegex.Proofs.Dialect.Groups
import ExtensibleRegex.Proofs.Native.Equivalence
import Mathlib.Tactic

/-!
# Regexes that find the same

Two regexes are `Alike` when they find the same matches in every text, with the same groups at the
same places; their groups may have different names. Regexes whose native patterns have the same
meaning are alike (`Regex.alike_of_meaning`).
-/

namespace ExtensibleRegex

open Native

/-- Engines of patterns with the same meaning find the same. -/
theorem Native.Engine.search?_of_meaning {e e' : Engine} (hmode : e.mode = e'.mode)
    (h : meaning e.mode e.source = meaning e.mode e'.source) : e.search? = e'.search? := by
  have he : meaning e.mode e.source = some e.program.search? := by
    unfold meaning
    rw [e.program_eq]
    rfl
  have he' : meaning e'.mode e'.source = some e'.program.search? := by
    unfold meaning
    rw [e'.program_eq]
    rfl
  rw [← hmode, ← h, he] at he'
  exact Option.some.inj he'

namespace Regex

/-- Regexes that find the same matches, with the same groups. -/
structure Alike (re re' : Regex) : Prop where
  searchFrom? : ∀ text offset, (re.searchFrom? text offset false).map Captures.slots =
    (re'.searchFrom? text offset false).map Captures.slots
  allMatches : ∀ text, (re.allMatches text).map Captures.slots =
    (re'.allMatches text).map Captures.slots

variable {re re' : Regex}

/-- Regexes that find the same at every place have the same matches from any place on. What is observed
of a match may be a part of it, but has to tell where the match lies. -/
theorem matchesFrom_congr {α : Type} {f : Captures → α}
    (hwhole : ∀ c c', f c = f c' → c.whole = c'.whole)
    (h : ∀ p, (re.searchAt? p re.sticky).map f = (re'.searchAt? p re'.sticky).map f) :
    ∀ (left : Text) (p : Place), (re.matchesFrom left p).map f = (re'.matchesFrom left p).map f := by
  have hstep (p : Place) : (re.searchAt? p re.sticky = none ∧ re'.searchAt? p re'.sticky = none) ∨
      ∃ c c', re.searchAt? p re.sticky = some c ∧ re'.searchAt? p re'.sticky = some c' ∧
        f c = f c' := by
    have hp := h p
    cases hc : re.searchAt? p re.sticky with
    | none =>
      rw [hc, Option.map_none, eq_comm, Option.map_eq_none_iff] at hp
      exact .inl ⟨rfl, hp⟩
    | some c =>
      rw [hc, Option.map_some, eq_comm] at hp
      obtain ⟨c', hc', hf⟩ := Option.map_eq_some_iff.1 hp
      exact .inr ⟨c, c', rfl, hc', hf.symm⟩
  intro left
  induction left with
  | nil =>
    intro p
    unfold matchesFrom
    rcases hstep p with ⟨hnone, hnone'⟩ | ⟨c, c', hc, hc', hf⟩
    · rw [hnone, hnone']
    · rw [hc, hc']
      simp only [← hwhole c c' hf]
      cases c.whole.resume? <;> simp [hf]
  | cons d left ih =>
    intro p
    unfold matchesFrom
    rcases hstep p with ⟨hnone, hnone'⟩ | ⟨c, c', hc, hc', hf⟩
    · rw [hnone, hnone']
    · rw [hc, hc']
      simp only [← hwhole c c' hf]
      cases c.whole.resume? with
      | none => simp [hf]
      | some q => simp [hf, ih q]

theorem whole_eq_of_slots {c c' : Captures} (h : c.slots = c'.slots) : c.whole = c'.whole :=
  Option.some.inj (List.cons.inj h).1

theorem alike_of_search? (hsticky : re.sticky = false) (hsticky' : re'.sticky = false)
    (h : re.engine.search? = re'.engine.search?) : re.Alike re' where
  searchFrom? text offset := by
    unfold Regex.searchFrom? searchAt?
    cases Place.atOffset? text offset with
    | none => rfl
    | some p =>
      simp only [Bool.false_eq_true, if_false, h, Option.map_map]
      rfl
  allMatches text := by
    refine matchesFrom_congr (fun _ _ => whole_eq_of_slots) (fun p => ?_) text (.first text)
    simp only [searchAt?, hsticky, hsticky', Bool.false_eq_true, if_false, h, Option.map_map]
    rfl

/-- **Regexes whose native patterns have the same meaning are alike.** -/
theorem alike_of_meaning (hsticky : re.sticky = false) (hsticky' : re'.sticky = false)
    (hmode : re.engine.mode = re'.engine.mode)
    (h : meaning re.engine.mode re.nativeSource = meaning re.engine.mode re'.nativeSource) :
    re.Alike re' :=
  alike_of_search? hsticky hsticky' (Engine.search?_of_meaning hmode h)

end Regex

namespace Context

/-- What the flags of a pattern make of its regex in a fresh context. -/
theorem regex_initial_flags {pattern flags : Text} {re : Regex} {prepared : Prepared}
    (h : (answer (regex pattern flags) initial).1 = .ok re)
    (hprepare : Dialect.initial.flags.prepare pattern flags = .ok prepared) :
    re.engine.mode = (Reader.nativeFlags prepared.flags).mode ∧
      re.sticky = (Reader.nativeFlags prepared.flags).sticky := by
  rw [answer_regex_initial] at h
  obtain ⟨prepared', hprepare', h⟩ := bind_eq_ok.1 h
  obtain ⟨pieces, hread, h⟩ := bind_eq_ok.1 h
  obtain ⟨engine, hengine, h⟩ := bind_eq_ok.1 h
  obtain rfl := Except.ok.inj h
  obtain rfl := Except.ok.inj (hprepare.symm.trans hprepare')
  exact ⟨(Engine.ofSource_eq_ok.1 hengine).2, rfl⟩

theorem prepare_of_modeModifier? {pattern : Text} (h : modeModifier? pattern = none) :
    Dialect.initial.flags.prepare pattern [] = .ok ⟨pattern, []⟩ := by
  unfold KnownFlags.prepare
  rw [Dialect.initial_flags, h]
  rfl

/-- The regex of a pattern without flags, by its pieces and its program. -/
theorem exists_regex {pattern native : Text} {pieces : List Segment} {program : Program}
    (hmodifier : modeModifier? pattern = none)
    (hread : (⟨[], false⟩ : Reader).read pattern = .ok pieces)
    (hnative : mergeEmptyGroups (Reader.render pieces) = native)
    (hprogram : Program.ofSource? native ⟨false, false, false⟩ = some program) :
    ∃ re, (answer (regex pattern []) initial).1 = .ok re ∧ re.nativeSource = native ∧
      re.engine.program = program := by
  obtain ⟨e, he, hnode⟩ := Engine.ofSource_of_program hprogram
  obtain ⟨re, hre, hengine⟩ :=
    exists_regex_initial (prepare_of_modeModifier? hmodifier) hread (hnative.symm ▸ he)
  refine ⟨re, hre, ?_, by rw [hengine, hnode]⟩
  rw [Regex.nativeSource, hengine]
  exact (Engine.ofSource_eq_ok.1 he).1

end Context

end ExtensibleRegex
