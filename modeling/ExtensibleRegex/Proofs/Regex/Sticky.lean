import ExtensibleRegex.Proofs.Native.Anchored
import ExtensibleRegex.Proofs.Results
import ExtensibleRegex.Regex.Search

/-!
# Sticky search

A sticky search wants its match right where it starts. This file relates it to the plain search
from the same offset, on both of the ways in which the engine does it:

* an offset stands for the first boundary at it or after it (`Place.roundUp?`,
  `Place.offset_atOffset?`);
* the sticky search finds what the plain one does, if that begins there (`searchFrom?_sticky`).

One kind of pattern is left out (`NoNextGroup`): with an octal escape that is the number of the
group after the last, the variant of the pattern refers to its own empty group.
-/

namespace ExtensibleRegex

/-! ## 1. Boundaries of characters -/

/-- The offsets of a text where a character begins, and that of its end. -/
def boundaries : Text → List Nat
  | [] => [0]
  | c :: t => 0 :: (boundaries t).map (c.utf8Size + ·)

namespace Place

/-- The first boundary of a text that is at an offset or after it. -/
def roundUp? (t : Text) (offset : Nat) : Option Nat := (boundaries t).find? (offset ≤ ·)

theorem splitAtByte_behind : ∀ (n : Nat) (behind ahead : Text),
    (splitAtByte n behind ahead).map (fun s => byteLength s.1) =
      ((boundaries ahead).find? (n ≤ ·)).map (byteLength behind + ·)
  | 0, behind, [] => by simp [splitAtByte, boundaries]
  | 0, behind, _ :: _ => by simp [splitAtByte, boundaries]
  | n + 1, _, [] => by simp [splitAtByte, boundaries]
  | n + 1, behind, c :: ahead => by
      have ih := splitAtByte_behind (n + 1 - c.utf8Size) (c :: behind) ahead
      have hle (m : Nat) : n + 1 ≤ c.utf8Size + m ↔ n + 1 - c.utf8Size ≤ m := by omega
      have hadd (m : Nat) : c.utf8Size + byteLength behind + m =
          byteLength behind + (c.utf8Size + m) := by omega
      simp only [byteLength_cons, hadd] at ih
      simp only [splitAtByte, ih, boundaries, List.find?_cons, List.find?_map, Function.comp_def,
        hle]
      simp [Nat.add_assoc]

/-- An offset stands for the boundary that it is rounded up to. -/
theorem offset_atOffset? (t : Text) (n : Nat) : (atOffset? t n).map offset = roundUp? t n := by
  have h := splitAtByte_behind n [] t
  simp only [byteLength_nil, Nat.zero_add, Option.map_id'] at h
  rw [roundUp?, ← h, atOffset?, Option.map_map]
  rfl

end Place

/-! ## 2. Sticky and plain search -/

namespace Regex

open Native

theorem source_of_native {pattern flags : Text} {re : Regex}
    (h : Regex.native pattern flags = .ok re) :
    re.engine.source = pattern ∧ re.engine.mode = (NativeFlags.ofText flags).mode := by
  obtain ⟨-, -, h⟩ := bind_eq_ok.1 h
  obtain ⟨e, he, h⟩ := bind_eq_ok.1 h
  cases h
  exact Engine.ofSource_eq_ok.1 he

/-- **A sticky search is the plain search kept to its starting place.** It answers the captures of
the plain search when those begin at the offset, rounded up to a boundary, and nothing otherwise. -/
theorem searchFrom?_sticky (re : Regex)
    (h : re.engine.anchored = none ∨ re.engine.NoNextGroup) (text : Text) (offset : Nat) :
    re.searchFrom? text offset true =
      (re.searchFrom? text offset false).filter fun c =>
        Place.roundUp? text offset = some c.whole.start.offset := by
  unfold searchFrom?
  have hround := Place.offset_atOffset? text offset
  cases hp : Place.atOffset? text offset with
  | none => rfl
  | some p =>
    rw [hp] at hround
    have hstart (f : Found) (hf : re.engine.program.search? p = some f) :
        f.whole.start.index = p.index ↔ p.offset = f.whole.start.offset := by
      obtain ⟨-, hfirst⟩ := Program.searchFrom_eq_some _ p f hf
      rcases hfirst with hsame | hlater
      · rw [hsame]
        exact ⟨fun _ => rfl, fun _ => rfl⟩
      · constructor
        · intro hi; omega
        · intro ho; omega
    simp only [searchAt?, if_true, Bool.false_eq_true, if_false, Engine.searchAt?_eq_matchAt? _ h,
      Program.matchAt?_eq_filter_search?, Engine.search?, ← hround, Option.map_some]
    cases hs : re.engine.program.search? p with
    | none => rfl
    | some f =>
      have hiff := hstart f hs
      by_cases hi : f.whole.start.index = p.index
      · have heq : some p.offset = some (re.captures f).whole.start.offset :=
          congrArg some (hiff.1 hi)
        rw [Option.filter_some, if_pos (decide_eq_true hi), Option.map_some, Option.filter_some,
          if_pos (decide_eq_true heq)]
      · have ho : p.offset ≠ f.whole.start.offset := fun ho => hi (hiff.2 ho)
        have hne : ¬ some p.offset = some (re.captures f).whole.start.offset :=
          fun he => ho (Option.some.inj he)
        rw [Option.filter_some, if_neg (by simpa using hi), Option.map_none, Option.map_some,
          Option.filter_some, if_neg (by simpa using hne)]

/-- On `(b)|\2` the variant's empty group is the second one, and the escape a reference to it. -/
theorem searchFrom?_sticky_next_group :
    ∃ re c, Regex.native "(b)|\\2".toList [] = .ok re ∧
      re.searchFrom? ['\x02'] 0 false = some c ∧
      Place.roundUp? ['\x02'] 0 = some c.whole.start.offset ∧
      re.searchFrom? ['\x02'] 0 true ≠ some c := by
  refine ⟨_, _, rfl, rfl, rfl, ?_⟩
  decide

/-- A sticky search for `(a)|b` inside of a text. -/
theorem searchFrom?_sticky_alternatives :
    ∃ re, Regex.native "(a)|b".toList [] = .ok re ∧
      (re.engine.anchored = none ∨ re.engine.NoNextGroup) ∧
      re.searchFrom? "xb".toList 1 true =
        (re.searchFrom? "xb".toList 1 false).filter fun c =>
          Place.roundUp? "xb".toList 1 = some c.whole.start.offset := by
  obtain ⟨re, hre⟩ : ∃ re, Regex.native "(a)|b".toList [] = .ok re := ⟨_, rfl⟩
  obtain ⟨hsource, hmode⟩ := source_of_native hre
  have h : re.engine.NoNextGroup := by
    intro ls hls l hl
    rw [hsource, hmode] at hls
    have hls' : lexemes? false "(a)|b".toList =
        some [.opening (.capture none), .literal 97, .close, .bar, .literal 98] := by decide
    obtain rfl := Option.some.inj (hls.symm.trans hls')
    simp only [List.mem_cons, List.not_mem_nil, or_false] at hl
    rcases hl with rfl | rfl | rfl | rfl | rfl <;> rfl
  exact ⟨re, hre, .inr h, searchFrom?_sticky re (.inr h) _ _⟩

end Regex

end ExtensibleRegex
