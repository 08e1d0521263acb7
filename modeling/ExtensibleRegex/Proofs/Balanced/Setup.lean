import ExtensibleRegex.Proofs.Balanced.Skipper
import ExtensibleRegex.Proofs.Combine.Sources
import Mathlib.Tactic

/-!
# Setting up scans

The scan that a fresh context sets up depends on the delimiters, the flags and the escape character
only (`Fresh.answer_balancedSearch`). Its skipper matches in the modes that the flags say, and skips by
the tree for the union of the delimiters (`exists_freshInertRuns`).
-/

namespace ExtensibleRegex

open Native

namespace Context

open BalancedSearch

/-! ## 1. Scans in fresh contexts -/

variable {l r : Regex}

/-- The skipper that a fresh context sets up. -/
def freshInertRuns (escapeChar : Char) (left right : Regex) (flags : Text) : Except Error Regex := do
  let delimiters ← freshUnion [.regex left, .regex right] [] .or
  Regex.native (Skipper.source (escape [escapeChar]) delimiters.nativeSource)
    (flags.filter fun c => c == 'i' || c == 'm' || c == 'u')

/-- The scan that a fresh context sets up. -/
def freshSearch (left right flags : Text) (escapeChar : Option Char) : Except Error BalancedSearch := do
  let l ← freshRegex left (flags.filter (· != 'y'))
  let r ← freshRegex right (flags.filter (· != 'y'))
  let skipper ← match escapeChar with
    | some e => some <$> freshInertRuns e l r flags
    | none => pure none
  return ⟨l, r, skipper, flags.contains 'g', flags.contains 'y', none⟩

variable {c : Context}

theorem Fresh.answer_inertRuns (h : c.Fresh) (e : Char) (l r : Regex) (flags : Text) :
    (answer (inertRuns e l r flags) c).1 = freshInertRuns e l r flags := by
  unfold inertRuns freshInertRuns
  simp only
  rw [answer_bind_fst, (h.answer_union _ _ _).1]
  exact congrArg (freshUnion [.regex l, .regex r] [] .or >>= ·)
    (funext fun d => congrArg Prod.fst (answer_lift _ _))

/-- **A scan in a fresh context** depends on its delimiters only. -/
theorem Fresh.answer_balancedSearch (h : c.Fresh) (left right flags : Text)
    (escapeChar : Option Char) :
    (answer (balancedSearch left right flags escapeChar) c).1 =
      freshSearch left right flags escapeChar := by
  obtain ⟨hleft, hfresh⟩ := h.answer_freshRegex left (flags.filter (· != 'y'))
  obtain ⟨hright, hfresh'⟩ := hfresh.answer_freshRegex right (flags.filter (· != 'y'))
  unfold balancedSearch freshSearch
  simp only
  rw [answer_bind_fst, hleft]
  refine congrArg (freshRegex left (flags.filter (· != 'y')) >>= ·) (funext fun l => ?_)
  rw [answer_bind_fst, hright]
  refine congrArg (freshRegex right (flags.filter (· != 'y')) >>= ·) (funext fun r => ?_)
  rw [answer_bind_fst]
  cases escapeChar with
  | none => rfl
  | some e =>
    show ((answer (some <$> inertRuns e l r flags) _).1 >>= _) = some <$> freshInertRuns e l r flags >>= _
    rw [← hfresh'.answer_inertRuns e l r flags]
    rw [map_eq_pure_bind, answer_bind_fst]
    rfl

/-! ## 2. Skippers -/

/-- The flags that a skipper takes over are those of case, lines and code points. -/
theorem exists_native {source flags : Text}
    (hnodup : (flags.filter fun c => c == 'i' || c == 'm' || c == 'u').Nodup) {p : Program}
    (hp : Program.ofSource? source (NativeFlags.ofText flags).mode = some p) :
    ∃ re, Regex.native source (flags.filter fun c => c == 'i' || c == 'm' || c == 'u') = .ok re ∧
      re.engine.program = p ∧ re.engine.source = source ∧
      re.engine.mode = (NativeFlags.ofText flags).mode := by
  generalize hpassed : (flags.filter fun c => c == 'i' || c == 'm' || c == 'u') = passed at hnodup
  have hcontains (f : Char) :
      passed.contains f = (flags.contains f && (f == 'i' || f == 'm' || f == 'u')) := by
    rw [← hpassed, Bool.eq_iff_iff]
    simp
  have hknown : passed.find? (fun c => !KnownFlags.native.knows c) = none := by
    rw [List.find?_eq_none]
    intro f hf
    have hf' := (List.mem_filter.1 (hpassed ▸ hf)).2
    simp only [Bool.or_eq_true, beq_iff_eq] at hf'
    rcases hf' with (rfl | rfl) | rfl <;> decide
  have hvalid : KnownFlags.native.validate passed = .ok () := by
    unfold KnownFlags.validate KnownFlags.refuseRepeats KnownFlags.refuseUnknown
    rw [repeatedFlag?_eq_none_iff.2 hnodup, hknown]
    rfl
  have hmode : (NativeFlags.ofText passed).mode = (NativeFlags.ofText flags).mode := by
    unfold NativeFlags.ofText NativeFlags.mode
    simp only [hcontains]
    simp
  obtain ⟨engine, hengine, hprogram⟩ := Engine.ofSource_of_program (hmode ▸ hp)
  obtain ⟨hsource, hengineMode⟩ := Engine.ofSource_eq_ok.1 hengine
  refine ⟨⟨engine, (NativeFlags.ofText passed).global, (NativeFlags.ofText passed).sticky, none, none,
    none, false⟩, ?_, hprogram, hsource, by rw [hengineMode, hmode]⟩
  exact bind_eq_ok.2 ⟨(), hvalid, bind_eq_ok.2 ⟨engine, hengine, rfl⟩⟩

/-- **The skipper that is set up** skips by the tree for its delimiters, if these name no group and refer
to their own groups only. -/
theorem exists_freshInertRuns (e : Char) {flags : Text} {d : Regex}
    (hunion : freshUnion [.regex l, .regex r] [] .or = .ok d)
    (hnodup : (flags.filter fun c => c == 'i' || c == 'm' || c == 'u').Nodup) {ls : List Lexeme}
    (hlexed : lexemes? (flags.contains 'u') d.nativeSource = some ls)
    (hnone : ∀ name ∈ captureNames ls, name = none) {p : Program}
    (hmovable : ∀ l ∈ ls, l.Movable p.groups)
    (hp : Program.ofSource? d.nativeSource (NativeFlags.ofText flags).mode = some p) :
    ∃ skipper, freshInertRuns e l r flags = .ok skipper ∧
      skipper.engine.program = ⟨Skipper.node e (flags.contains 'i') p, p.groups⟩ ∧
      skipper.engine.NoNextGroup := by
  obtain ⟨hlexemes, hprogram⟩ := @Skipper.ofSource?_eq e (NativeFlags.ofText flags).mode _ _ hlexed hnone
    _ hp
  obtain ⟨skipper, hskipper, hskipperProgram, hsource, hmode⟩ := exists_native hnodup hprogram
  refine ⟨skipper, bind_eq_ok.2 ⟨d, hunion, hskipper⟩, hskipperProgram, ?_⟩
  exact Skipper.noNextGroup e (by rw [hsource, hmode]; exact hlexemes)
    (by rw [hskipperProgram]; exact hmovable)

end Context

end ExtensibleRegex
