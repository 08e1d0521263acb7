import ExtensibleRegex.Property.Escape
import ExtensibleRegex.Proofs.Results

/-!
# What a table of properties keeps

A table keeps complements and point patterns once they have been derived. This file shows that the
kept texts are never out of date, so that they only save work:

* `PropertyTable.Sound` says that every kept text is the one that its property would give now;
* adding a property drops the kept texts (`PropertyTable.foldl_insert_cleared`), and both look-ups keep
  a sound table sound (`complementOf_of_sound`, `pointPatternOf_of_sound`);
* what stands for a property escape is a function of the properties alone (`propertyText`,
  `expandProperty_of_sound`).
-/

namespace ExtensibleRegex

namespace PropertyTable

/-! ## 1. Sound tables -/

/-- The properties of a table, with nothing derived yet. -/
def cleared (t : PropertyTable) : PropertyTable := ⟨t.entries, [], []⟩

/-- Every kept text is what the property with its key gives. -/
structure Sound (t : PropertyTable) : Prop where
  complements : ∀ key text, (key, text) ∈ t.complements →
    ∃ p bmp, t.get? key = some p ∧ p.bmp = some bmp ∧ text = complementBmp bmp
  pointPatterns : ∀ key negated text, ((key, negated), text) ∈ t.pointPatterns →
    ∃ p, t.get? key = some p ∧ text = p.pointPattern negated

/-- A sound table with the given properties. -/
structure SoundOver (base t : PropertyTable) : Prop where
  sound : t.Sound
  cleared : t.cleared = base

theorem sound_cleared (t : PropertyTable) : t.cleared.Sound :=
  ⟨fun _ _ h => absurd h List.not_mem_nil, fun _ _ _ h => absurd h List.not_mem_nil⟩

theorem sound_insert (t : PropertyTable) (p : UnicodeProperty) : (t.insert p).Sound :=
  ⟨fun _ _ h => absurd h List.not_mem_nil, fun _ _ _ h => absurd h List.not_mem_nil⟩

theorem sound_foldl_insert : ∀ (ps : List UnicodeProperty) (t : PropertyTable), t.Sound →
    (ps.foldl insert t).Sound
  | [], _, h => h
  | p :: ps, t, _ => sound_foldl_insert ps (t.insert p) (sound_insert t p)

/-- Properties are added to the properties, whatever has been derived from them. -/
theorem foldl_insert_cleared : ∀ (ps : List UnicodeProperty) (t : PropertyTable),
    ps.foldl insert t.cleared = (ps.foldl insert t).cleared
  | [], _ => rfl
  | p :: ps, t => foldl_insert_cleared ps (t.insert p)

/-! ## 2. Derived texts -/

variable {t : PropertyTable} {key : Text} {p : UnicodeProperty}

/-- A complement is the one of the property's class, kept or not, and the table stays sound. -/
theorem complementOf_of_sound (h : t.Sound) {bmp : Text} (hp : t.get? key = some p)
    (hbmp : p.bmp = some bmp) :
    (t.complementOf key bmp).1 = complementBmp bmp ∧
      SoundOver t.cleared (t.complementOf key bmp).2 := by
  unfold complementOf
  cases hl : t.complements.lookup key with
  | some kept =>
    obtain ⟨q, bmp', hq, hbmp', htext⟩ := h.complements key kept (mem_of_lookup_eq_some hl)
    rw [hp] at hq
    cases hq
    rw [hbmp] at hbmp'
    cases hbmp'
    exact ⟨htext, h, rfl⟩
  | none =>
    refine ⟨rfl, ⟨?_, h.pointPatterns⟩, rfl⟩
    intro key' text hmem
    rcases List.mem_cons.1 hmem with heq | hmem
    · cases heq
      exact ⟨p, bmp, hp, hbmp, rfl⟩
    · exact h.complements key' text hmem

/-- A point pattern is the one of the property, kept or not, and the table stays sound. -/
theorem pointPatternOf_of_sound (h : t.Sound) (hp : t.get? key = some p) (negated : Bool) :
    (t.pointPatternOf key p negated).1 = p.pointPattern negated ∧
      SoundOver t.cleared (t.pointPatternOf key p negated).2 := by
  unfold pointPatternOf
  cases hl : t.pointPatterns.lookup (key, negated) with
  | some kept =>
    obtain ⟨q, hq, htext⟩ := h.pointPatterns key negated kept (mem_of_lookup_eq_some hl)
    rw [hp] at hq
    cases hq
    exact ⟨htext, h, rfl⟩
  | none =>
    refine ⟨rfl, ⟨h.complements, ?_⟩, rfl⟩
    intro key' negated' text hmem
    rcases List.mem_cons.1 hmem with heq | hmem
    · cases heq
      exact ⟨p, hp, rfl⟩
    · exact h.pointPatterns key' negated' text hmem

/-- The property that an escape refers to is in the table under the key it is answered with. -/
theorem get?_of_resolve {e : PropertyEscape} {negated : Bool}
    (h : t.resolve e = .ok (key, p, negated)) : t.get? key = some p := by
  unfold resolve at h
  split at h
  · cases h
  · rename_i q hq
    split at h
    · cases h
      exact hq
    · split at h
      · cases h
      · rename_i r hr
        cases h
        exact hr

end PropertyTable

/-! ## 3. Property escapes -/

/-- What stands in a scope for a property with a class, without flag `A`. -/
def classText (bmp : Text) (scope : Scope) (negated : Bool) : Text :=
  match scope, negated with
  | .charClass, true => complementBmp bmp
  | .charClass, false => bmp
  | .pattern, true => '[' :: '^' :: bmp ++ [']']
  | .pattern, false => '[' :: bmp ++ [']']

/-- What stands for a property escape among some properties. -/
def propertyText (found : Captures) (scope : Scope) (flags : Text) (t : PropertyTable) :
    Except Error Text := do
  let e ← PropertyEscape.ofCaptures found
  let (_, p, negated) ← t.resolve e
  if flags.contains 'A' then
    if scope = .charClass then throw (.property .insideClass)
    return p.pointPattern negated
  else
    match p.bmp with
    | none => throw (.property (.needsAstral e.token))
    | some bmp => return classText bmp scope negated

theorem propertyText_cleared (found : Captures) (scope : Scope) (flags : Text)
    (t : PropertyTable) :
    propertyText found scope flags t.cleared = propertyText found scope flags t := rfl

/-- What stands for a class is the same with kept complements. -/
theorem PropertyTable.classTextOf_of_sound {t : PropertyTable} (h : t.Sound) {key : Text}
    {p : UnicodeProperty} {bmp : Text} (hp : t.get? key = some p) (hbmp : p.bmp = some bmp)
    (scope : Scope) (negated : Bool) :
    (t.classTextOf key bmp scope negated).1 = classText bmp scope negated ∧
      SoundOver t.cleared (t.classTextOf key bmp scope negated).2 := by
  cases scope with
  | pattern =>
    cases negated with
    | true => exact ⟨rfl, h, rfl⟩
    | false => exact ⟨rfl, h, rfl⟩
  | charClass =>
    cases negated with
    | true => exact complementOf_of_sound h hp hbmp
    | false => exact ⟨rfl, h, rfl⟩

/-- **What stands for a property escape does not depend on what the table keeps.** -/
theorem expandProperty_of_sound (inv : Invocation) (h : inv.setting.properties.Sound) :
    (expandProperty inv).map Prod.fst =
        propertyText inv.found inv.scope inv.flags inv.setting.properties ∧
      PropertyTable.SoundOver inv.setting.properties.cleared (propertyNote inv) := by
  unfold propertyNote expandProperty propertyText
  cases PropertyEscape.ofCaptures inv.found with
  | error e => exact ⟨rfl, h, rfl⟩
  | ok e =>
    simp only [bind, Except.bind]
    cases hr : inv.setting.properties.resolve e with
    | error err => exact ⟨rfl, h, rfl⟩
    | ok r =>
      obtain ⟨key, p, negated⟩ := r
      have hp := PropertyTable.get?_of_resolve hr
      simp only
      by_cases hA : inv.flags.contains 'A' = true
      · simp only [hA, if_true]
        by_cases hscope : inv.scope = .charClass
        · simp only [hscope, if_true]
          exact ⟨rfl, h, rfl⟩
        · simp only [hscope, if_false]
          obtain ⟨htext, hsound⟩ := PropertyTable.pointPatternOf_of_sound h hp negated
          exact ⟨congrArg Except.ok htext, hsound⟩
      · simp only [hA]
        cases hbmp : p.bmp with
        | none => exact ⟨rfl, h, rfl⟩
        | some bmp =>
          obtain ⟨htext, hsound⟩ := PropertyTable.classTextOf_of_sound h hp hbmp inv.scope negated
          exact ⟨congrArg Except.ok htext, hsound⟩

end ExtensibleRegex
