import ExtensibleRegex.Proofs.Native.Groups

/-!
# Which lexemes make a pattern

The pass over the lexemes of a pattern fails when a bracket does not match or when there is nothing
to repeat. In the lenient grammar, and without references by name, nothing else makes it fail. So
for this question its state comes down to a `Shape`: whether a quantifier may follow, and what that
will be after each group that is open.

* `shape_readAll` says that the pass succeeds just when it does on shapes;
* patterns that succeed do so one after another as well (`Shape.Stands.append`), and as
  alternatives, whatever the numbers in their references are;
* what is well-formed in the strict grammar has such a shape as well (`Program.stands_of_ofSource?`).
-/

namespace ExtensibleRegex.Native

/-! ## 1. Shapes -/

/-- Whether a quantifier may follow a group in the lenient grammar. -/
def Opening.repeats : Opening → Bool
  | .capture _ => true
  | .plain _ _ => true
  | .look behind _ => !behind

/-- Whether a quantifier may follow, and whether one may after each open group, innermost first. -/
structure Shape where
  repeatable : Bool
  groups : List Bool
  deriving DecidableEq, Repr

namespace Shape

/-- Nothing read yet. -/
def initial : Shape := ⟨false, []⟩

/-- The shape after a lexeme. -/
def read? (s : Shape) : Lexeme → Option Shape
  | .literal _ => some { s with repeatable := true }
  | .any => some { s with repeatable := true }
  | .set _ _ => some { s with repeatable := true }
  | .lineStart => some { s with repeatable := false }
  | .lineEnd => some { s with repeatable := false }
  | .boundary _ => some { s with repeatable := true }
  | .decimal _ => some { s with repeatable := true }
  | .namedRef _ => none
  | .opening kind => some ⟨false, kind.repeats :: s.groups⟩
  | .close =>
    match s.groups with
    | [] => none
    | repeats :: groups => some ⟨repeats, groups⟩
  | .bar => some { s with repeatable := false }
  | .quantifier _ _ _ => if s.repeatable then some { s with repeatable := false } else none

/-- The shape after several lexemes. -/
def readAll? : Shape → List Lexeme → Option Shape
  | s, [] => some s
  | s, l :: ls =>
    match s.read? l with
    | some s' => readAll? s' ls
    | none => none

theorem readAll?_append : ∀ (s : Shape) (ls ms : List Lexeme),
    readAll? s (ls ++ ms) = (readAll? s ls).bind (readAll? · ms)
  | _, [], _ => rfl
  | s, l :: ls, ms => by
      simp only [List.cons_append, readAll?]
      cases s.read? l with
      | none => rfl
      | some s' => exact readAll?_append s' ls ms

/-- What may follow the smaller of two shapes may follow the larger one. -/
def Le (s t : Shape) : Prop := (s.repeatable = true → t.repeatable = true) ∧ s.groups = t.groups

theorem read?_mono {s t s' : Shape} (hst : s.Le t) {l : Lexeme} (h : s.read? l = some s') :
    ∃ t', t.read? l = some t' ∧ s'.Le t' := by
  obtain ⟨b, groups⟩ := s
  obtain ⟨c, groups'⟩ := t
  obtain ⟨hbc, rfl⟩ := hst
  cases l with
  | namedRef name => cases h
  | quantifier min max greedy =>
    simp only [read?] at h
    split at h
    · rename_i hb
      cases h
      exact ⟨⟨false, groups⟩, if_pos (hbc hb), id, rfl⟩
    · cases h
  | close =>
    refine ⟨s', h, id, rfl⟩
  | _ =>
    cases h
    exact ⟨_, rfl, id, rfl⟩

theorem readAll?_mono : ∀ {ls : List Lexeme} {s t s' : Shape}, s.Le t → readAll? s ls = some s' →
    ∃ t', readAll? t ls = some t' ∧ s'.Le t'
  | [], _, t, _, hst, h => by
      cases h
      exact ⟨t, rfl, hst⟩
  | l :: ls, s, t, s', hst, h => by
      simp only [readAll?] at h ⊢
      cases hl : s.read? l with
      | none => rw [hl] at h; cases h
      | some s₁ =>
        rw [hl] at h
        obtain ⟨t₁, ht₁, hle⟩ := read?_mono hst hl
        rw [ht₁]
        exact readAll?_mono hle h

/-- Lexemes that may stand alone. -/
def Stands (ls : List Lexeme) : Prop := ∃ b, readAll? initial ls = some ⟨b, []⟩

theorem stands_nil : Stands [] := ⟨false, rfl⟩

/-- **Lexemes that may stand alone may stand after such lexemes.** -/
theorem Stands.append {ls ms : List Lexeme} (hls : Stands ls) (hms : Stands ms) :
    Stands (ls ++ ms) := by
  obtain ⟨b, hb⟩ := hls
  obtain ⟨c, hc⟩ := hms
  have hle : initial.Le ⟨b, []⟩ := ⟨fun h => absurd h Bool.false_ne_true, rfl⟩
  obtain ⟨⟨d, groups⟩, hd, -, hgroups⟩ := readAll?_mono hle hc
  cases hgroups
  refine ⟨d, ?_⟩
  rw [readAll?_append, hb]
  exact hd

theorem stands_bar : Stands [.bar] := ⟨false, rfl⟩

theorem stands_literal (n : Nat) : Stands [.literal n] := ⟨true, rfl⟩

theorem stands_flatMap {α : Type} {f : α → List Lexeme} : ∀ {xs : List α},
    (∀ x ∈ xs, Stands (f x)) → Stands (xs.flatMap f)
  | [], _ => stands_nil
  | x :: xs, h => by
      rw [List.flatMap_cons]
      exact (h x List.mem_cons_self).append
        (stands_flatMap fun y hy => h y (List.mem_cons_of_mem x hy))

end Shape

/-! ## 2. The pass -/

namespace Progress

/-- What the pass has come to, as a shape. -/
def shape (p : Progress) : Shape :=
  ⟨p.terms.head?.any Term.repeatable, p.frames.map fun f => f.kind.repeats⟩

theorem shape_literals : ∀ (ds : Text) (n : Nat) (p : Progress),
    (ds.foldl (fun p d => p.literal d.toNat) (p.literal n)).shape =
      { p.shape with repeatable := true }
  | [], _, _ => rfl
  | d :: ds, n, p => shape_literals ds d.toNat (p.literal n)

theorem shape_decimal (names : List (Option Text)) (p : Progress) (digits : Text) :
    (decimal? ⟨false, names⟩ p digits).map shape = some { p.shape with repeatable := true } := by
  unfold decimal?
  simp only [Bool.false_eq_true, if_false]
  split
  · rfl
  · cases digits with
    | nil =>
      rename_i h
      exact absurd (Nat.zero_le _) h
    | cons d ds => exact congrArg some (shape_literals _ _ p)

theorem shape_read (names : List (Option Text)) (p : Progress) {l : Lexeme}
    (hl : ∀ name, l ≠ .namedRef name) :
    (p.read? ⟨false, names⟩ l).map shape = p.shape.read? l := by
  cases l with
  | namedRef name => exact absurd rfl (hl name)
  | decimal digits => exact shape_decimal names p digits
  | opening kind => rfl
  | close =>
    simp only [read?, closeGroup?, Shape.read?, shape]
    cases p.frames with
    | nil => rfl
    | cons f frames =>
      obtain ⟨kind, group, before, modes, alternatives, terms⟩ := f
      cases kind with
      | look behind negated =>
        simp only [List.map_cons, Option.map_some, Bool.not_false, Bool.and_true]
        rfl
      | _ => rfl
  | quantifier min max greedy =>
    simp only [read?, repeatLast?, Shape.read?]
    cases hterms : p.terms with
    | nil =>
      have hshape : p.shape.repeatable = false := by simp only [shape, hterms]; rfl
      simp [hshape]
    | cons t terms =>
      have hshape : p.shape.repeatable = t.repeatable := by simp only [shape, hterms]; rfl
      cases ht : t.repeatable with
      | false => simp [hshape, ht]
      | true =>
        simp only [hshape, ht, if_true]
        rfl
  | _ => rfl

/-- **The pass succeeds just when it does on shapes.** -/
theorem shape_readAll (names : List (Option Text)) : ∀ {ls : List Lexeme} (p : Progress),
    (∀ l ∈ ls, ∀ name, l ≠ .namedRef name) →
    (readAll? ⟨false, names⟩ p ls).map shape = p.shape.readAll? ls
  | [], _, _ => rfl
  | l :: ls, p, h => by
      have hl := shape_read names p (h l List.mem_cons_self)
      simp only [readAll?, Shape.readAll?]
      rw [← hl]
      cases p.read? ⟨false, names⟩ l with
      | none => rfl
      | some q => exact shape_readAll names q fun m hm => h m (List.mem_cons_of_mem l hm)

/-- The strict grammar reads no more than what shapes allow. -/
theorem le_shape_read {g : Grammar} {p q : Progress} {s : Shape} (hle : p.shape.Le s) {l : Lexeme}
    (hl : ∀ name, l ≠ .namedRef name) (h : p.read? g l = some q) :
    ∃ s', s.read? l = some s' ∧ q.shape.Le s' := by
  obtain ⟨b, groups⟩ := s
  obtain ⟨hrepeatable, rfl⟩ := hle
  cases l with
  | namedRef name => exact absurd rfl (hl name)
  | decimal digits =>
    refine ⟨_, rfl, fun _ => rfl, ?_⟩
    simp only [read?, decimal?] at h
    by_cases hgroup : readDigits 10 digits ≤ g.names.length
    · rw [if_pos hgroup] at h
      cases h
      rfl
    rw [if_neg hgroup] at h
    split at h
    · cases h
    · split at h
      · cases h
        rfl
      · cases h
        exact congrArg Shape.groups (shape_literals _ _ p)
  | close =>
    simp only [read?, closeGroup?] at h
    simp only [Shape.read?, shape]
    cases hframes : p.frames with
    | nil => rw [hframes] at h; cases h
    | cons f frames =>
      rw [hframes] at h
      obtain ⟨kind, group, before, modes, alternatives, terms⟩ := f
      cases kind with
      | look behind negated =>
        cases h
        refine ⟨_, rfl, fun hrepeats => ?_, rfl⟩
        simp only [List.head?_cons, Option.any_some, Bool.and_eq_true] at hrepeats
        exact hrepeats.1
      | _ =>
        cases h
        exact ⟨_, rfl, id, rfl⟩
  | quantifier min max greedy =>
    simp only [read?, repeatLast?] at h
    split at h
    · cases h
    · rename_i t terms hterms
      split at h
      · rename_i ht
        cases h
        refine ⟨⟨false, _⟩, if_pos (hrepeatable ?_), id, rfl⟩
        simp only [shape, hterms, List.head?_cons, Option.any_some, ht]
      · cases h
  | _ =>
    cases h
    exact ⟨_, rfl, id, rfl⟩

theorem le_shape_readAll {g : Grammar} : ∀ {ls : List Lexeme} {p q : Progress} {s : Shape},
    p.shape.Le s → (∀ l ∈ ls, ∀ name, l ≠ .namedRef name) → readAll? g p ls = some q →
    ∃ s', s.readAll? ls = some s' ∧ q.shape.Le s'
  | [], _, _, s, hle, _, h => by
      cases h
      exact ⟨s, rfl, hle⟩
  | l :: ls, p, q, s, hle, hnames, h => by
      simp only [readAll?] at h
      cases hl : p.read? g l with
      | none => rw [hl] at h; cases h
      | some r =>
        rw [hl] at h
        obtain ⟨s', hs', hle'⟩ := le_shape_read hle (hnames l List.mem_cons_self) hl
        simp only [Shape.readAll?, hs']
        exact le_shape_readAll hle' (fun m hm => hnames m (List.mem_cons_of_mem l hm)) h

end Progress

/-- **The lexemes of a well-formed pattern may stand alone**, in either grammar. -/
theorem Program.stands_of_ofSource? {source : Text} {mode : Mode} {p : Program}
    (h : Program.ofSource? source mode = some p) {ls : List Lexeme}
    (hlexed : lexemes? mode.unicode source = some ls)
    (hnames : ∀ l ∈ ls, ∀ name, l ≠ .namedRef name) : Shape.Stands ls := by
  obtain ⟨ls', q, hq, -⟩ := Program.ofSource?_eq_some_iff.1 h
  obtain rfl := Option.some.inj (hlexed.symm.trans hq.lexed)
  obtain ⟨⟨b, groups⟩, hs, -, hgroups⟩ := Progress.le_shape_readAll
    (⟨id, rfl⟩ : (Progress.initial ⟨mode.ignoreCase, mode.multiline, false⟩).shape.Le .initial)
    hnames hq.read
  refine ⟨b, ?_⟩
  have hclosed : q.shape.groups = [] := by simp [Progress.shape, hq.closed]
  rw [hclosed] at hgroups
  cases hgroups
  exact hs

theorem distinctNames_of_none : ∀ {names : List (Option Text)}, (∀ name ∈ names, name = none) →
    distinctNames names = true
  | [], _ => rfl
  | name :: names, h => by
      rw [h name List.mem_cons_self]
      exact @distinctNames_of_none names fun n hn => h n (List.mem_cons_of_mem name hn)

/-- **A lenient pattern is well-formed when its lexemes may stand alone**, if it names no group and
does not have too many. -/
theorem Program.exists_of_stands {source : Text} {mode : Mode} (hmode : mode.unicode = false)
    {ls : List Lexeme} (hlexed : lexemes? false source = some ls)
    (hnames : ∀ l ∈ ls, ∀ name, l ≠ .namedRef name) (hnone : ∀ name ∈ captureNames ls, name = none)
    (hfew : (captureNames ls).length ≤ maxGroups) (hstands : Shape.Stands ls) :
    ∃ program, Program.ofSource? source mode = some program := by
  obtain ⟨b, hb⟩ := hstands
  have hshape := Progress.shape_readAll (captureNames ls)
    (.initial ⟨mode.ignoreCase, mode.multiline, false⟩) hnames
  rw [show (Progress.initial ⟨mode.ignoreCase, mode.multiline, false⟩).shape = .initial from rfl,
    hb] at hshape
  obtain ⟨p, hp, hpshape⟩ := Option.map_eq_some_iff.1 hshape
  refine ⟨_, Program.ofSource?_eq_some_iff.2
    ⟨ls, p, ⟨by rwa [hmode], hfew, distinctNames_of_none hnone, by rwa [hmode], ?_⟩, rfl⟩⟩
  have hgroups := congrArg Shape.groups hpshape
  exact List.map_eq_nil_iff.1 hgroups

end ExtensibleRegex.Native
