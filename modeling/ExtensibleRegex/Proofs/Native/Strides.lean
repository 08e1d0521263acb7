import ExtensibleRegex.Proofs.Native.Fragments
import Mathlib.Tactic

/-!
# Trees that take one way

Where everything that may follow is accepted, a greedy tree goes the first way it can and never comes
back. A tree has a *stride* (`Node.Strides`) if from every place it then takes as many characters as
the stride says, or fails where the stride is zero. A choice has the stride of its first alternative
that does not fail (`Strides.alt`), and a greedy loop repeats the stride of its body as often as it can
(`Strides.loop`, `repeated`).
-/

namespace ExtensibleRegex.Native

/-! ## 1. Strides -/

/-- What is to follow accepts everything behind a track. -/
def AcceptsBehind (k : Continuation) (t : Track) : Prop :=
  ∀ j, 0 < j → j ≤ t.place.ahead.length → (k (t.skip j)).isSome = true

/-- A tree that takes as many characters as the stride says, where that is not zero, as long as no
group has taken part. -/
structure Node.Strides (n : Node) (stride : Place → Nat) : Prop where
  le : ∀ p, stride p ≤ p.ahead.length
  run : ∀ k t, t.groups = [] → AcceptsBehind k t → n.run .forward k t =
    if stride t.place = 0 then none else k (t.skip (stride t.place))

/-- As many characters as strides take one after another, up to `limit` of them. -/
def farthest (stride : Place → Nat) : (limit : Nat) → Place → Nat
  | 0, _ => 0
  | limit + 1, p =>
    if stride p = 0 then 0 else stride p + farthest stride limit (p.advance (stride p))

/-- All strides from a place on: at least one of them. -/
def repeated (stride : Place → Nat) (p : Place) : Nat :=
  if stride p = 0 then 0
  else stride p + farthest stride (p.advance (stride p)).ahead.length (p.advance (stride p))

section Farthest

variable {stride : Place → Nat}

theorem length_ahead_advance (n : Nat) (p : Place) :
    (p.advance n).ahead.length = p.ahead.length - n := by
  rw [Place.ahead_advance, List.length_drop]

theorem farthest_le (h : ∀ p, stride p ≤ p.ahead.length) : ∀ (limit : Nat) (p : Place),
    farthest stride limit p ≤ p.ahead.length
  | 0, _ => Nat.zero_le _
  | limit + 1, p => by
      unfold farthest
      split
      · exact Nat.zero_le _
      · have hrest := farthest_le h limit (p.advance (stride p))
        rw [length_ahead_advance] at hrest
        have hle := h p
        omega

theorem repeated_le (h : ∀ p, stride p ≤ p.ahead.length) (p : Place) :
    repeated stride p ≤ p.ahead.length := by
  unfold repeated
  split
  · exact Nat.zero_le _
  · have hrest := farthest_le h (p.advance (stride p)).ahead.length (p.advance (stride p))
    rw [length_ahead_advance] at hrest ⊢
    have hle := h p
    omega

/-- What every stride keeps, all of them keep. -/
theorem farthest_keeps {motive : Place → Prop}
    (h : ∀ p, motive p → stride p ≠ 0 → motive (p.advance (stride p))) : ∀ (limit : Nat) (p : Place),
    motive p → motive (p.advance (farthest stride limit p))
  | 0, _, hp => hp
  | limit + 1, p, hp => by
      unfold farthest
      split
      · exact hp
      · rename_i hne
        rw [← Place.advance_advance]
        exact farthest_keeps h limit _ (h p hp hne)

theorem repeated_keeps {motive : Place → Prop}
    (h : ∀ p, motive p → stride p ≠ 0 → motive (p.advance (stride p))) {p : Place} (hp : motive p) :
    motive (p.advance (repeated stride p)) := by
  unfold repeated
  split
  · exact hp
  · rename_i hne
    rw [← Place.advance_advance]
    exact farthest_keeps h _ _ (h p hp hne)

/-- Strides go on until there is none. -/
theorem stride_farthest (h : ∀ p, stride p ≤ p.ahead.length) : ∀ (limit : Nat) (p : Place),
    p.ahead.length ≤ limit → stride (p.advance (farthest stride limit p)) = 0
  | 0, p, hlimit => Nat.le_zero.1 (Nat.le_trans (h p) hlimit)
  | limit + 1, p, hlimit => by
      unfold farthest
      split
      · assumption
      · rw [← Place.advance_advance]
        refine stride_farthest h limit _ ?_
        rw [length_ahead_advance]
        omega

theorem stride_repeated (h : ∀ p, stride p ≤ p.ahead.length) (p : Place) :
    stride (p.advance (repeated stride p)) = 0 := by
  unfold repeated
  split
  · assumption
  · rw [← Place.advance_advance]
    exact stride_farthest h _ _ (Nat.le_refl _)

theorem repeated_eq_zero_iff (p : Place) : repeated stride p = 0 ↔ stride p = 0 := by
  unfold repeated
  split <;> omega

end Farthest

/-! ## 2. Loops -/

/-- A greedy loop accepts where what follows does. -/
theorem isSome_optionalRounds {round : Continuation → Continuation} {k : Continuation} {t : Track}
    (h : (k t).isSome = true) : ∀ (left : Text) (max : Option Nat),
    (optionalRounds round true k left max t).isSome = true
  | [], _ => h
  | _ :: left, max => by
      unfold optionalRounds
      split
      · exact h
      · rw [if_pos rfl]
        split
        · rfl
        · exact h

theorem index_skip {t : Track} {j : Nat} (h : j ≤ t.place.ahead.length) :
    (t.skip j).place.index = t.place.index + j := Place.index_advance h

theorem length_ahead_skip (t : Track) (j : Nat) :
    (t.skip j).place.ahead.length = t.place.ahead.length - j := length_ahead_advance j t.place

theorem AcceptsBehind.skip {k : Continuation} {t : Track} (h : AcceptsBehind k t) {i : Nat} :
    AcceptsBehind k (t.skip i) := by
  intro j hpos hle
  rw [length_ahead_skip] at hle
  rw [Track.skip_skip]
  exact h (i + j) (by omega) (by omega)

namespace Node

variable {n : Node} {stride : Place → Nat}

/-- Optional rounds are taken as long as there is a stride. -/
theorem Strides.optionalRounds_eq (h : n.Strides stride) (k : Continuation) : ∀ (left : Text)
    (t : Track), t.groups = [] → AcceptsBehind k t → (k t).isSome = true →
    optionalRounds (n.run .forward) true k left none t =
      k (t.skip (farthest stride left.length t.place))
  | [], _, _, _, _ => rfl
  | _ :: left, t, hgroups, hbehind, hhere => by
      obtain ⟨next, hdef⟩ : ∃ next : Continuation, next = fun u =>
          if u.place.index = t.place.index then none
          else optionalRounds (n.run .forward) true k left (Option.map (· - 1) none) u := ⟨_, rfl⟩
      have hnext {j : Nat} (hpos : 0 < j) (hle : j ≤ t.place.ahead.length) :
          next (t.skip j) = optionalRounds (n.run .forward) true k left none (t.skip j) := by
        rw [hdef]
        refine if_neg ?_
        rw [index_skip hle]
        omega
      have haccepts : AcceptsBehind next t := fun j hpos hle => by
        rw [hnext hpos hle]
        exact isSome_optionalRounds (hbehind j hpos hle) left none
      unfold optionalRounds
      rw [if_neg (Option.some_ne_none 0).symm, if_pos rfl, ← hdef, h.run next t hgroups haccepts,
        List.length_cons, farthest]
      by_cases hzero : stride t.place = 0
      · rw [if_pos hzero, if_pos hzero]
        rfl
      · have hpos := Nat.pos_of_ne_zero hzero
        have hle := h.le t.place
        have hfar := hbehind (stride t.place + farthest stride left.length (t.skip (stride t.place)).place)
          (by omega) (by
            have hrest := farthest_le h.le left.length (t.skip (stride t.place)).place
            rw [length_ahead_skip] at hrest
            omega)
        rw [if_neg hzero, if_neg hzero, hnext hpos hle,
          h.optionalRounds_eq k left (t.skip (stride t.place)) hgroups hbehind.skip
            (hbehind _ hpos hle), Track.skip_skip]
        obtain ⟨u, hu⟩ := Option.isSome_iff_exists.1 hfar
        rw [hu]
        exact hu.symm

/-- **A greedy loop repeats a stride** as often as there is one. -/
theorem Strides.loop (h : n.Strides stride) (first : Nat) :
    (Node.loop n 1 none true ⟨first, 0⟩).Strides (repeated stride) where
  le := repeated_le h.le
  run k t hgroups hbehind := by
    let rest : Continuation := fun u =>
      optionalRounds (n.run .forward) true k u.place.ahead none u
    have haccepts : AcceptsBehind rest t := fun j hpos hle =>
      isSome_optionalRounds (hbehind j hpos hle) _ none
    show n.run .forward rest t = _
    rw [h.run rest t hgroups haccepts]
    unfold repeated
    by_cases hzero : stride t.place = 0
    · rw [if_pos hzero, if_pos hzero, if_pos rfl]
    · have hpos := Nat.pos_of_ne_zero hzero
      rw [if_neg hzero, if_neg hzero, if_neg (by omega), ← Track.skip_skip]
      exact h.optionalRounds_eq k _ (t.skip (stride t.place)) hgroups hbehind.skip
        (hbehind _ hpos (h.le t.place))

/-! ## 3. Choices and leaves -/

theorem Strides.alt {m : Node} {stride' : Place → Nat} (h : n.Strides stride)
    (h' : m.Strides stride') :
    (Node.alt n m).Strides fun p => if stride p = 0 then stride' p else stride p where
  le p := by
    split
    · exact h'.le p
    · exact h.le p
  run k t hgroups hbehind := by
    rw [run_alt, h.run k t hgroups hbehind, h'.run k t hgroups hbehind]
    by_cases hzero : stride t.place = 0
    · simp only [if_pos hzero]
    · obtain ⟨u, hu⟩ := Option.isSome_iff_exists.1
        (hbehind _ (Nat.pos_of_ne_zero hzero) (h.le t.place))
      simp only [if_neg hzero, hu]

theorem Strides.seq_empty (h : n.Strides stride) : (Node.seq n .empty).Strides stride where
  le := h.le
  run k t hgroups hbehind := by
    rw [run_seq_empty]
    exact h.run k t hgroups hbehind

/-- Where the body of a negative lookahead has no match, a character that an atom admits is taken. -/
theorem strides_unless {body : Node} {a : Atom} {q : Place → Bool}
    (hq : ∀ p, q p = true ↔
      body.run .forward some ⟨p, []⟩ = none ∧ p.ahead.head?.any a.admits = true) :
    (Node.seq (.look false true body) (.seq (.atom a) .empty)).Strides
      fun p => if q p then 1 else 0 where
  le p := by
    split
    · rename_i hp
      cases hahead : p.ahead with
      | nil =>
        have hhead := ((hq p).1 hp).2
        rw [hahead] at hhead
        cases hhead
      | cons c cs => exact Nat.le_add_left 1 _
    · exact Nat.zero_le _
  run k t hgroups _ := by
    obtain ⟨p, groups⟩ := t
    obtain rfl : groups = [] := hgroups
    have hrun : (Node.seq (.look false true body) (.seq (.atom a) .empty)).run .forward k ⟨p, []⟩ =
        if q p then k (Track.skip 1 ⟨p, []⟩) else none := by
      rw [run_seq_forward, run_not]
      cases hbody : body.run .forward some ⟨p, []⟩ with
      | some u => exact (if_neg fun hp => Option.some_ne_none u (hbody ▸ ((hq p).1 hp).1)).symm
      | none =>
        show (Node.seq (.atom a) .empty).run .forward k ⟨p, []⟩ = _
        rw [run_seq_empty, run_atom]
        dsimp only
        have hp := hq p
        rw [hbody] at hp
        cases hahead : p.ahead with
        | nil =>
          rw [hahead] at hp
          exact (if_neg fun h => Bool.noConfusion (hp.1 h).2).symm
        | cons c cs =>
          rw [hahead] at hp
          simp only [hp, true_and, List.head?_cons, Option.any_some]
    rw [hrun]
    cases q p <;> rfl

end Node

end ExtensibleRegex.Native
