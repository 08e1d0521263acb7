import ExtensibleRegex.Native.Engine

/-!
# Runs over single characters

Small patterns are made of characters, classes, and greedy loops over a class. This file says what
a forward run of such a tree does, in terms of the text ahead:

* a character that is admitted takes the run one place on (`Node.run_atom`);
* a loop with a fixed number of rounds takes that many characters (`Node.run_loop_fixed`);
* a greedy loop takes all characters that the class admits, when what follows accepts that
  (`Node.run_loop_of_some`) or refuses every shorter way (`Node.run_loop_of_stop`).
-/

namespace ExtensibleRegex

/-! ## 1. Places further on -/

namespace Place

theorem advance_zero (p : Place) : p.advance 0 = p := rfl

theorem advance_advance (m n : Nat) (p : Place) :
    (p.advance m).advance n = p.advance (m + n) := by
  induction m generalizing p with
  | zero => rw [advance_zero, Nat.zero_add]
  | succ m ih =>
    rw [Nat.succ_add]
    cases h : p.next? with
    | some r => simp only [advance, h, ih]
    | none =>
      have hstay : ∀ k, p.advance k = p := by
        intro k
        cases k with
        | zero => rfl
        | succ k => simp only [advance, h]
      rw [hstay, hstay, hstay]

theorem advance_succ_of_next? {p q : Place} {c : Char} (h : p.next? = some (c, q)) (n : Nat) :
    p.advance (n + 1) = q.advance n := by
  simp only [advance, h]

theorem next?_of_ahead {p : Place} {c : Char} {cs : Text} (h : p.ahead = c :: cs) :
    p.next? = some (c, p.advance 1) := by
  obtain ⟨behind, ahead, i, o, hi, ho⟩ := p
  cases h
  rfl

/-- An advance within the text moves on by as many characters. -/
theorem index_advance {p : Place} : ∀ {n : Nat}, n ≤ p.ahead.length →
    (p.advance n).index = p.index + n
  | 0, _ => rfl
  | n + 1, h => by
      have hahead := ahead_advance n p
      cases hd : p.ahead.drop n with
      | nil =>
        have := List.drop_eq_nil_iff.1 hd
        omega
      | cons c cs =>
        have hnext := next?_of_ahead (hahead.trans hd)
        have hq := (next?_eq_some hnext).2.1
        rw [advance_advance] at hq hnext
        have ih := index_advance (p := p) (Nat.le_of_succ_le h)
        rw [index_eq, hq, List.length_cons, ← index_eq, ih, Nat.add_assoc]

/-- What lies behind after an advance within the text. -/
theorem behind_advance {p : Place} : ∀ (n : Nat),
    (p.advance n).behind = (p.ahead.take n).reverse ++ p.behind
  | 0 => rfl
  | n + 1 => by
      cases h : p.next? with
      | none =>
        have hnil : p.ahead = [] := by simpa [atEnd] using (next?_eq_none_iff p).1 h
        simp [advance, h, hnil]
      | some r =>
        obtain ⟨c, q⟩ := r
        obtain ⟨hahead, hbehind, -⟩ := next?_eq_some h
        rw [advance_succ_of_next? h, behind_advance n, hbehind, hahead]
        simp

end Place

namespace Native

/-- A track further on. -/
def Track.skip (n : Nat) (t : Track) : Track := { t with place := t.place.advance n }

theorem Track.skip_zero (t : Track) : t.skip 0 = t := rfl

theorem Track.skip_skip (m n : Nat) (t : Track) : (t.skip m).skip n = t.skip (m + n) := by
  simp only [skip, Place.advance_advance]

theorem Track.ahead_skip (n : Nat) (t : Track) :
    (t.skip n).place.ahead = t.place.ahead.drop n := by
  rw [skip, Place.ahead_advance]

/-! ## 2. Single characters -/

/-- One admitted character is taken. -/
theorem Node.run_atom (a : Atom) (k : Continuation) (t : Track) :
    (Node.atom a).run .forward k t =
      match t.place.ahead with
      | c :: _ => if a.admits c then k (t.skip 1) else none
      | [] => none := by
  simp only [run, Atom.step, Direction.next?]
  cases h : t.place.ahead with
  | nil =>
    have hnone : t.place.next? = none := by rw [Place.next?_eq_none_iff, Place.atEnd, h]; rfl
    simp only [hnone]
  | cons c cs =>
    simp only [Place.next?_of_ahead h]
    by_cases hc : a.admits c = true
    · simp only [hc, if_true]
      rfl
    · simp only [hc]
      rfl

/-! ## 3. Loops over a class -/

/-- How many of the characters ahead an atom admits in a row. -/
def Atom.reach (a : Atom) (t : Track) : Nat := (t.place.ahead.takeWhile a.admits).length

theorem Atom.exists_of_reach {a : Atom} {t : Track} (h : 0 < a.reach t) :
    ∃ c cs, t.place.ahead = c :: cs ∧ a.admits c = true := by
  unfold reach at h
  cases ht : t.place.ahead with
  | nil => rw [ht] at h; exact absurd h (Nat.lt_irrefl 0)
  | cons c cs =>
    rw [ht] at h
    by_cases hc : a.admits c = true
    · exact ⟨c, cs, rfl, hc⟩
    · simp [hc] at h

/-- One round of a loop over an atom. -/
abbrev Atom.round (a : Atom) (first : Nat) (k : Continuation) : Continuation :=
  (Node.atom a).run .forward fun u => k (u.forget ⟨first, 0⟩)

theorem Atom.round_eq (a : Atom) (first : Nat) (k : Continuation) (t : Track) :
    a.round first k t = (Node.atom a).run .forward k t := rfl

theorem Atom.round_of_reach {a : Atom} (first : Nat) {k : Continuation} {t : Track}
    (h : 0 < a.reach t) :
    a.round first k t = k (t.skip 1) ∧ a.reach (t.skip 1) + 1 = a.reach t := by
  obtain ⟨c, cs, ht, hc⟩ := exists_of_reach h
  rw [round_eq, Node.run_atom]
  simp only [reach, Track.ahead_skip, ht, hc, if_true, List.takeWhile_cons]
  exact ⟨trivial, rfl⟩

theorem Atom.round_of_not_reach {a : Atom} {first : Nat} {k : Continuation} {t : Track}
    (h : a.reach t = 0) : a.round first k t = none := by
  rw [round_eq, Node.run_atom]
  unfold reach at h
  cases ht : t.place.ahead with
  | nil => rfl
  | cons c cs =>
    by_cases hc : a.admits c = true
    · simp [ht, hc] at h
    · simp [hc]

/-- The rounds that a loop has to take are that many characters. -/
theorem requiredRounds_atom (a : Atom) (first : Nat) (k : Continuation) : ∀ (m : Nat) (t : Track),
    requiredRounds (a.round first) k m t = if m ≤ a.reach t then k (t.skip m) else none
  | 0, t => by
      rw [if_pos (Nat.zero_le _)]
      rfl
  | m + 1, t => by
      unfold requiredRounds
      by_cases h : 0 < a.reach t
      · obtain ⟨hround, hreach⟩ := Atom.round_of_reach first
          (k := requiredRounds (a.round first) k m) h
        rw [hround, requiredRounds_atom a first k m, Track.skip_skip, Nat.add_comm 1 m]
        by_cases hm : m ≤ a.reach (t.skip 1)
        · rw [if_pos hm, if_pos (by omega)]
        · rw [if_neg hm, if_neg (by omega)]
      · rw [Atom.round_of_not_reach (by omega), if_neg (by omega)]

/-- A greedy loop goes on as far as it can when what follows accepts that. -/
theorem optionalRounds_of_some (a : Atom) (first : Nat) (k : Continuation) {u : Track} :
    ∀ (left : Text) (t : Track), left = t.place.ahead → k (t.skip (a.reach t)) = some u →
      optionalRounds (a.round first) true k left none t = some u
  | [], t, hleft, hk => by
      have hreach : a.reach t = 0 := by rw [Atom.reach, ← hleft]; rfl
      rw [hreach] at hk
      exact hk
  | c :: left, t, hleft, hk => by
      unfold optionalRounds
      simp only [reduceCtorEq, if_false, if_true]
      by_cases h : 0 < a.reach t
      · obtain ⟨hround, hreach⟩ := Atom.round_of_reach first
          (k := fun u => if u.place.index = t.place.index then none
            else optionalRounds (a.round first) true k left (Option.map (· - 1) none) u) h
        have hindex : (t.skip 1).place.index = t.place.index + 1 :=
          Place.index_advance (by rw [← hleft]; simp)
        have hahead : left = (t.skip 1).place.ahead := by
          rw [Track.ahead_skip, ← hleft]
          rfl
        have hnext : k ((t.skip 1).skip (a.reach (t.skip 1))) = some u := by
          rw [Track.skip_skip, Nat.add_comm, hreach]
          exact hk
        have ih := optionalRounds_of_some a first k left (t.skip 1) hahead hnext
        rw [hround, if_neg (by omega)]
        simp only [Option.map_none, ih]
      · rw [Atom.round_of_not_reach (by omega)]
        have hreach : a.reach t = 0 := by omega
        rw [hreach] at hk
        exact hk

/-- A greedy loop goes on as far as it can when what follows refuses every shorter way. -/
theorem optionalRounds_of_stop (a : Atom) (first : Nat) (k : Continuation) :
    ∀ (left : Text) (t : Track), left = t.place.ahead →
      (∀ j < a.reach t, k (t.skip j) = none) →
      optionalRounds (a.round first) true k left none t = k (t.skip (a.reach t))
  | [], t, hleft, _ => by
      have hreach : a.reach t = 0 := by rw [Atom.reach, ← hleft]; rfl
      rw [hreach]
      rfl
  | c :: left, t, hleft, hk => by
      unfold optionalRounds
      simp only [reduceCtorEq, if_false, if_true]
      by_cases h : 0 < a.reach t
      · obtain ⟨hround, hreach⟩ := Atom.round_of_reach first
          (k := fun u => if u.place.index = t.place.index then none
            else optionalRounds (a.round first) true k left (Option.map (· - 1) none) u) h
        have hindex : (t.skip 1).place.index = t.place.index + 1 :=
          Place.index_advance (by rw [← hleft]; simp)
        have hahead : left = (t.skip 1).place.ahead := by
          rw [Track.ahead_skip, ← hleft]
          rfl
        have hnext : ∀ j < a.reach (t.skip 1), k ((t.skip 1).skip j) = none := by
          intro j hj
          rw [Track.skip_skip]
          exact hk (1 + j) (by omega)
        have ih := optionalRounds_of_stop a first k left (t.skip 1) hahead hnext
        rw [Track.skip_skip, Nat.add_comm, hreach] at ih
        rw [hround, if_neg (by omega)]
        simp only [Option.map_none, ih]
        have hfirst : k t = none := hk 0 h
        rw [hfirst]
        cases k (t.skip (a.reach t)) <;> rfl
      · rw [Atom.round_of_not_reach (by omega)]
        have hreach : a.reach t = 0 := by omega
        rw [hreach]
        rfl

namespace Node

variable {a : Atom} {first m : Nat} {k : Continuation} {t : Track}

theorem run_loop_atom (max : Option Nat) :
    (Node.loop (.atom a) m max true ⟨first, 0⟩).run .forward k t =
      if m ≤ a.reach t then
        optionalRounds (a.round first) true k (t.skip m).place.ahead (max.map (· - m)) (t.skip m)
      else none :=
  requiredRounds_atom a first _ m t

theorem reach_skip (h : m ≤ a.reach t) : a.reach (t.skip m) + m = a.reach t := by
  induction m with
  | zero => rfl
  | succ m ih =>
    have hm := ih (Nat.le_of_succ_le h)
    have := (Atom.round_of_reach 0 (k := some) (a := a) (t := t.skip m) (by omega)).2
    rw [Track.skip_skip] at this
    omega

/-- A loop with a fixed number of rounds takes that many characters. -/
theorem run_loop_fixed :
    (Node.loop (.atom a) m (some m) true ⟨first, 0⟩).run .forward k t =
      if m ≤ a.reach t then k (t.skip m) else none := by
  rw [run_loop_atom]
  have hstay (left : Text) : optionalRounds (a.round first) true k left
      ((some m).map (· - m)) (t.skip m) = k (t.skip m) := by
    cases left with
    | nil => rfl
    | cons c left => simp [optionalRounds]
  rw [hstay]

/-- Too few characters for the rounds that a loop has to take. -/
theorem run_loop_of_lt (h : a.reach t < m) :
    (Node.loop (.atom a) m none true ⟨first, 0⟩).run .forward k t = none := by
  rw [run_loop_atom, if_neg (by omega)]

/-- **A greedy loop takes all that its class admits**, when what follows accepts that. -/
theorem run_loop_of_some {u : Track} (hm : m ≤ a.reach t) (hk : k (t.skip (a.reach t)) = some u) :
    (Node.loop (.atom a) m none true ⟨first, 0⟩).run .forward k t = some u := by
  rw [run_loop_atom, if_pos hm]
  refine optionalRounds_of_some a first k _ _ rfl ?_
  rw [Track.skip_skip, Nat.add_comm, reach_skip hm]
  exact hk

/-- It also does when what follows refuses every shorter way. -/
theorem run_loop_of_stop (hm : m ≤ a.reach t)
    (hk : ∀ j, m ≤ j → j < a.reach t → k (t.skip j) = none) :
    (Node.loop (.atom a) m none true ⟨first, 0⟩).run .forward k t = k (t.skip (a.reach t)) := by
  rw [run_loop_atom, if_pos hm]
  have hreach := reach_skip hm
  have hstop : ∀ j < a.reach (t.skip m), k ((t.skip m).skip j) = none := by
    intro j hj
    rw [Track.skip_skip]
    exact hk (m + j) (by omega) (by omega)
  have h := optionalRounds_of_stop a first k _ (t.skip m) rfl hstop
  rw [Track.skip_skip, Nat.add_comm, hreach] at h
  exact h

end Node

end Native

end ExtensibleRegex
