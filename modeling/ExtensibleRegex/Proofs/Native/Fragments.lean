import ExtensibleRegex.Proofs.Native.Characters
import ExtensibleRegex.Text.Ascii
import Mathlib.Tactic

/-!
# Fragments of native patterns

The patterns that tokens are triggered by are short, and put together from a few fragments: a
character, an optional one, as many of a class as there are, a text that must not come next. This
file says what a run through each fragment does, and what follows for a whole pattern:

* `run_char`, `run_optional`, `run_many_until`, `run_capture_until`, `run_not` are the fragments;
* an `Extent` says how far a match reaches and where its group lies;
* `Runs` says that the runs of a tree lead to the extents that a function on the text ahead gives,
  and `matchAt?_of_runs` that the matches of the pattern are then these.
-/

namespace ExtensibleRegex

namespace Native

/-! ## 1. Classes of the triggers -/

/-- The characters of a name. -/
def nameSet : CodeSet := .union Shorthand.word.members (.ranges [(36, 36)])

/-- Hexadecimal digits. -/
def hexSet : CodeSet :=
  .union (.ranges [(48, 57)]) (.union (.ranges [(65, 70)]) (.ranges [(97, 102)]))

/-- Letters. -/
def letterSet : CodeSet := .union (.ranges [(65, 90)]) (.ranges [(97, 122)])

theorem toNat_le_iff (a b : Char) : a ≤ b ↔ a.toNat ≤ b.toNat := by
  rw [Char.le_def, UInt32.le_iff_toNat_le]
  rfl

/-- Letters by their code points. -/
theorem isAlpha_eq (c : Char) : c.isAlpha = (decide (65 ≤ c.val ∧ c.val ≤ 90) ||
    (decide (97 ≤ c.val) && decide (c.val ≤ 122))) := rfl

theorem contains_nameSet (c : Char) : nameSet.contains c.toNat = isNameChar c := by
  have hd : c = '$' ↔ c.toNat = 36 := by rw [← Char.toNat_inj]; rfl
  have hu : c = '_' ↔ c.toNat = 95 := by rw [← Char.toNat_inj]; rfl
  have hval : c.val.toNat = c.toNat := rfl
  rw [Bool.eq_iff_iff]
  simp [nameSet, CodeSet.contains, Shorthand.members, inRanges, isNameChar, Char.isAlphanum,
    isAlpha_eq, Char.isDigit, UInt32.le_iff_toNat_le, hd, hu]
  omega

theorem contains_hexSet (c : Char) : hexSet.contains c.toNat = isHexDigit c := by
  have hval : c.val.toNat = c.toNat := rfl
  rw [Bool.eq_iff_iff]
  simp [hexSet, CodeSet.contains, inRanges, isHexDigit, Char.isDigit, toNat_le_iff,
    UInt32.le_iff_toNat_le]
  omega

theorem contains_letterSet (c : Char) : letterSet.contains c.toNat = c.isAlpha := by
  rw [Bool.eq_iff_iff]
  simp [letterSet, CodeSet.contains, inRanges, isAlpha_eq, UInt32.le_iff_toNat_le]

theorem contains_digits (c : Char) : Shorthand.digit.members.contains c.toNat = c.isDigit := by
  rw [Bool.eq_iff_iff]
  simp [Shorthand.members, inRanges, Char.isDigit, UInt32.le_iff_toNat_le]

theorem contains_single (c d : Char) :
    (CodeSet.ranges [(c.toNat, c.toNat)]).contains d.toNat = (d == c) := by
  rw [Bool.eq_iff_iff, beq_iff_eq, ← Char.toNat_inj]
  simp [inRanges]
  omega

/-! ## 2. Parts of triggers -/

namespace Node

/-- A single character. -/
def char (c : Char) : Node := .atom (.literal c.toNat false)

/-- A character of a set. -/
def inside (s : CodeSet) : Atom := .set false s false

/-- A character that is not in a set. -/
def outside (s : CodeSet) : Atom := .set true s false

/-- As many characters as there are, at least `min`. -/
def many (a : Atom) (min first : Nat) : Node := .loop (.atom a) min none true ⟨first, 0⟩

theorem admits_literal (c d : Char) : (Atom.literal c.toNat false).admits d = (d == c) := by
  simp only [Atom.admits]
  by_cases h : d = c
  · simp [h]
  · have : c.toNat ≠ d.toNat := fun e => h (Char.toNat_inj.1 e).symm
    simp [h, this]

theorem admits_inside (s : CodeSet) (c : Char) : (inside s).admits c = s.contains c.toNat := by
  simp [inside, Atom.admits]

theorem admits_outside (s : CodeSet) (c : Char) : (outside s).admits c = !s.contains c.toNat := by
  simp [outside, Atom.admits]

theorem reach_eq {a : Atom} {q : Char → Bool} (h : ∀ c, a.admits c = q c) (t : Track) :
    a.reach t = (t.place.ahead.takeWhile q).length := by
  rw [Atom.reach, funext h]

variable {k : Continuation} {t : Track}

/-- A character and what follows it. -/
theorem run_char (c : Char) (rest : Node) :
    (Node.seq (char c) rest).run .forward k t =
      match t.place.ahead with
      | d :: _ => if d = c then rest.run .forward k (t.skip 1) else none
      | [] => none := by
  rw [run_seq_forward, char, run_atom]
  cases t.place.ahead with
  | nil => rfl
  | cons d _ => simp only [admits_literal, beq_iff_eq]

theorem run_char_cons {c : Char} {cs : Text} (h : t.place.ahead = c :: cs) (rest : Node) :
    (Node.seq (char c) rest).run .forward k t = rest.run .forward k (t.skip 1) := by
  simp only [run_char, h, if_true]

theorem run_char_ne {c : Char} (h : t.place.ahead.head? ≠ some c) (rest : Node) :
    (Node.seq (char c) rest).run .forward k t = none := by
  rw [run_char]
  cases ht : t.place.ahead with
  | nil => rfl
  | cons d _ =>
    rw [ht] at h
    have hd : d ≠ c := fun he => h (by rw [he]; rfl)
    simp only [if_neg hd]

/-- A character that need not be there. -/
theorem run_optional (a : Atom) (first : Nat) (rest : Node) :
    (Node.seq (.loop (.atom a) 0 (some 1) true ⟨first, 0⟩) rest).run .forward k t =
      if 0 < a.reach t then
        match rest.run .forward k (t.skip 1) with
        | some u => some u
        | none => rest.run .forward k t
      else rest.run .forward k t := by
  rw [run_seq_forward, run_loop_atom, if_pos (Nat.zero_le _), Track.skip_zero]
  simp only [Option.map_some, Nat.sub_zero]
  cases h : t.place.ahead with
  | nil =>
    have hreach : a.reach t = 0 := by rw [Atom.reach, h]; rfl
    rw [hreach, if_neg (Nat.lt_irrefl 0)]
    rfl
  | cons c cs =>
    unfold optionalRounds
    simp only [Option.some.injEq, Nat.one_ne_zero, if_false, if_true]
    by_cases hr : 0 < a.reach t
    · rw [(Atom.round_of_reach _ hr).1, if_pos hr]
      have hindex : (t.skip 1).place.index = t.place.index + 1 :=
        Place.index_advance (by rw [h]; simp)
      rw [if_neg (by omega)]
      have hstay : optionalRounds (a.round first) true (rest.run .forward k) cs
          (Option.map (· - 1) (some 1)) (t.skip 1) = rest.run .forward k (t.skip 1) := by
        cases cs with
        | nil => rfl
        | cons d ds => simp [optionalRounds]
      cases hnext : rest.run .forward k (t.skip 1) <;> simp only [hstay, hnext]
    · rw [Atom.round_of_not_reach (by omega), if_neg hr]

theorem run_optional_of_some {a : Atom} {first : Nat} {rest : Node} {u : Track} (h : 0 < a.reach t)
    (hu : rest.run .forward k (t.skip 1) = some u) :
    (Node.seq (.loop (.atom a) 0 (some 1) true ⟨first, 0⟩) rest).run .forward k t = some u := by
  rw [run_optional, if_pos h, hu]

/-- What must not come next. -/
theorem run_not (body : Node) :
    (Node.look false true body).run .forward k t =
      match body.run .forward some t with
      | some _ => none
      | none => k t := by
  cases hbody : body.run .forward some t <;> simp [run, hbody]

theorem run_group (i : Nat) (body : Node) :
    (Node.group i body).run .forward k t =
      body.run .forward (fun u => k (u.record i ⟨t.place, u.place⟩)) t := rfl

/-- The first of two ways that leads on. -/
theorem run_alt (a b : Node) (k : Continuation) (t : Track) :
    (Node.alt a b).run .forward k t =
      match a.run .forward k t with
      | some u => some u
      | none => b.run .forward k t := by
  cases ha : a.run .forward k t <;> simp only [Node.run, ha]

theorem run_seq_empty (a : Node) : (Node.seq a .empty).run .forward k t = a.run .forward k t := by
  rw [run_seq_forward]
  rfl

/-- Before the end of its reach an atom is not stopped by a character that it does not admit. -/
theorem head?_skip_ne {a : Atom} {c : Char} (hc : a.admits c = false) {j : Nat}
    (hj : j < a.reach t) : (t.skip j).place.ahead.head? ≠ some c := by
  have hreach := reach_skip (Nat.le_of_lt hj)
  obtain ⟨d, ds, hd, had⟩ := Atom.exists_of_reach (a := a) (t := t.skip j) (by omega)
  rw [hd]
  intro hdc
  cases hdc
  rw [hc] at had
  cases had

/-- Characters up to one that is not among them. -/
theorem run_many_until {a : Atom} {c : Char} (hc : a.admits c = false) (first : Nat)
    (rest : Node) :
    (Node.seq (many a 0 first) (.seq (char c) rest)).run .forward k t =
      if (t.place.ahead.drop (a.reach t)).head? = some c then
        rest.run .forward k ((t.skip (a.reach t)).skip 1)
      else none := by
  rw [run_seq_forward, many, run_loop_of_stop (Nat.zero_le _)]
  · by_cases hnext : (t.place.ahead.drop (a.reach t)).head? = some c
    · obtain ⟨cs, hcs⟩ := List.head?_eq_some_iff.1 hnext
      rw [if_pos hnext]
      exact run_char_cons ((Track.ahead_skip _ _).trans hcs) rest
    · rw [if_neg hnext]
      refine run_char_ne ?_ rest
      rw [Track.ahead_skip]
      exact hnext
  · intro j _ hj
    exact run_char_ne (head?_skip_ne hc hj) rest

/-- A group of characters, at least `m` of them, up to a character that is not one of them. -/
theorem run_capture_until {a : Atom} {c : Char} (hc : a.admits c = false) (i m first : Nat)
    (rest : Node) :
    (Node.seq (.group i (.seq (many a m first) .empty)) (.seq (char c) rest)).run .forward k t =
      if m ≤ a.reach t ∧ (t.place.ahead.drop (a.reach t)).head? = some c then
        rest.run .forward k
          (((t.skip (a.reach t)).record i ⟨t.place, t.place.advance (a.reach t)⟩).skip 1)
      else none := by
  rw [run_seq_forward, run_group, run_seq_empty, many]
  by_cases hr : m ≤ a.reach t
  · rw [run_loop_of_stop hr ?_]
    · by_cases hnext : (t.place.ahead.drop (a.reach t)).head? = some c
      · obtain ⟨cs, hcs⟩ := List.head?_eq_some_iff.1 hnext
        rw [if_pos ⟨hr, hnext⟩]
        have hahead : ((t.skip (a.reach t)).record i ⟨t.place, t.place.advance (a.reach t)⟩).place.ahead
            = c :: cs := (Track.ahead_skip _ _).trans hcs
        exact run_char_cons hahead rest
      · rw [if_neg (fun h => hnext h.2)]
        refine run_char_ne ?_ rest
        exact fun h => hnext ((congrArg List.head? (Track.ahead_skip _ _)).symm.trans h)
    · intro j _ hj
      refine run_char_ne ?_ rest
      exact head?_skip_ne hc hj
  · rw [run_loop_of_lt (by omega), if_neg (fun h => hr h.1)]

/-- Characters one after another. -/
def chars (w : Text) (rest : Node) : Node := w.foldr (fun c n => .seq (char c) n) rest

theorem run_chars (rest : Node) : ∀ (w : Text) (t : Track), (chars w rest).run .forward k t =
    match after? w t.place.ahead with
    | some _ => rest.run .forward k (t.skip w.length)
    | none => none
  | [], t => by simp only [after?]; rfl
  | c :: w, t => by
      show (Node.seq (char c) (chars w rest)).run .forward k t = _
      rw [run_char]
      cases h : t.place.ahead with
      | nil => rfl
      | cons d ds =>
        by_cases hd : c = d
        · subst hd
          simp only [if_true, after?, run_chars rest w, Track.ahead_skip, h, Track.skip_skip,
            List.drop_succ_cons, List.drop_zero, List.length_cons, Nat.add_comm 1]
        · have hd' : d ≠ c := fun e => hd e.symm
          simp only [if_neg hd', after?, if_neg hd]

theorem run_chars_append {w cs : Text} {t : Track} (h : t.place.ahead = w ++ cs) (rest : Node) :
    (chars w rest).run .forward k t = rest.run .forward k (t.skip w.length) := by
  rw [run_chars, (after?_eq_some_iff w _ cs).2 h]

theorem run_chars_none {w : Text} {t : Track} (h : ∀ cs, t.place.ahead ≠ w ++ cs) (rest : Node) :
    (chars w rest).run .forward k t = none := by
  rw [run_chars]
  cases ha : after? w t.place.ahead with
  | none => rfl
  | some cs => exact absurd ((after?_eq_some_iff w _ cs).1 ha) (h cs)

end Node

/-! ## 3. Where triggers match -/

theorem takeWhile_append_drop (q : Char → Bool) (cs : Text) :
    cs = cs.takeWhile q ++ cs.drop (cs.takeWhile q).length := by
  have htake : cs.takeWhile q = cs.take (cs.takeWhile q).length :=
    List.prefix_iff_eq_take.1 (List.takeWhile_prefix q)
  conv_lhs => rw [← List.take_append_drop (cs.takeWhile q).length cs, ← htake]

/-- After the characters of a class comes none of them. -/
theorem head?_drop_takeWhile (q : Char → Bool) (cs : Text) :
    (cs.drop (cs.takeWhile q).length).head?.any q = false := by
  induction cs with
  | nil => rfl
  | cons c cs ih =>
    by_cases hc : q c = true
    · rw [List.takeWhile_cons, if_pos hc]
      exact ih
    · rw [List.takeWhile_cons, if_neg hc]
      simpa using hc

/-- How far a match of a trigger reaches from its place, and where its group lies. -/
structure Extent where
  length : Nat
  group : Option (Nat × Nat) := none
  deriving DecidableEq, Repr

namespace Extent

/-- The track after the match of a trigger at a place. -/
def track (e : Extent) (p : Place) : Track :=
  ⟨p.advance e.length, e.group.toList.map fun g => (1, ⟨p.advance g.1, p.advance g.2⟩)⟩

/-- The match of a trigger at a place. -/
def found (e : Extent) (p : Place) : Found :=
  ⟨⟨p, p.advance e.length⟩, e.group.toList.map fun g => some ⟨p.advance g.1, p.advance g.2⟩⟩

/-- The text of a match. -/
def text (e : Extent) (t : Text) : Text := t.take e.length

/-- The text of the group of a match. -/
def captured (e : Extent) (t : Text) : Text :=
  match e.group with
  | some g => (t.drop g.1).take (g.2 - g.1)
  | none => []

/-- The characters of a class, at least one, up to a closing character. `before` characters stand
before them. -/
def enclosed (before : Nat) (q : Char → Bool) (close : Char) (cs : Text) : Option Extent :=
  let n := (cs.takeWhile q).length
  if 0 < n ∧ (cs.drop n).head? = some close then some ⟨before + n + 1, some (before, before + n)⟩
  else none

/-- What is matched up to a closing character. -/
theorem of_enclosed (before : Text) {q : Char → Bool} {close : Char} {cs : Text} {e : Extent}
    (h : enclosed before.length q close cs = some e) :
    ∃ w rest, w ≠ [] ∧ (∀ c ∈ w, q c = true) ∧ cs = w ++ close :: rest ∧
      e.length = before.length + w.length + 1 ∧ e.group.isSome = true ∧
      e.text (before ++ cs) = before ++ w ++ [close] ∧ e.captured (before ++ cs) = w := by
  unfold enclosed at h
  simp only at h
  split at h
  · rename_i hw
    cases h
    obtain ⟨rest, hrest⟩ := List.head?_eq_some_iff.1 hw.2
    have hcs : cs = cs.takeWhile q ++ close :: rest := by
      rw [← hrest]
      exact takeWhile_append_drop q cs
    refine ⟨cs.takeWhile q, rest, List.length_pos_iff.1 hw.1,
      List.all_eq_true.1 List.all_takeWhile, hcs, rfl, rfl, ?_, ?_⟩
    · have hsplit : before ++ cs = (before ++ cs.takeWhile q ++ [close]) ++ rest := by
        conv_lhs => rw [hcs]
        simp
      have hlen : before.length + (cs.takeWhile q).length + 1 =
          (before ++ cs.takeWhile q ++ [close]).length := by simp [Nat.add_assoc]
      simp only [text]
      rw [hsplit, hlen, List.take_left]
    · simp only [captured]
      rw [Nat.add_sub_cancel_left, List.drop_left]
      exact (List.prefix_iff_eq_take.1 (List.takeWhile_prefix q)).symm
  · cases h

end Extent

open Node

/-- What runs of a tree lead to, at every place. -/
def Runs (node : Node) (spec : Text → Option Extent) : Prop :=
  ∀ p, node.run .forward some ⟨p, []⟩ = (spec p.ahead).map (·.track p)

/-- The matches of a pattern follow from its runs. -/
theorem matchAt?_of_runs {node : Node} {spec : Text → Option Extent} (h : Runs node spec)
    {n : Nat} (hn : ∀ cs e, spec cs = some e → n = e.group.toList.length) (p : Place) :
    Program.matchAt? ⟨node, n⟩ p = (spec p.ahead).map (·.found p) := by
  unfold Program.matchAt?
  rw [h p]
  cases hs : spec p.ahead with
  | none => rfl
  | some e =>
    have hlen := hn _ _ hs
    obtain ⟨length, group⟩ := e
    cases group with
    | none => rw [hlen]; rfl
    | some g => rw [hlen]; rfl

/-- A trigger that begins with fixed characters. -/
theorem runs_chars {w : Text} {rest : Node} {spec : Text → Option Extent}
    (hrest : ∀ p cs, p.ahead = w ++ cs →
      rest.run .forward some ((⟨p, []⟩ : Track).skip w.length) =
        (spec (w ++ cs)).map (·.track p))
    (hnone : ∀ t, (∀ cs, t ≠ w ++ cs) → spec t = none) : Runs (chars w rest) spec := by
  intro p
  by_cases hpre : ∃ cs, p.ahead = w ++ cs
  · obtain ⟨cs, hcs⟩ := hpre
    rw [run_chars_append hcs, hrest p cs hcs, hcs]
  · have hnot : ∀ cs, p.ahead ≠ w ++ cs := fun cs h => hpre ⟨cs, h⟩
    rw [run_chars_none hnot, hnone _ hnot]
    rfl

theorem run_enclosed {a : Atom} {q : Char → Bool} (hq : ∀ c, a.admits c = q c) (close : Char)
    (hclose : q close = false) (first before : Nat) (p : Place) :
    (Node.seq (.group 1 (.seq (many a 1 first) .empty)) (.seq (char close) .empty)).run .forward
        some ((⟨p, []⟩ : Track).skip before) =
      (Extent.enclosed before q close (p.ahead.drop before)).map (·.track p) := by
  rw [run_capture_until ((hq close).trans hclose)]
  have hahead : ((⟨p, []⟩ : Track).skip before).place.ahead = p.ahead.drop before :=
    Track.ahead_skip _ _
  have hreach : a.reach ((⟨p, []⟩ : Track).skip before) =
      ((p.ahead.drop before).takeWhile q).length := by
    rw [reach_eq hq, hahead]
  rw [hreach, hahead]
  show (if 0 < _ ∧ _ then _ else _) = _
  unfold Extent.enclosed
  by_cases h : 0 < ((p.ahead.drop before).takeWhile q).length ∧
      ((p.ahead.drop before).drop ((p.ahead.drop before).takeWhile q).length).head? = some close
  · rw [if_pos h]
    simp only [h, and_self, if_true, Option.map_some, Extent.track, Option.toList_some,
      List.map_cons, List.map_nil]
    simp only [Node.run, Track.skip, Track.record, Place.advance_advance]
  · rw [if_neg h]
    simp only [h, if_false, Option.map_none]

end Native

end ExtensibleRegex
