import ExtensibleRegex.Proofs.Balanced.Parts
import Mathlib.Tactic

/-!
# Counting brackets

What a scan for single characters does is counting. The brackets of a text are the two characters
where they stand without an escape character before them (`brackets`). If no more of them close than
open up to any of them, and as many close as open in all (`Closes`), the text falls into outermost
pairs (`Outermost`); and these are what is found.

* `outermost?` counts how deep the brackets nest and collects the outermost pairs. It succeeds on just the
  brackets that close (`isSome_outermost?_iff`), with their outermost pairs (`outermost_of_outermost?`).
* A scan whose next delimiter is always the next bracket (`BalancedSearch.Sees`) does the same
  (`BalancedSearch.Sees.run_eq`).
-/

namespace ExtensibleRegex

/-! ## 1. Brackets -/

/-- A bracket: whether it opens, and how many characters stand before it. -/
structure Bracket where
  opens : Bool
  index : Nat
  deriving DecidableEq, Repr

/-- The brackets of a text with `i` characters before it. An escape character, if there is one, takes the
character after it out of the text. -/
def brackets (escapeChar : Option Char) (left right : Char) : (i : Nat) → Text → List Bracket
  | _, [] => []
  | i, c :: cs =>
    if escapeChar = some c then
      match cs with
      | [] => []
      | _ :: cs => brackets escapeChar left right (i + 2) cs
    else
      let rest := brackets escapeChar left right (i + 1) cs
      if c = left then ⟨true, i⟩ :: rest
      else if c = right then ⟨false, i⟩ :: rest
      else rest

/-- How many brackets open. -/
def opening (bs : List Bracket) : Nat := bs.countP fun b => b.opens

/-- How many brackets close. -/
def closing (bs : List Bracket) : Nat := bs.countP fun b => !b.opens

/-- Behind `depth` open brackets, no more close than are open, and in the end all are closed. -/
structure Closes (depth : Nat) (bs : List Bracket) : Prop where
  upTo : ∀ k, closing (bs.take k) ≤ depth + opening (bs.take k)
  all : closing bs = depth + opening bs

/-- The outermost pairs of brackets, each with the places of its two brackets: between them, the
brackets close. -/
inductive Outermost : List Bracket → List (Nat × Nat) → Prop
  | nil : Outermost [] []
  | pair {i j : Nat} {inner rest : List Bracket} {pairs : List (Nat × Nat)} (inside : Closes 0 inner)
      (behind : Outermost rest pairs) :
      Outermost (⟨true, i⟩ :: (inner ++ ⟨false, j⟩ :: rest)) ((i, j) :: pairs)

/-! ## 2. Counting -/

theorem closes_nil {depth : Nat} : Closes depth [] ↔ depth = 0 := by
  constructor
  · intro h
    simpa [closing, opening, eq_comm] using h.all
  · rintro rfl
    exact ⟨fun k => by simp [closing], rfl⟩

/-- A bracket that does not close more than is open changes the depth. -/
theorem closes_cons {depth depth' : Nat} {b : Bracket} {bs : List Bracket}
    (h : depth' + (if b.opens then 0 else 1) = depth + (if b.opens then 1 else 0)) :
    Closes depth (b :: bs) ↔ Closes depth' bs := by
  have hopening (bs : List Bracket) :
      opening (b :: bs) = opening bs + if b.opens then 1 else 0 := List.countP_cons
  have hclosing (bs : List Bracket) :
      closing (b :: bs) = closing bs + if b.opens then 0 else 1 := by
    unfold closing
    rw [List.countP_cons]
    cases b.opens <;> rfl
  constructor
  · intro hb
    refine ⟨fun k => ?_, ?_⟩
    · have hk := hb.upTo (k + 1)
      rw [List.take_succ_cons, hopening, hclosing] at hk
      omega
    · have hall := hb.all
      rw [hopening, hclosing] at hall
      omega
  · intro hbs
    refine ⟨fun k => ?_, ?_⟩
    · cases k with
      | zero => exact Nat.zero_le _
      | succ k =>
        have hk := hbs.upTo k
        rw [List.take_succ_cons, hopening, hclosing]
        omega
    · have hall := hbs.all
      rw [hopening, hclosing]
      omega

theorem closes_open {depth i : Nat} {bs : List Bracket} :
    Closes depth (⟨true, i⟩ :: bs) ↔ Closes (depth + 1) bs := closes_cons rfl

theorem closes_close {depth i : Nat} {bs : List Bracket} :
    Closes (depth + 1) (⟨false, i⟩ :: bs) ↔ Closes depth bs := closes_cons rfl

theorem not_closes_zero {i : Nat} {bs : List Bracket} : ¬Closes 0 (⟨false, i⟩ :: bs) := by
  intro h
  have hfirst := h.upTo 1
  simp [closing, opening] at hfirst

/-- The outermost pairs, by the depth at each bracket. `first` is the place of the outermost bracket that
is open. -/
def outermost? : (depth first : Nat) → List Bracket → Option (List (Nat × Nat))
  | 0, _, [] => some []
  | _ + 1, _, [] => none
  | 0, _, ⟨true, i⟩ :: bs => outermost? 1 i bs
  | 0, _, ⟨false, _⟩ :: _ => none
  | depth + 1, first, ⟨true, _⟩ :: bs => outermost? (depth + 2) first bs
  | 1, first, ⟨false, j⟩ :: bs => (outermost? 0 first bs).map ((first, j) :: ·)
  | depth + 2, first, ⟨false, _⟩ :: bs => outermost? (depth + 1) first bs

theorem isSome_outermost?_iff : ∀ (bs : List Bracket) (depth first : Nat),
    (outermost? depth first bs).isSome = true ↔ Closes depth bs
  | [], 0, _ => by simp [outermost?, closes_nil]
  | [], depth + 1, _ => by simp [outermost?, closes_nil]
  | ⟨true, i⟩ :: bs, 0, _ => by
      rw [outermost?, closes_open]
      exact isSome_outermost?_iff bs 1 i
  | ⟨true, _⟩ :: bs, depth + 1, first => by
      rw [outermost?, closes_open]
      exact isSome_outermost?_iff bs (depth + 2) first
  | ⟨false, _⟩ :: bs, 0, _ => by simp [outermost?, not_closes_zero]
  | ⟨false, _⟩ :: bs, 1, first => by
      rw [outermost?, closes_close, Option.isSome_map]
      exact isSome_outermost?_iff bs 0 first
  | ⟨false, _⟩ :: bs, depth + 2, first => by
      rw [outermost?, closes_close]
      exact isSome_outermost?_iff bs (depth + 1) first

/-- Behind open brackets, the first pair that is completed is that of the outermost one. -/
theorem exists_of_outermost? : ∀ (bs : List Bracket) (depth first : Nat) (pairs : List (Nat × Nat)),
    outermost? (depth + 1) first bs = some pairs →
    ∃ inner j rest pairs', bs = inner ++ ⟨false, j⟩ :: rest ∧ pairs = (first, j) :: pairs' ∧
      Closes depth inner ∧ outermost? 0 first rest = some pairs'
  | [], _, _, _, h => by cases h
  | ⟨true, i⟩ :: bs, depth, first, pairs, h => by
      obtain ⟨inner, j, rest, pairs', rfl, hpairs, hinner, hrest⟩ :=
        exists_of_outermost? bs (depth + 1) first pairs h
      exact ⟨⟨true, i⟩ :: inner, j, rest, pairs', rfl, hpairs, closes_open.2 hinner, hrest⟩
  | ⟨false, j⟩ :: bs, 0, first, pairs, h => by
      obtain ⟨pairs', hpairs', rfl⟩ := Option.map_eq_some_iff.1 h
      exact ⟨[], j, bs, pairs', rfl, rfl, closes_nil.2 rfl, hpairs'⟩
  | ⟨false, j⟩ :: bs, depth + 1, first, pairs, h => by
      obtain ⟨inner, j', rest, pairs', rfl, hpairs, hinner, hrest⟩ :=
        exists_of_outermost? bs depth first pairs h
      exact ⟨⟨false, j⟩ :: inner, j', rest, pairs', rfl, hpairs, closes_close.2 hinner, hrest⟩

/-- **Counting finds the outermost pairs.** -/
theorem outermost_of_outermost? : ∀ (limit : Nat) (bs : List Bracket) (first : Nat)
    (pairs : List (Nat × Nat)), bs.length ≤ limit → outermost? 0 first bs = some pairs →
    Outermost bs pairs
  | _, [], _, _, _, h => by
      cases h
      exact .nil
  | _, ⟨false, _⟩ :: _, _, _, _, h => by cases h
  | 0, ⟨true, _⟩ :: _, _, _, hlimit, _ => absurd hlimit (Nat.not_succ_le_zero _)
  | limit + 1, ⟨true, i⟩ :: bs, _, pairs, hlimit, h => by
      obtain ⟨inner, j, rest, pairs', rfl, rfl, hinner, hrest⟩ := exists_of_outermost? bs 0 i pairs h
      refine .pair hinner (outermost_of_outermost? limit rest i pairs' ?_ hrest)
      simp only [List.length_cons, List.length_append] at hlimit
      omega

/-! ## 3. Scans -/

namespace BalancedSearch

/-- The place of a text with `i` characters before it. -/
def place (text : Text) (i : Nat) : Place := (Place.first text).advance i

theorem ahead_place (text : Text) (i : Nat) : (place text i).ahead = text.drop i :=
  Place.ahead_advance i _

theorem advance_place (text : Text) (i n : Nat) : (place text i).advance n = place text (i + n) :=
  Place.advance_advance i n _

/-- The span of the character with `i` others before it. -/
def mark (text : Text) (i : Nat) : Span := ⟨place text i, place text (i + 1)⟩

theorem resume?_mark {text : Text} {i : Nat} (h : i < text.length) :
    (mark text i).resume? = some (place text (i + 1)) := by
  have hindex (j : Nat) (hj : j ≤ text.length) : (place text j).index = j := by
    have hadvance : (place text j).index = (Place.first text).index + j := Place.index_advance hj
    rw [hadvance]
    exact Nat.zero_add j
  have hne : (mark text i).isEmpty = false := by
    show ((place text i).index == (place text (i + 1)).index) = false
    rw [hindex i (by omega), hindex (i + 1) h]
    simp
  unfold Span.resume?
  rw [hne]
  rfl

/-- The delimiter that is next from a place on is the first one of the brackets `bs` of the text from
there on. -/
def Meets (b : BalancedSearch) (escapeChar : Option Char) (left right : Char) (text : Text)
    (next : Option Place) (bs : List Bracket) : Prop :=
  match bs with
  | [] => b.nextDelimiter? next = none
  | x :: xs => b.nextDelimiter? next = some (x.opens, mark text x.index) ∧ x.index < text.length ∧
      xs = brackets escapeChar left right (x.index + 1) (text.drop (x.index + 1))

/-- The next delimiter is always the next bracket. -/
def Sees (b : BalancedSearch) (escapeChar : Option Char) (left right : Char) : Prop :=
  ∀ (text : Text) (i : Nat), b.Meets escapeChar left right text (b.skip (some (place text i)))
    (brackets escapeChar left right i (text.drop i))

variable {b : BalancedSearch} {escapeChar : Option Char} {left right : Char}

/-- The part that is reported of a pair of brackets. -/
def enclosed (text : Text) (pair : Nat × Nat) : BalancedPart :=
  ⟨none, ⟨place text (pair.1 + 1), place text pair.2⟩⟩

/-- **A scan counts brackets**: from a place on, it reports the outermost pairs, or that the brackets do
not close. -/
theorem Sees.rounds_eq (h : b.Sees escapeChar left right) (hglobal : b.global = true)
    (hsticky : b.sticky = false) (hlabels : b.labels = none) (text : Text) :
    ∀ (bs : List Bracket) (limit : Nat) (s : Scan) (i first : Nat), bs.length < limit →
      s.next = some (place text i) → brackets escapeChar left right i (text.drop i) = bs →
      (s.depth ≠ 0 → s.outer = mark text first) →
      match outermost? s.depth first bs with
      | some pairs => ∃ s', b.rounds limit s = .finished s' ∧
          s'.parts = (pairs.map (enclosed text)).reverse ++ s.parts
      | none => b.rounds limit s = .unbalanced
  | _, 0, _, _, _, hlimit, _, _, _ => absurd hlimit (Nat.not_lt_zero _)
  | [], limit + 1, s, i, first, _, hnext, hbs, _ => by
      have hsees := h text i
      rw [hbs, ← hnext] at hsees
      have hround := round_of_none hsees
      unfold rounds
      rw [hround]
      cases hdepth : s.depth with
      | zero => exact ⟨s, rfl, rfl⟩
      | succ depth => rfl
  | ⟨true, j⟩ :: bs, limit + 1, s, i, first, hlimit, hnext, hbs, houter => by
      have hsees := h text i
      rw [hbs, ← hnext] at hsees
      obtain ⟨hdelimiter, hj, hrest⟩ := hsees
      have hround := round_of_left hdelimiter (by simp [Gap, hsticky])
      rw [resume?_mark hj] at hround
      unfold rounds
      rw [hround]
      cases hdepth : s.depth with
      | zero =>
        exact h.rounds_eq hglobal hsticky hlabels text bs limit
          { s with next := some (place text (j + 1)), depth := 1, outer := mark text j } (j + 1) j
          (Nat.lt_of_succ_lt_succ hlimit) rfl hrest.symm fun _ => rfl
      | succ depth =>
        exact h.rounds_eq hglobal hsticky hlabels text bs limit
          { s with next := some (place text (j + 1)), depth := depth + 2 } (j + 1) first
          (Nat.lt_of_succ_lt_succ hlimit) rfl hrest.symm fun _ => houter (by rw [hdepth]; simp)
  | ⟨false, j⟩ :: bs, limit + 1, s, i, first, hlimit, hnext, hbs, houter => by
      have hsees := h text i
      rw [hbs, ← hnext] at hsees
      obtain ⟨hdelimiter, hj, hrest⟩ := hsees
      have hround := round_of_right hdelimiter (by simp [Gap, hsticky])
      rw [resume?_mark hj] at hround
      unfold rounds
      rw [hround]
      cases hdepth : s.depth with
      | zero => rfl
      | succ depth =>
        have houter := houter (by rw [hdepth]; exact Nat.succ_ne_zero _)
        cases depth with
        | zero =>
          let s' : Scan :=
            { s with
              next := some (place text (j + 1))
              depth := 0
              last := place text (j + 1)
              parts := enclosed text (first, j) :: s.parts }
          have hparts : (pairParts b.labels s.last s.outer (mark text j)).reverse ++ s.parts =
              s'.parts := by
            rw [hlabels, houter]
            rfl
          have hrest := h.rounds_eq hglobal hsticky hlabels text bs limit s' (j + 1) first
            (Nat.lt_of_succ_lt_succ hlimit) rfl hrest.symm fun hne => absurd rfl hne
          simp only [hglobal, if_true, hparts, outermost?]
          show match (outermost? 0 first bs).map ((first, j) :: ·) with
            | some pairs => ∃ s'', b.rounds limit s' = .finished s'' ∧
                s''.parts = (pairs.map (enclosed text)).reverse ++ s.parts
            | none => b.rounds limit s' = .unbalanced
          have hdepth' : s'.depth = 0 := rfl
          rw [hdepth'] at hrest
          cases hpairs : outermost? 0 first bs with
          | none =>
            rw [hpairs] at hrest
            exact hrest
          | some pairs =>
            rw [hpairs] at hrest
            obtain ⟨s'', hs'', hparts''⟩ := hrest
            exact ⟨s'', hs'', by rw [hparts'']; simp [s']⟩
        | succ depth =>
          exact h.rounds_eq hglobal hsticky hlabels text bs limit
            { s with next := some (place text (j + 1)), depth := depth + 1 } (j + 1) first
            (Nat.lt_of_succ_lt_succ hlimit) rfl hrest.symm fun _ => houter

theorem length_brackets (escapeChar : Option Char) (left right : Char) : ∀ (limit : Nat) (t : Text)
    (i : Nat), t.length ≤ limit → (brackets escapeChar left right i t).length ≤ t.length
  | _, [], _, _ => Nat.le_refl 0
  | 0, _ :: _, _, hlimit => absurd hlimit (Nat.not_succ_le_zero _)
  | limit + 1, c :: cs, i, hlimit => by
      have hcs : cs.length ≤ limit := Nat.le_of_succ_le_succ hlimit
      have hrest := length_brackets escapeChar left right limit cs (i + 1) hcs
      unfold brackets
      split
      · cases cs with
        | nil => exact Nat.zero_le _
        | cons d cs =>
          have hbehind := length_brackets escapeChar left right limit cs (i + 2)
            (Nat.le_of_succ_le hcs)
          simp only [List.length_cons]
          omega
      · simp only
        split
        · simpa using hrest
        · split
          · simpa using hrest
          · exact Nat.le_succ_of_le hrest

/-- **A run that sees the brackets of a text** reports its outermost pairs if they close, and otherwise
that they do not. -/
theorem Sees.run_eq (h : b.Sees escapeChar left right) (hglobal : b.global = true)
    (hsticky : b.sticky = false) (hlabels : b.labels = none) (text : Text) :
    (¬Closes 0 (brackets escapeChar left right 0 text) → b.run text = .error .unbalanced) ∧
    (Closes 0 (brackets escapeChar left right 0 text) →
      ∃ pairs, Outermost (brackets escapeChar left right 0 text) pairs ∧
        b.run text = .ok (pairs.map (enclosed text))) := by
  have hlength := length_brackets escapeChar left right text.length text 0 (Nat.le_refl _)
  have hrounds := h.rounds_eq hglobal hsticky hlabels text (brackets escapeChar left right 0 text)
    (text.length + 2) (start text) 0 0 (by omega) rfl rfl fun hne => absurd rfl hne
  have hsome := isSome_outermost?_iff (brackets escapeChar left right 0 text) 0 0
  have hdepth : (start text).depth = 0 := rfl
  rw [hdepth] at hrounds
  have hrun : b.run text = b.result text (b.rounds (text.length + 2) (start text)) := by
    unfold run
    dsimp only
    rw [← start]
    cases b.rounds (text.length + 2) (start text) <;> rfl
  rw [hrun]
  cases hpairs : outermost? 0 0 (brackets escapeChar left right 0 text) with
  | none =>
    rw [hpairs] at hrounds hsome
    refine ⟨fun _ => ?_, fun hcloses => absurd (hsome.2 hcloses) Bool.false_ne_true⟩
    rw [show b.rounds (text.length + 2) (start text) = .unbalanced from hrounds]
    rfl
  | some pairs =>
    rw [hpairs] at hrounds hsome
    refine ⟨fun hnot => absurd (hsome.1 rfl) hnot, fun _ =>
      ⟨pairs, outermost_of_outermost? _ _ 0 pairs (Nat.le_refl _) hpairs, ?_⟩⟩
    obtain ⟨s, hs, hparts⟩ := hrounds
    have htrailing : b.trailingParts text s = [] := by
      unfold trailingParts
      rw [hlabels]
      rfl
    rw [hs, result, htrailing, hparts]
    simp [start]

end BalancedSearch

end ExtensibleRegex
