import ExtensibleRegex.Proofs.Balanced.Brackets
import ExtensibleRegex.Proofs.Native.Escaped
import Mathlib.Tactic

/-!
# Delimiters of one character

A regex for a single character (`Regex.IsChar`) finds it where it stands ahead for the first time.
`Program.search?_of_head` and `Program.search?_of_next` say so one place at a time, and from them the
next delimiter is followed along the text: it is the character ahead if that is one of the two
(`nextDelimiter?_left`, `nextDelimiter?_right`), and otherwise what is found one character further on
(`nextDelimiter?_next`). So a scan without a skipper sees the brackets of every text
(`sees_of_isChar`).
-/

namespace ExtensibleRegex

open Native

/-! ## 1. One character -/

/-- A regex for a character. -/
def Regex.IsChar (re : Regex) (c : Char) : Prop := re.engine.program = ⟨Node.chars [c] .empty, 0⟩

/-- Over the next character. -/
theorem Place.next?_advance {p : Place} {d : Char} {ds : Text} (h : p.ahead = d :: ds) :
    p.next? = some (d, p.advance 1) ∧ (p.advance 1).ahead = ds ∧
      (p.advance 1).index = p.index + 1 := by
  refine ⟨Place.next?_of_ahead h, by rw [Place.ahead_advance, h]; rfl, Place.index_advance ?_⟩
  rw [h, List.length_cons]
  exact Nat.le_add_left 1 _

namespace Native.Program

/-- Where there is a match, a search ends. -/
theorem search?_of_head {p : Program} {place : Place} {f : Found} (h : p.matchAt? place = some f) :
    p.search? place = some f := by
  unfold search?
  cases place.ahead with
  | nil => exact h
  | cons d ds => rw [searchFrom, h]

/-- Where there is none, it goes on one character further. -/
theorem search?_of_next {p : Program} {place : Place} {d : Char} {ds : Text}
    (hahead : place.ahead = d :: ds) (h : p.matchAt? place = none) :
    p.search? place = p.search? (place.advance 1) := by
  obtain ⟨hnext, hrest, -⟩ := Place.next?_advance hahead
  unfold search?
  rw [hrest, hahead, searchFrom, h, hnext]

end Native.Program

namespace Regex.IsChar

variable {re : Regex} {c d : Char} {p : Place} {ds : Text}

theorem searchAt?_head (h : re.IsChar c) (hp : p.ahead = c :: ds) :
    ∃ f, re.searchAt? p false = some f ∧ f.whole = ⟨p, p.advance 1⟩ := by
  have hmatch : re.engine.program.matchAt? p = some ⟨⟨p, p.advance 1⟩, []⟩ := by
    rw [h, matchAt?_chars, if_pos ⟨ds, hp.symm⟩]
    rfl
  refine ⟨re.captures ⟨⟨p, p.advance 1⟩, []⟩, ?_, rfl⟩
  show (re.engine.program.search? p).map re.captures = _
  rw [Program.search?_of_head hmatch]
  rfl

theorem searchAt?_next (h : re.IsChar c) (hp : p.ahead = d :: ds) (hd : d ≠ c) :
    re.searchAt? p false = re.searchAt? (p.advance 1) false := by
  have hmatch : re.engine.program.matchAt? p = none := by
    rw [h, matchAt?_chars_eq_none, hp]
    rintro ⟨rest, hrest⟩
    exact hd (List.cons.inj hrest).1.symm
  show (re.engine.program.search? p).map re.captures = (re.engine.program.search? _).map re.captures
  rw [Program.search?_of_next hp hmatch]

theorem searchAt?_nil (h : re.IsChar c) (hp : p.ahead = []) : re.searchAt? p false = none := by
  have hmatch : re.engine.program.matchAt? p = none := by
    rw [h, matchAt?_chars_eq_none, hp]
    rintro ⟨rest, hrest⟩
    cases hrest
  show (re.engine.program.search? p).map re.captures = none
  unfold Program.search?
  rw [hp, Program.searchFrom, hmatch]
  rfl

end Regex.IsChar

/-- A match does not start before the place where the search began. -/
theorem Regex.index_le_of_searchAt? {re : Regex} {p : Place} {sticky : Bool} {f : Captures}
    (h : re.searchAt? p sticky = some f) : p.index ≤ f.whole.start.index := by
  obtain ⟨⟨v, hv⟩, -⟩ := Regex.stretch_of_searchAt? h
  rw [hv.index_eq]
  exact Nat.le_add_right _ _

/-! ## 2. The next delimiter -/

namespace BalancedSearch

section Characters

variable {b : BalancedSearch} {left right d : Char} {p : Place} {ds : Text}

theorem nextDelimiter?_nil (hleft : b.left.IsChar left) (hright : b.right.IsChar right)
    (hp : p.ahead = []) : b.nextDelimiter? (some p) = none := by
  simp only [nextDelimiter?, hleft.searchAt?_nil hp, hright.searchAt?_nil hp]

/-- Of two delimiters at one place the left one counts. -/
theorem nextDelimiter?_left (hleft : b.left.IsChar left) (hp : p.ahead = left :: ds) :
    b.nextDelimiter? (some p) = some (true, ⟨p, p.advance 1⟩) := by
  obtain ⟨l, hl, hwhole⟩ := hleft.searchAt?_head hp
  cases hr : b.right.searchAt? p false with
  | none => simp only [nextDelimiter?, hl, hr, hwhole]
  | some r =>
    have hle : p.index ≤ r.whole.start.index := Regex.index_le_of_searchAt? hr
    simp only [nextDelimiter?, hl, hr, hwhole, if_pos hle]

theorem nextDelimiter?_right (hleft : b.left.IsChar left) (hright : b.right.IsChar right)
    (hne : right ≠ left) (hp : p.ahead = right :: ds) :
    b.nextDelimiter? (some p) = some (false, ⟨p, p.advance 1⟩) := by
  obtain ⟨r, hr, hwhole⟩ := hright.searchAt?_head hp
  cases hl : b.left.searchAt? p false with
  | none => simp only [nextDelimiter?, hl, hr, hwhole]
  | some l =>
    have hlt : ¬l.whole.start.index ≤ p.index := by
      rw [hleft.searchAt?_next hp hne] at hl
      have hle := Regex.index_le_of_searchAt? hl
      rw [(Place.next?_advance hp).2.2] at hle
      exact Nat.not_le_of_lt hle
    simp only [nextDelimiter?, hl, hr, hwhole, if_neg hlt]

theorem nextDelimiter?_next (hleft : b.left.IsChar left) (hright : b.right.IsChar right)
    (hp : p.ahead = d :: ds) (hl : d ≠ left) (hr : d ≠ right) :
    b.nextDelimiter? (some p) = b.nextDelimiter? (some (p.advance 1)) := by
  simp only [nextDelimiter?, hleft.searchAt?_next hp hl, hright.searchAt?_next hp hr]

end Characters

/-! ## 3. Brackets -/

variable {b : BalancedSearch} {left right : Char}

theorem brackets_none_cons (left right : Char) (i : Nat) (d : Char) (ds : Text) :
    brackets none left right i (d :: ds) =
      if d = left then ⟨true, i⟩ :: brackets none left right (i + 1) ds
      else if d = right then ⟨false, i⟩ :: brackets none left right (i + 1) ds
      else brackets none left right (i + 1) ds := by
  rw [brackets.eq_def]
  exact if_neg (Option.some_ne_none d).symm

/-- What is ahead of a place before the end of a text. -/
theorem lt_of_drop_eq_cons {text ds : Text} {i : Nat} {d : Char} (h : text.drop i = d :: ds) :
    i < text.length ∧ ds = text.drop (i + 1) := by
  constructor
  · have hlength := congrArg List.length h
    rw [List.length_drop, List.length_cons] at hlength
    omega
  · rw [← List.drop_drop, h]
    rfl

/-- The first delimiter ahead is the first bracket ahead, as long as no character is escaped. -/
theorem meets_brackets (hleft : b.left.IsChar left) (hright : b.right.IsChar right)
    (hne : right ≠ left) (text : Text) : ∀ (limit i : Nat), text.length ≤ i + limit →
    b.Meets none left right text (some (place text i)) (brackets none left right i (text.drop i))
  | limit, i, hlimit => by
      have hahead := ahead_place text i
      have hafter : (place text i).advance 1 = place text (i + 1) := advance_place text i 1
      cases hrest : text.drop i with
      | nil => exact nextDelimiter?_nil hleft hright (hahead.trans hrest)
      | cons d ds =>
        obtain ⟨hlt, rfl⟩ := lt_of_drop_eq_cons hrest
        have hplace := hahead.trans hrest
        rw [brackets_none_cons]
        by_cases hl : d = left
        · subst hl
          rw [if_pos rfl]
          refine ⟨?_, hlt, rfl⟩
          rw [nextDelimiter?_left hleft hplace, hafter]
          rfl
        rw [if_neg hl]
        by_cases hr : d = right
        · subst hr
          rw [if_pos rfl]
          refine ⟨?_, hlt, rfl⟩
          rw [nextDelimiter?_right hleft hright hne hplace, hafter]
          rfl
        unfold Meets
        rw [if_neg hr, nextDelimiter?_next hleft hright hplace hl hr, hafter]
        cases limit with
        | zero => exact absurd hlimit (by omega)
        | succ limit => exact meets_brackets hleft hright hne text limit (i + 1) (by omega)

/-- **A scan for two characters sees the brackets of every text.** -/
theorem sees_of_isChar (hleft : b.left.IsChar left) (hright : b.right.IsChar right)
    (hne : right ≠ left) (hskipper : b.skipper = none) : b.Sees none left right := by
  intro text i
  have hskip : b.skip (some (place text i)) = some (place text i) := by
    unfold skip
    rw [hskipper]
  rw [hskip]
  exact meets_brackets hleft hright hne text text.length i (Nat.le_add_left _ _)

end BalancedSearch

end ExtensibleRegex
