import ExtensibleRegex.Proofs.Native.Cutting
import ExtensibleRegex.Proofs.Native.Marks
import ExtensibleRegex.Proofs.Text.Digits
import Mathlib.Tactic

/-!
# Lexemes with their texts

To put patterns together, more has to be known of a lexeme than what it is: which text it was read
from, and before which texts it stays what it is. In this file:

* a `Word` is a lexeme with its text. `Word.FitsIn` says that a grammar reads a text as a word before
  another text, `FitsIn` that it reads words written one after another as these words. The lenient
  grammar is meant where none is named (`Fits`), and that without references by name;
* `words?` cuts a pattern into words, and `words?_eq_some_iff` says that it finds those that fit. The
  lexemes of a pattern are theirs (`lexemes?_of_fits`, `exists_fits_of_lexemes?`);
* a word that fits before a text fits before every other that is the same up to where it is inert
  (`Word.FitsIn.of_alike`);
* words that fit still do when the numbers in their references change (`FitsIn.renumbered`).
-/

namespace ExtensibleRegex.Native

/-! ## 1. Words -/

/-- A lexeme with the text that it was read from. -/
structure Word where
  text : Text
  lexeme : Lexeme
  deriving DecidableEq, Repr

/-- The words that a grammar cuts a text into. `skip` characters belong to the word cut last. -/
def wordsFrom? (strict : Bool) : (skip : Nat) → Text → Option (List Word)
  | _, [] => some []
  | skip + 1, _ :: cs => wordsFrom? strict skip cs
  | 0, c :: cs =>
    match lexeme? strict strict c cs with
    | some (l, n) => (wordsFrom? strict n cs).map (⟨c :: cs.take n, l⟩ :: ·)
    | none => none

/-- The words of a pattern. -/
def words? (t : Text) : Option (List Word) := wordsFrom? false 0 t

/-- Words written one after another. -/
def write (ws : List Word) : Text := ws.flatMap Word.text

@[simp] theorem write_nil : write [] = [] := rfl

@[simp] theorem write_cons (w : Word) (ws : List Word) : write (w :: ws) = w.text ++ write ws := rfl

@[simp] theorem write_append (ws ws' : List Word) : write (ws ++ ws') = write ws ++ write ws' :=
  List.flatMap_append

/-- A text is read as the word before `rest`. -/
def Word.FitsIn (strict : Bool) (w : Word) (rest : Text) : Prop :=
  match w.text with
  | [] => False
  | c :: cs => lexeme? strict strict c (cs ++ rest) = some (w.lexeme, cs.length)

/-- Words that are read as they are when they are written one after another. -/
def FitsIn (strict : Bool) : List Word → Prop
  | [] => True
  | w :: ws => w.FitsIn strict (write ws) ∧ FitsIn strict ws

/-- The lenient grammar reads a text as the word before another one. -/
abbrev Word.Fits : Word → Text → Prop := Word.FitsIn false

/-- The lenient grammar reads words as they are when they are written one after another. -/
abbrev Fits : List Word → Prop := FitsIn false

variable {strict : Bool}

theorem Word.FitsIn.text_eq {w : Word} {rest : Text} (h : w.FitsIn strict rest) :
    ∃ c cs, w.text = c :: cs ∧ lexeme? strict strict c (cs ++ rest) = some (w.lexeme, cs.length) := by
  unfold Word.FitsIn at h
  split at h
  · exact h.elim
  · rename_i c cs ht
    exact ⟨c, cs, ht, h⟩

/-! ## 2. Cutting -/

theorem wordsFrom?_skip : ∀ (skip : Nat) (t : Text),
    wordsFrom? strict skip t = wordsFrom? strict 0 (t.drop skip)
  | 0, _ => rfl
  | _ + 1, [] => rfl
  | skip + 1, _ :: cs => wordsFrom?_skip skip cs

/-- The lexemes of a pattern are those of its words. -/
theorem lexAll?_eq_words : ∀ (skip : Nat) (t : Text) (read : List Lexeme),
    lexAll? strict strict skip t read =
      (wordsFrom? strict skip t).map fun ws => read.reverse ++ ws.map Word.lexeme
  | _, [], read => by simp [lexAll?, wordsFrom?]
  | skip + 1, _ :: cs, read => lexAll?_eq_words skip cs read
  | 0, c :: cs, read => by
      simp only [lexAll?, wordsFrom?]
      cases lexeme? strict strict c cs with
      | none => rfl
      | some r =>
        simp only
        rw [lexAll?_eq_words r.2 cs]
        cases wordsFrom? strict r.2 cs with
        | none => rfl
        | some ws => simp

/-- A lexeme takes no more than there is. -/
theorem lexeme?_length {named : Bool} {c : Char} {cs : Text} {r : Lexeme × Nat}
    (h : lexeme? strict named c cs = some r) : r.2 ≤ cs.length :=
  (lexeme?_append (T := []) trivial h).2

theorem fits_of_wordsFrom? : ∀ (limit : Nat) (t : Text) (ws : List Word), t.length ≤ limit →
    wordsFrom? strict 0 t = some ws → FitsIn strict ws ∧ write ws = t
  | _, [], ws, _, h => by
      cases h
      exact ⟨trivial, rfl⟩
  | 0, _ :: _, _, hlimit, _ => absurd hlimit (Nat.not_succ_le_zero _)
  | limit + 1, c :: cs, ws, hlimit, h => by
      unfold wordsFrom? at h
      cases hl : lexeme? strict strict c cs with
      | none => rw [hl] at h; cases h
      | some r =>
        rw [hl] at h
        simp only [wordsFrom?_skip r.2] at h
        obtain ⟨ws', hws', rfl⟩ := Option.map_eq_some_iff.1 h
        have hle := lexeme?_length hl
        obtain ⟨hfits, hwrite⟩ := fits_of_wordsFrom? limit (cs.drop r.2) ws'
          (by simp only [List.length_drop, List.length_cons] at hlimit ⊢; omega) hws'
        refine ⟨⟨?_, hfits⟩, ?_⟩
        · show lexeme? strict strict c (cs.take r.2 ++ write ws') = _
          rw [hwrite, List.take_append_drop, hl, List.length_take, Nat.min_eq_left hle]
        · rw [write_cons, hwrite, List.cons_append, List.take_append_drop]

theorem wordsFrom?_of_fits : ∀ {ws : List Word}, FitsIn strict ws →
    wordsFrom? strict 0 (write ws) = some ws
  | [], _ => rfl
  | w :: ws, h => by
      obtain ⟨c, cs, ht, hl⟩ := h.1.text_eq
      rw [write_cons, ht, List.cons_append]
      unfold wordsFrom?
      rw [hl]
      simp only
      rw [wordsFrom?_skip, List.drop_left, wordsFrom?_of_fits h.2, List.take_left, ← ht]
      rfl

/-- **Cutting a pattern finds the words that it is written of.** -/
theorem words?_eq_some_iff {t : Text} {ws : List Word} :
    words? t = some ws ↔ Fits ws ∧ write ws = t := by
  constructor
  · exact fits_of_wordsFrom? t.length t ws (Nat.le_refl _)
  · rintro ⟨hfits, rfl⟩
    exact wordsFrom?_of_fits hfits

/-- Words that fit are read as their lexemes, if these name no group. -/
theorem lexemes?_of_fits {ws : List Word} (h : FitsIn strict ws)
    (hnone : ∀ name ∈ captureNames (ws.map Word.lexeme), name = none) :
    lexemes? strict (write ws) = some (ws.map Word.lexeme) := by
  rw [lexemes?_eq_some_iff hnone, lexAll?_eq_words, wordsFrom?_of_fits h]
  rfl

/-- What is read of a pattern that names no group is read of words that fit. -/
theorem exists_fits_of_lexemes? {source : Text} {ls : List Lexeme}
    (h : lexemes? strict source = some ls) (hnone : ∀ name ∈ captureNames ls, name = none) :
    ∃ ws, FitsIn strict ws ∧ write ws = source ∧ ws.map Word.lexeme = ls := by
  rw [lexemes?_eq_some_iff hnone, lexAll?_eq_words] at h
  obtain ⟨ws, hws, hls⟩ := Option.map_eq_some_iff.1 h
  obtain ⟨hfits, hwrite⟩ := fits_of_wordsFrom? source.length source ws (Nat.le_refl _) hws
  exact ⟨ws, hfits, hwrite, hls⟩

/-! ## 3. Words before other texts -/

/-- Two texts that are the same up to where each of them is inert. -/
def Alike (s t : Text) : Prop := ∃ u v v', s = u ++ v ∧ t = u ++ v' ∧ Inert v ∧ Inert v'

namespace Alike

theorem of_inert {s t : Text} (hs : Inert s) (ht : Inert t) : Alike s t := ⟨[], s, t, rfl, rfl, hs, ht⟩

theorem refl (s : Text) : Alike s s :=
  ⟨s, [], [], (List.append_nil s).symm, (List.append_nil s).symm, trivial, trivial⟩

theorem append (w : Text) {s t : Text} (h : Alike s t) : Alike (w ++ s) (w ++ t) := by
  obtain ⟨u, v, v', rfl, rfl, hv, hv'⟩ := h
  exact ⟨w ++ u, v, v', (List.append_assoc _ _ _).symm, (List.append_assoc _ _ _).symm, hv, hv'⟩

theorem takeWhile {s t : Text} (h : Alike s t) (q : Char → Bool)
    (hq : ∀ c, reachesBack c = false → q c = false) : s.takeWhile q = t.takeWhile q := by
  obtain ⟨u, v, v', rfl, rfl, hv, hv'⟩ := h
  rw [takeWhile_append_of_stop q hq u hv, takeWhile_append_of_stop q hq u hv']

theorem head?_any {s t : Text} (h : Alike s t) (q : Char → Bool)
    (hq : ∀ c, reachesBack c = false → q c = false) : s.head?.any q = t.head?.any q := by
  obtain ⟨u, v, v', rfl, rfl, hv, hv'⟩ := h
  cases u with
  | cons c u => rfl
  | nil =>
    have hnone {x : Text} (hx : Inert x) : x.head?.any q = false := by
      cases x with
      | nil => rfl
      | cons c x => exact hq c hx.1
    rw [List.nil_append, List.nil_append, hnone hv, hnone hv']

end Alike

theorem Word.FitsIn.of_alike {w : Word} {s t : Text} (h : w.FitsIn strict s) (hst : Alike s t) :
    w.FitsIn strict t := by
  obtain ⟨c, cs, htext, hl⟩ := h.text_eq
  obtain ⟨u, v, v', rfl, rfl, hv, hv'⟩ := hst
  rw [← List.append_assoc] at hl
  have hcut := lexeme?_of_append hv hl (by simp)
  unfold Word.FitsIn
  rw [htext]
  simp only
  rw [← List.append_assoc]
  exact (lexeme?_append hv' hcut).1

/-- Words before an inert text stay what they are, and so do the words of that text. -/
theorem FitsIn.append : ∀ {ws ws' : List Word}, FitsIn strict ws → FitsIn strict ws' →
    Inert (write ws') → FitsIn strict (ws ++ ws')
  | [], _, _, h', _ => h'
  | w :: ws, ws', h, h', hinert => by
      obtain ⟨c, cs, htext, hl⟩ := h.1.text_eq
      refine ⟨?_, h.2.append h' hinert⟩
      show w.FitsIn strict (write (ws ++ ws'))
      unfold Word.FitsIn
      rw [htext]
      simp only
      rw [write_append, ← List.append_assoc]
      exact (lexeme?_append hinert hl).1

/-! ## 4. References by number -/

/-- A backslash and a number. -/
def numberWord (digits : Text) : Word := ⟨'\\' :: digits, .decimal digits⟩

theorem inert_numberWord {digits : Text} (hne : digits ≠ []) (hdigits : ∀ d ∈ digits, d.isDigit = true)
    (rest : Text) : Inert ((numberWord digits).text ++ rest) := by
  obtain ⟨d, ds, rfl⟩ := List.exists_cons_of_ne_nil hne
  refine ⟨by decide, fun _ hu => ?_⟩
  have hd := hdigits d List.mem_cons_self
  have hdu : d = 'u' := Option.some.inj hu
  rw [hdu] at hd
  cases hd

theorem setEscape?_of_isDigit {d : Char} (hd : d.isDigit = true) (strict : Bool) (cs : Text) :
    setEscape? strict d cs = none := by
  have hne (c : Char) (hc : c.isDigit = false) : d ≠ c := by
    rintro rfl
    rw [hc] at hd
    cases hd
  have hletter : shorthand? d = none := by
    unfold shorthand?
    split
    case h_7 => rfl
    all_goals exact absurd rfl (hne _ (by decide))
  simp [setEscape?, hletter, hne 'p' rfl, hne 'P' rfl]

theorem escape?_of_isDigit {named : Bool} {d : Char} (hd : d.isDigit = true) (h0 : d ≠ '0')
    (cs : Text) : escape? strict named (d :: cs) =
      some (.decimal (d :: cs.takeWhile Char.isDigit), (cs.takeWhile Char.isDigit).length + 1) := by
  have hne (c : Char) (hc : c.isDigit = false) : d ≠ c := by
    rintro rfl
    rw [hc] at hd
    cases hd
  have hk : (decide (d = 'k') && (named || strict)) = false := by simp [hne 'k' rfl]
  simp only [escape?, setEscape?_of_isDigit hd, Bool.false_eq_true, if_false, hne 'b' rfl, hne 'B' rfl,
    hne 'c' rfl, hk, h0, hd, if_true, List.length_cons]

/-- A number that does not begin with zero is read up to its last digit. -/
theorem fits_numberWord {digits rest : Text} (hne : digits ≠ [])
    (hdigits : ∀ d ∈ digits, d.isDigit = true) (hzero : digits.head? ≠ some '0')
    (hrest : rest.head?.any Char.isDigit = false) : (numberWord digits).FitsIn strict rest := by
  obtain ⟨d, ds, rfl⟩ := List.exists_cons_of_ne_nil hne
  have htake : (ds ++ rest).takeWhile Char.isDigit = ds := by
    rw [List.takeWhile_append_of_pos fun c hc => hdigits c (List.mem_cons_of_mem d hc)]
    cases rest with
    | nil => simp
    | cons c rest => simp [show c.isDigit = false from hrest]
  show escape? strict strict (d :: (ds ++ rest)) = _
  rw [escape?_of_isDigit (hdigits d List.mem_cons_self) (fun h => hzero (by rw [h]; rfl)), htake]
  rfl

/-- What is read as a reference is read after a backslash. -/
theorem escape?_of_reference {named : Bool} {c : Char} {cs : Text} {l : Lexeme} {n : Nat}
    (h : lexeme? strict named c cs = some (l, n))
    (hl : (∃ digits, l = .decimal digits) ∨ ∃ name, l = .namedRef name) :
    c = '\\' ∧ escape? strict named cs = some (l, n) := by
  have hquantifier {min : Nat} {max : Option Nat} {cs : Text} {k m : Nat} :
      quantifier? min max cs k ≠ some (l, m) := by
    unfold quantifier?
    intro hr
    split at hr
    · split at hr <;> cases hr <;> simp at hl
    · cases hr
  unfold lexeme? at h
  split at h
  case h_14 => exact ⟨rfl, h⟩
  case h_6 =>
    obtain ⟨x, -, hx⟩ := Option.map_eq_some_iff.1 h
    cases hx
    simp at hl
  case h_7 =>
    simp only [class?] at h
    split at h
    · obtain ⟨x, -, hx⟩ := Option.map_eq_some_iff.1 h
      cases hx
      simp at hl
    · cases h
  case h_8 => exact absurd h hquantifier
  case h_9 => exact absurd h hquantifier
  case h_10 => exact absurd h hquantifier
  case h_11 =>
    split at h
    · exact absurd h hquantifier
    · split at h <;> cases h
      simp at hl
  case h_12 =>
    split at h <;> cases h
    simp at hl
  case h_13 =>
    split at h <;> cases h
    simp at hl
  all_goals
    cases h
    simp at hl

/-- The lenient grammar reads nothing as a reference by name. -/
theorem Word.FitsIn.ne_namedRef {w : Word} {rest : Text} (h : w.Fits rest) (name : Text) :
    w.lexeme ≠ .namedRef name := by
  intro hw
  obtain ⟨c, cs, -, hl⟩ := h.text_eq
  rw [hw] at hl
  obtain ⟨-, hescape⟩ := escape?_of_reference hl (.inr ⟨name, rfl⟩)
  generalize cs ++ rest = cs' at hescape
  cases cs' with
  | nil => cases hescape
  | cons d ds =>
    simp only [escape?, setEscape?, Bool.false_and, Bool.or_self, Bool.and_false, Bool.false_eq_true,
      if_false] at hescape
    cases hs : shorthand? d with
    | some s =>
      rw [hs] at hescape
      cases hescape
    | none =>
      simp only [hs, Option.map_none] at hescape
      split_ifs at hescape
      · cases hescape
      · cases hescape
      · split at hescape
        · split at hescape <;> cases hescape
        · cases hescape
      · cases hescape
      · cases hescape
      · obtain ⟨x, -, hx⟩ := Option.map_eq_some_iff.1 hescape
        cases hx

theorem FitsIn.ne_namedRef : ∀ {ws : List Word}, Fits ws → ∀ l ∈ ws.map Word.lexeme, ∀ name,
    l ≠ .namedRef name
  | [], _, _, hl, _ => absurd hl List.not_mem_nil
  | w :: ws, h, l, hl, name => by
      rcases List.mem_cons.1 hl with rfl | hl
      · exact h.1.ne_namedRef name
      · exact FitsIn.ne_namedRef h.2 l hl name

/-- What is read as a number is a backslash and digits, of which the first is not zero. -/
theorem escape?_eq_decimal {named : Bool} {cs digits : Text} {n : Nat}
    (h : escape? strict named cs = some (.decimal digits, n)) :
    ∃ d ds, cs = d :: ds ∧ d.isDigit = true ∧ d ≠ '0' := by
  cases cs with
  | nil => cases h
  | cons d ds =>
    refine ⟨d, ds, rfl, ?_⟩
    simp only [escape?] at h
    cases hs : setEscape? strict d ds with
    | some found =>
      rw [hs] at h
      obtain ⟨x, -, hx⟩ := Option.map_eq_some_iff.1 h
      cases hx
    | none =>
      rw [hs] at h
      simp only at h
      by_cases hb : d = 'b'
      · rw [if_pos hb] at h
        cases h
      rw [if_neg hb] at h
      by_cases hB : d = 'B'
      · rw [if_pos hB] at h
        cases h
      rw [if_neg hB] at h
      by_cases hc : d = 'c'
      · rw [if_pos hc] at h
        split at h
        · split at h
          · cases h
          · split at h <;> cases h
        · split at h <;> cases h
      rw [if_neg hc] at h
      by_cases hk : (decide (d = 'k') && (named || strict)) = true
      · rw [if_pos hk] at h
        split at h
        · obtain ⟨x, -, hx⟩ := Option.map_eq_some_iff.1 h
          cases hx
        · cases h
      rw [if_neg hk] at h
      by_cases h0 : d = '0'
      · rw [if_pos h0] at h
        split at h
        · split at h <;> cases h
        · cases h
      rw [if_neg h0] at h
      by_cases hd : d.isDigit = true
      · exact ⟨hd, h0⟩
      · rw [if_neg hd] at h
        obtain ⟨x, -, hx⟩ := Option.map_eq_some_iff.1 h
        cases hx

/-- A word that is a number after a backslash. -/
theorem Word.FitsIn.of_decimal {w : Word} {rest digits : Text} (h : w.FitsIn strict rest)
    (hw : w.lexeme = .decimal digits) : w = numberWord digits ∧ digits ≠ [] ∧
      (∀ d ∈ digits, d.isDigit = true) ∧ digits.head? ≠ some '0' ∧
      rest.head?.any Char.isDigit = false := by
  obtain ⟨c, cs, htext, hl⟩ := h.text_eq
  rw [hw] at hl
  obtain ⟨rfl, hescape⟩ := escape?_of_reference hl (.inl ⟨digits, rfl⟩)
  obtain ⟨d, ds, hcs, hd, h0⟩ := escape?_eq_decimal hescape
  rw [hcs, escape?_of_isDigit hd h0, Option.some.injEq, Prod.mk.injEq, Lexeme.decimal.injEq] at hescape
  obtain ⟨hdigits, hlength⟩ := hescape
  have hsplit : cs ++ rest = digits ++ ds.drop (ds.takeWhile Char.isDigit).length := by
    rw [hcs, ← hdigits, List.cons_append, ← takeWhile_append_drop]
  have hlen : cs.length = digits.length := by rw [← hlength, ← hdigits]; rfl
  obtain ⟨hcs', hrest⟩ := List.append_inj hsplit hlen
  refine ⟨?_, by rw [← hdigits]; exact List.cons_ne_nil _ _, ?_, ?_, ?_⟩
  · cases w
    simp only at htext hw
    rw [numberWord, htext, hw, hcs']
  · intro e he
    rw [← hdigits] at he
    rcases List.mem_cons.1 he with rfl | he
    · exact hd
    · exact List.all_eq_true.1 List.all_takeWhile e he
  · rw [← hdigits]
    exact fun h => h0 (Option.some.inj h)
  · rw [hrest]
    exact head?_drop_takeWhile Char.isDigit ds

/-- A word, with another number if it is a reference by number. -/
def Renumbered (w w' : Word) : Prop :=
  w' = w ∨ ∃ digits n, w.lexeme = .decimal digits ∧ 0 < n ∧ w' = numberWord (decimalText n)

theorem alike_of_renumbered {ws ws' : List Word} (h : List.Forall₂ Renumbered ws ws')
    (hfits : FitsIn strict ws) : Alike (write ws) (write ws') := by
  induction h with
  | nil => exact .refl []
  | @cons w w' ws ws' hw _ ih =>
    rcases hw with rfl | ⟨digits, n, hlexeme, hn, rfl⟩
    · exact (ih hfits.2).append w'.text
    · obtain ⟨hword, hne, hdigits, -, -⟩ := hfits.1.of_decimal hlexeme
      rw [write_cons, write_cons, hword]
      exact .of_inert (inert_numberWord hne hdigits _)
        (inert_numberWord (decimalText_ne_nil n) (fun _ => isDigit_of_mem_decimalText) _)

/-- **Words that fit still do when their references get other numbers.** -/
theorem FitsIn.renumbered {ws ws' : List Word} (h : List.Forall₂ Renumbered ws ws')
    (hfits : FitsIn strict ws) : FitsIn strict ws' := by
  induction h with
  | nil => trivial
  | @cons w w' ws ws' hw hws ih =>
    have halike := alike_of_renumbered hws hfits.2
    refine ⟨?_, ih hfits.2⟩
    rcases hw with rfl | ⟨digits, n, hlexeme, hn, rfl⟩
    · exact hfits.1.of_alike halike
    · obtain ⟨-, -, -, -, hrest⟩ := hfits.1.of_decimal hlexeme
      refine fits_numberWord (decimalText_ne_nil n) (fun _ => isDigit_of_mem_decimalText)
        (head?_decimalText hn) ?_
      rw [← halike.head?_any Char.isDigit fun c hc => (reachesBack_false hc).2.2.2.1]
      exact hrest

end ExtensibleRegex.Native
