import ExtensibleRegex.Escape
import ExtensibleRegex.Proofs.Native.Cutting
import ExtensibleRegex.Proofs.Native.Fragments
import ExtensibleRegex.Proofs.Native.Groups
import ExtensibleRegex.Proofs.Text.Digits
import Mathlib.Tactic

/-!
# Escaped texts as native patterns

An escaped character is written as it stands or behind a backslash (`Escaped`), and in both grammars
it is read as the literal of that character, whatever stands behind it (`lexeme?_escapeChar`), in a
class as well (`classAtoms?_escape`). So the pattern of an escaped text is the text, character by
character (`ofSource?_escape`), and the class of an escaped text has the characters of the text
(`ofSource?_class_escape`).
-/

namespace ExtensibleRegex

open Native

/-! ## 1. Escaped characters -/

/-- What follows the backslash of an escaped character: the character itself if it has a meaning in
patterns, or a letter with the number of the character. -/
inductive EscapeTail (c : Char) : Text → Prop
  | self (h : isSyntaxChar c = true) : EscapeTail c [c]
  | hex (h : c.toNat < 16 ^ 2) : EscapeTail c ('x' :: hexText 2 c.toNat)
  | unicode (h : c.toNat < 16 ^ 4) (hhigh : ¬(0xD800 ≤ c.toNat ∧ c.toNat ≤ 0xDBFF)) :
      EscapeTail c ('u' :: hexText 4 c.toNat)

/-- How a character is escaped. -/
inductive Escaped (c : Char) : Text → Prop
  | plain (hmeta : isSyntaxChar c = false) (hhyphen : c ≠ '-') (hsign : c ≠ '#')
      (hblank : isBlank c = false) : Escaped c [c]
  | behind {w : Text} (h : EscapeTail c w) : Escaped c ('\\' :: w)

/-- The characters that are escaped by their number are no halves of pairs. -/
theorem toNat_of_escaped {c : Char} (h : (c = '-' || c = ',' || c = '#' || isBlank c) = true) :
    c.toNat ≤ 0x3000 ∨ c.toNat = 0xFEFF := by
  simp only [isBlank, isWhiteSpace, Bool.or_eq_true, decide_eq_true_eq, inRanges_iff, beq_iff_eq,
    or_assoc] at h
  rcases h with rfl | rfl | rfl | ⟨r, hr, hle⟩ | h
  · exact .inl (by decide)
  · exact .inl (by decide)
  · exact .inl (by decide)
  · exact .inl (hle.2.trans ((by decide : ∀ r ∈ whiteSpaceRanges, r.2 ≤ 0x3000) r hr))
  · exact .inr h

theorem escaped_escapeChar (c : Char) : Escaped c (escapeChar c) := by
  unfold escapeChar
  split
  · rename_i hmeta
    exact .behind (.self hmeta)
  split
  · rename_i hspecial
    have hcode := toNat_of_escaped hspecial
    split
    · exact .behind (.hex (by omega))
    · exact .behind (.unicode (by omega) (by omega))
  · rename_i hmeta hspecial
    simp only [Bool.or_eq_true, decide_eq_true_eq, not_or, Bool.not_eq_true] at hspecial
    exact .plain (by simpa using hmeta) hspecial.1.1.1 hspecial.1.2 hspecial.2

/-- An escaped character begins with a backslash or is the character. -/
theorem head?_escapeChar (c : Char) :
    (escapeChar c).head? = some '\\' ∨ (escapeChar c).head? = some c ∧ isSyntaxChar c = false := by
  generalize hw : escapeChar c = w
  have h := escaped_escapeChar c
  rw [hw] at h
  cases h with
  | plain hmeta => exact .inr ⟨rfl, hmeta⟩
  | behind => exact .inl rfl

namespace EscapeTail

variable {c : Char} {w : Text}

/-- The three letters that an escape of a character can have, as the tests of the grammar see them. -/
theorem letter (h : EscapeTail c w) : ∃ d ds, w = d :: ds ∧ (∀ e ∈ ds, isHexDigit e = true) ∧
    (isSyntaxChar d = true ∧ ds = [] ∨ d = 'x' ∧ ds.length = 2 ∨ d = 'u' ∧ ds.length = 4) := by
  cases h with
  | self h => exact ⟨c, [], rfl, nofun, .inl ⟨h, rfl⟩⟩
  | hex h =>
    exact ⟨'x', _, rfl, fun _ => isHexDigit_of_mem_hexText,
      .inr (.inl ⟨rfl, length_hexText (by decide) h⟩)⟩
  | unicode h =>
    exact ⟨'u', _, rfl, fun _ => isHexDigit_of_mem_hexText,
      .inr (.inr ⟨rfl, length_hexText (by decide) h⟩)⟩

/-- Two hexadecimal digits after `\x`. -/
theorem charEscape?_hex {n : Nat} (hn : n < 16 ^ 2) (strict : Bool) (rest : Text) :
    charEscape? strict 'x' (hexText 2 n ++ rest) = some (n, 2) := by
  obtain ⟨a, b, hab⟩ := List.length_eq_two.1 (length_hexText (by decide) hn)
  have hdigit : ∀ d ∈ hexText 2 n, isHexDigit d = true := fun d => isHexDigit_of_mem_hexText
  have hvalue := readDigits_hexText 2 n
  rw [hab] at hdigit hvalue ⊢
  have ha := hdigit a List.mem_cons_self
  have hb := hdigit b (List.mem_cons_of_mem a List.mem_cons_self)
  simp only [List.cons_append, List.nil_append, charEscape?, ha, hb, Bool.and_self, if_true, hvalue]

/-- Four hexadecimal digits after `\u`, but for half a pair. -/
theorem charEscape?_unicode {n : Nat} (hn : n < 16 ^ 4) (hhigh : ¬(0xD800 ≤ n ∧ n ≤ 0xDBFF))
    (strict : Bool) (rest : Text) :
    charEscape? strict 'u' (hexText 4 n ++ rest) = some (n, 4) := by
  have hlength : (hexText 4 n).length = 4 := length_hexText (by decide) hn
  have hfront : ((hexText 4 n).take 2).length = 2 := by simp [hlength]
  have hback : ((hexText 4 n).drop 2).length = 2 := by simp [hlength]
  obtain ⟨a, b, hab⟩ := List.length_eq_two.1 hfront
  obtain ⟨c, d, hcd⟩ := List.length_eq_two.1 hback
  have htext : hexText 4 n = [a, b, c, d] := by
    rw [← List.take_append_drop 2 (hexText 4 n), hab, hcd]
    rfl
  have hdigit : ∀ d ∈ hexText 4 n, isHexDigit d = true := fun d => isHexDigit_of_mem_hexText
  have hvalue := readDigits_hexText 4 n
  rw [htext] at hdigit hvalue ⊢
  have hall : (isHexDigit a && isHexDigit b && isHexDigit c && isHexDigit d) = true := by
    simp [hdigit]
  have hfour : fourHex? (a :: b :: c :: d :: rest) = some n := by
    simp only [fourHex?, hall, if_true, hvalue]
  have hpair : (decide (0xD800 ≤ n) && decide (n ≤ 0xDBFF)) = false := by
    rw [← Bool.decide_and]
    exact decide_eq_false hhigh
  show unicodeEscape? strict (a :: b :: c :: d :: rest) = _
  unfold unicodeEscape?
  rw [hfour]
  simp only [hpair, Bool.false_eq_true, if_false]

/-- The syntax characters, one by one. -/
theorem syntaxChar_cases {p : Char → Prop} (h : ∀ d ∈ ['^', '$', '\\', '.', '*', '+', '?', '(', ')',
    '[', ']', '\x7b', '\x7d', '|', '/'], p d) {d : Char} (hd : isSyntaxChar d = true) : p d :=
  h d (of_decide_eq_true hd)

/-- Outside of classes, what follows the backslash is read as the literal of the character. -/
theorem escape?_eq (h : EscapeTail c w) (strict named : Bool) (rest : Text) :
    escape? strict named (w ++ rest) = some (.literal c.toNat, w.length) := by
  cases h with
  | self h =>
    refine syntaxChar_cases (p := fun d => escape? strict named (d :: rest) = some (.literal d.toNat, 1))
      ?_ h
    simp only [List.forall_mem_cons, List.not_mem_nil, false_implies, implies_true, and_true]
    cases strict <;> refine ⟨?_, ?_, ?_, ?_, ?_, ?_, ?_, ?_, ?_, ?_, ?_, ?_, ?_, ?_, ?_⟩ <;> rfl
  | hex h =>
    have hlength := @length_hexText 2 _ (by decide) h
    have hescape : escape? strict named ('x' :: (hexText 2 c.toNat ++ rest)) =
        (charEscape? strict 'x' (hexText 2 c.toNat ++ rest)).map
          fun r => (.literal r.1, r.2 + 1) := by
      cases strict <;> rfl
    rw [List.cons_append, hescape, charEscape?_hex h, List.length_cons, hlength]
    rfl
  | unicode h hhigh =>
    have hlength := @length_hexText 4 _ (by decide) h
    have hescape : escape? strict named ('u' :: (hexText 4 c.toNat ++ rest)) =
        (charEscape? strict 'u' (hexText 4 c.toNat ++ rest)).map
          fun r => (.literal r.1, r.2 + 1) := by
      cases strict <;> rfl
    rw [List.cons_append, hescape, charEscape?_unicode h hhigh, List.length_cons, hlength]
    rfl

/-- In a class it is read as the code point. -/
theorem classEscape?_eq (h : EscapeTail c w) (strict named : Bool) (rest : Text) :
    classEscape? strict named (w ++ rest) = some (.point c.toNat, w.length) := by
  cases h with
  | self h =>
    refine syntaxChar_cases (p := fun d => classEscape? strict named (d :: rest) =
      some (.point d.toNat, 1)) ?_ h
    simp only [List.forall_mem_cons, List.not_mem_nil, false_implies, implies_true, and_true]
    cases strict <;> refine ⟨?_, ?_, ?_, ?_, ?_, ?_, ?_, ?_, ?_, ?_, ?_, ?_, ?_, ?_, ?_⟩ <;> rfl
  | hex h =>
    have hlength := @length_hexText 2 _ (by decide) h
    have hescape : classEscape? strict named ('x' :: (hexText 2 c.toNat ++ rest)) =
        (charEscape? strict 'x' (hexText 2 c.toNat ++ rest)).map
          fun r => (.point r.1, r.2 + 1) := by
      cases strict <;> rfl
    rw [List.cons_append, hescape, charEscape?_hex h, List.length_cons, hlength]
    rfl
  | unicode h hhigh =>
    have hlength := @length_hexText 4 _ (by decide) h
    have hescape : classEscape? strict named ('u' :: (hexText 4 c.toNat ++ rest)) =
        (charEscape? strict 'u' (hexText 4 c.toNat ++ rest)).map
          fun r => (.point r.1, r.2 + 1) := by
      cases strict <;> rfl
    rw [List.cons_append, hescape, charEscape?_unicode h hhigh, List.length_cons, hlength]
    rfl

end EscapeTail

/-! ## 2. Lexemes -/

variable {strict named : Bool}

theorem lexeme?_of_not_syntaxChar {c : Char} (h : isSyntaxChar c = false) (rest : Text) :
    lexeme? strict named c rest = some (.literal c.toNat, 0) := by
  unfold lexeme?
  split
  case h_15 => rfl
  all_goals cases h

/-- **An escaped character is read as its literal** before every text. -/
theorem lexeme?_escapeChar (c : Char) (rest : Text) : ∃ d ds, escapeChar c = d :: ds ∧
    lexeme? strict named d (ds ++ rest) = some (.literal c.toNat, ds.length) := by
  generalize hw : escapeChar c = w
  have h := escaped_escapeChar c
  rw [hw] at h
  cases h with
  | plain hmeta => exact ⟨c, [], rfl, lexeme?_of_not_syntaxChar hmeta rest⟩
  | behind htail => exact ⟨'\\', _, rfl, htail.escape?_eq strict named rest⟩

theorem lexAll?_escape : ∀ (t : Text) (read : List Lexeme),
    lexAll? strict named 0 (escape t) read =
      some (read.reverse ++ t.map fun c => .literal c.toNat)
  | [], read => by
      rw [escape_nil, lexAll?, List.map_nil, List.append_nil]
  | c :: t, read => by
      obtain ⟨d, ds, hds, hlexeme⟩ := @lexeme?_escapeChar strict named c (escape t)
      rw [escape_cons, hds, List.cons_append, lexAll?, hlexeme]
      simp only
      rw [lexAll?_skip, List.drop_left, lexAll?_escape t]
      simp

/-- The atoms of a class with an escaped text. -/
theorem classAtoms?_escape : ∀ (t : Text) (taken : Nat) (atoms : List ClassAtom),
    classAtoms? strict named 0 (escape t ++ [']']) taken atoms =
      some (atoms.reverse ++ t.map (fun c => .point c.toNat), taken + (escape t).length + 1)
  | [], taken, atoms => by
      rw [escape_nil, List.nil_append, classAtoms?, if_pos rfl, List.map_nil, List.append_nil]
      rfl
  | c :: t, taken, atoms => by
      rw [escape_cons, List.append_assoc]
      generalize hw : escapeChar c = w
      have h := escaped_escapeChar c
      rw [hw] at h
      cases h with
      | plain hmeta hhyphen =>
        have hclose : c ≠ ']' := by
          rintro rfl
          cases hmeta
        have hescape : c ≠ '\\' := by
          rintro rfl
          cases hmeta
        rw [List.singleton_append, classAtoms?, if_neg hclose, if_neg hescape, if_neg hhyphen,
          classAtoms?_escape t]
        simp only [List.reverse_cons, List.append_assoc, List.singleton_append, List.map_cons,
          List.length_cons, Option.some.injEq, Prod.mk.injEq, true_and]
        omega
      | @behind w htail =>
        rw [List.cons_append, classAtoms?, if_neg (by decide), if_pos rfl,
          htail.classEscape?_eq strict named]
        simp only
        rw [classAtoms?_skip, List.drop_left, classAtoms?_escape t]
        simp only [List.reverse_cons, List.append_assoc, List.singleton_append, List.map_cons,
          List.length_append, List.length_cons, Option.some.injEq, Prod.mk.injEq, true_and]
        omega

theorem captureNames_literals (t : Text) :
    captureNames (t.map fun c => .literal c.toNat) = [] := by
  unfold captureNames
  rw [List.filterMap_map, List.filterMap_eq_nil_iff]
  exact fun _ _ => rfl

/-- The atoms of code points, put together. -/
theorem assembleClass_points : ∀ t : Text, assembleClass strict (t.map fun c => .point c.toNat) =
    some (t.map fun c => .single c.toNat)
  | [] => rfl
  | [c] => rfl
  | c :: d :: t => by
      have hrest := assembleClass_points (d :: t)
      rw [List.map_cons] at hrest ⊢
      show (assembleClass strict ((d :: t).map fun c => .point c.toNat)).map _ = _
      rw [List.map_cons, hrest]
      rfl

/-! ## 3. Programs -/

namespace Native

theorem Progress.readAll?_literals (g : Grammar) : ∀ (t : Text) (p : Progress),
    Progress.readAll? g p (t.map fun c => .literal c.toNat) = some { p with
      terms := (t.map fun c =>
        ⟨.atom (.literal c.toNat p.modes.ignoreCase), true, p.groups⟩).reverse ++ p.terms }
  | [], _ => rfl
  | c :: t, p => by
      show Progress.readAll? g (p.literal c.toNat) (t.map fun c => .literal c.toNat) = _
      rw [readAll?_literals g t]
      simp [Progress.literal, Progress.push]

variable {mode : Mode} {t : Text}

/-- A pattern without groups is read lexeme by lexeme. -/
theorem Program.reads_of_lexAll? {source : Text} {ls : List Lexeme} {p : Progress}
    (hlex : lexAll? mode.unicode mode.unicode 0 source [] = some ls) (hnames : captureNames ls = [])
    (hread : Progress.readAll? ⟨mode.unicode, []⟩
      (.initial ⟨mode.ignoreCase, mode.multiline, false⟩) ls = some p) (hclosed : p.frames = []) :
    Program.ofSource? source mode = some ⟨p.body, 0⟩ := by
  have hlexemes : lexemes? mode.unicode source = some ls := by
    unfold lexemes?
    rw [hlex]
    simp only [hnames, List.any_nil, Bool.and_false, Bool.false_eq_true, if_false]
  refine Program.ofSource?_eq_some_iff.2 ⟨ls, p, ⟨hlexemes, ?_, ?_, ?_, hclosed⟩, ?_⟩
  · rw [hnames]
    exact Nat.zero_le _
  · rw [hnames]
    rfl
  · rw [hnames]
    exact hread
  · rw [hnames]
    rfl

theorem seqOf_chars : ∀ t : Text,
    Node.seqOf (t.map fun c => Node.atom (.literal c.toNat false)) = Node.chars t .empty
  | [] => rfl
  | c :: t => congrArg (Node.seq (Node.char c)) (seqOf_chars t)

/-- **The pattern of an escaped text** is that text, character by character. -/
theorem ofSource?_escape (t : Text) (hcase : mode.ignoreCase = false) :
    Program.ofSource? (escape t) mode = some ⟨Node.chars t .empty, 0⟩ := by
  refine (Program.reads_of_lexAll? (lexAll?_escape t []) (captureNames_literals t)
    (Progress.readAll?_literals _ t _) rfl).trans ?_
  simp only [Progress.initial, Progress.body, Progress.current, Node.altOfReversed, List.foldl_nil,
    List.append_nil, List.reverse_reverse, List.map_map, hcase]
  exact congrArg (fun node => some (Program.mk node 0)) (seqOf_chars t)

/-- The first character of a class with an escaped text does not negate it. -/
theorem head?_escape_append (t : Text) {rest : Text} {c : Char} (hc : isSyntaxChar c = true)
    (hescape : c ≠ '\\') (hrest : rest.head? ≠ some c) : (escape t ++ rest).head? ≠ some c := by
  cases t with
  | nil => exact hrest
  | cons d t =>
    obtain ⟨e, es, hes, -⟩ := @lexeme?_escapeChar false false d []
    have hhead := head?_escapeChar d
    rw [hes] at hhead
    rw [escape_cons, hes]
    intro h
    obtain rfl : e = c := Option.some.inj h
    rcases hhead with hhead | ⟨hhead, hmeta⟩
    · exact hescape (Option.some.inj hhead)
    · rw [Option.some.inj hhead] at hc
      rw [hc] at hmeta
      cases hmeta

/-- **The class of an escaped text** has the characters of the text. -/
theorem ofSource?_class_escape (t : Text) (hcase : mode.ignoreCase = false) :
    Program.ofSource? ('[' :: (escape t ++ [']'])) mode =
      some ⟨.seq (.atom (.set false (.unionOf (t.map fun c => .single c.toNat)) false)) .empty, 0⟩ := by
  have hnegated : ((escape t ++ [']']).head? == some '^') = false :=
    beq_eq_false_iff_ne.2 (head?_escape_append t (by decide) (by decide) (by decide))
  have hclass : class? mode.unicode mode.unicode (escape t ++ [']']) =
      some (.set false (.unionOf (t.map fun c => .single c.toNat)), (escape t).length + 1) := by
    unfold class?
    simp only [hnegated, Bool.false_eq_true, if_false, classAtoms?_escape, List.reverse_nil,
      List.nil_append, assembleClass_points, Option.map_some, Nat.zero_add]
  have hlex : lexAll? mode.unicode mode.unicode 0 ('[' :: (escape t ++ [']'])) [] =
      some [.set false (.unionOf (t.map fun c => .single c.toNat))] := by
    have hlexeme : lexeme? mode.unicode mode.unicode '[' (escape t ++ [']']) =
        class? mode.unicode mode.unicode (escape t ++ [']']) := rfl
    rw [lexAll?, hlexeme, hclass]
    simp only
    rw [lexAll?_skip, List.drop_of_length_le (by simp)]
    simp [lexAll?]
  refine (Program.reads_of_lexAll? hlex rfl rfl rfl).trans ?_
  simp only [Progress.initial, Progress.push, Progress.body, Progress.current, Node.altOfReversed,
    hcase]
  rfl

/-! ## 4. Matches -/

/-- What the engine finds of a text: where it stands ahead, and nothing else. -/
theorem matchAt?_chars (t : Text) (p : Place) :
    Program.matchAt? ⟨Node.chars t .empty, 0⟩ p =
      if t <+: p.ahead then some ⟨⟨p, p.advance t.length⟩, []⟩ else none := by
  unfold Program.matchAt?
  simp only
  rw [Node.run_chars]
  by_cases h : t <+: p.ahead
  · obtain ⟨rest, hrest⟩ := h
    rw [if_pos ⟨rest, hrest⟩, (after?_eq_some_iff t p.ahead rest).2 hrest.symm]
    rfl
  · rw [if_neg h]
    cases hafter : after? t p.ahead with
    | none => rfl
    | some rest =>
      exact absurd ⟨rest, ((after?_eq_some_iff t p.ahead rest).1 hafter).symm⟩ h

theorem matchAt?_chars_eq_none {t : Text} {p : Place} :
    Program.matchAt? ⟨Node.chars t .empty, 0⟩ p = none ↔ ¬t <+: p.ahead := by
  rw [matchAt?_chars]
  by_cases h : t <+: p.ahead
  · rw [if_pos h]
    exact ⟨nofun, fun hnot => absurd h hnot⟩
  · rw [if_neg h]
    exact ⟨fun _ => h, fun _ => rfl⟩

/-- A class of the characters of a text admits just these. -/
theorem admits_singles (t : Text) (d : Char) :
    (Atom.set false (.unionOf (t.map fun c => .single c.toNat)) false).admits d = true ↔ d ∈ t := by
  have hcontains : (Atom.set false (.unionOf (t.map fun c => .single c.toNat)) false).admits d =
      (CodeSet.unionOf (t.map fun c => .single c.toNat)).contains d.toNat := Node.admits_inside _ d
  rw [hcontains, CodeSet.contains_unionOf, List.any_map, List.any_eq_true]
  constructor
  · rintro ⟨c, hc, hsingle⟩
    have heq : (d == c) = true := (contains_single c d).symm.trans hsingle
    rw [eq_of_beq heq]
    exact hc
  · intro hd
    exact ⟨d, hd, (contains_single d d).trans (beq_self_eq_true d)⟩

end Native

end ExtensibleRegex
