import ExtensibleRegex.Proofs.Balanced.Delimiters
import ExtensibleRegex.Proofs.Combine.Literals
import ExtensibleRegex.Proofs.Dialect.Escape
import ExtensibleRegex.Proofs.Native.Marks
import ExtensibleRegex.Proofs.Native.Shifting
import ExtensibleRegex.Proofs.Native.Strides
import Mathlib.Tactic

/-!
# Skipping escaped characters

With an escape character, a scan jumps over escaped characters and over text without delimiters. The
pattern of the skipper is read as the tree `Skipper.node` for its delimiters (`Skipper.ofSource?_eq`).

For delimiters of one character each, and an escape character that is neither:

* the tree takes pairs of an escape character with what follows it, and other characters, as long as
  there are any (`Skipper.strides_node`). Neither takes a bracket (`Skipper.reaches_stride`), and where
  both end there is a delimiter, an escape character at the end of the text, or nothing
  (`Skipper.of_stride_eq_zero`);
* so a scan with the skipper sees the brackets of every text (`BalancedSearch.sees_of_skipper`).
-/

namespace ExtensibleRegex

open Native

/-! ## 1. Reading the skipper -/

namespace Skipper

/-- The pattern of a skipper. -/
def source (esc delimiters : Text) : Text :=
  "(?:".toList ++ esc ++ "[\\S\\s]|(?:(?!".toList ++ delimiters ++ ")[^".toList ++ esc ++ "])+)+".toList

/-- The members of a class that has every character. -/
def anything : CodeSet :=
  .unionOf [Shorthand.space.members.select true, Shorthand.space.members.select false]

/-- The words of a skipper before those of the delimiters. -/
def front (e : Char) : List Word :=
  [⟨['(', '?', ':'], .opening (.plain [] [])⟩, literalWord e,
    ⟨['[', '\\', 'S', '\\', 's', ']'], .set false anything⟩, ⟨['|'], .bar⟩,
    ⟨['(', '?', ':'], .opening (.plain [] [])⟩, ⟨['(', '?', '!'], .opening (.look false true)⟩]

/-- The words of a skipper behind those of the delimiters. -/
def back (e : Char) : List Word :=
  [⟨[')'], .close⟩, ⟨'[' :: '^' :: (escape [e] ++ [']']), .set true (.single e.toNat)⟩,
    ⟨[')'], .close⟩, ⟨['+'], .quantifier 1 none true⟩,
    ⟨[')'], .close⟩, ⟨['+'], .quantifier 1 none true⟩]

/-- The words of a skipper. -/
def words (e : Char) (delimiters : List Word) : List Word := front e ++ (delimiters ++ back e)

variable {strict : Bool}

theorem class?_not (e : Char) : class? strict strict ('^' :: (escape [e] ++ [']'])) =
    some (.set true (.single e.toNat), (escape [e]).length + 2) := by
  have hatoms := @classAtoms?_escape strict strict [e] 1 []
  unfold class?
  simp only [List.head?_cons, beq_self_eq_true, if_true, List.drop_succ_cons, List.drop_zero, hatoms]
  simp only [List.reverse_nil, List.map_cons, List.map_nil, List.nil_append]
  show (assembleClass strict ([e].map fun c => .point c.toNat)).map _ = _
  rw [assembleClass_points]
  simp only [Option.map_some, Option.some.injEq, Prod.mk.injEq]
  exact ⟨rfl, by omega⟩

theorem fits_words (e : Char) {ws : List Word} (h : FitsIn strict ws) :
    FitsIn strict (words e ws) := by
  have hclass : Word.FitsIn strict ⟨'[' :: '^' :: (escape [e] ++ [']']), .set true (.single e.toNat)⟩
      [')', '+', ')', '+'] := by
    have hnot := @class?_not strict e
    have h := (class?_append (T := [')', '+', ')', '+']) ⟨rfl, fun h => absurd h (by decide)⟩ hnot).1
    unfold Word.FitsIn
    simp only [lexeme?, h]
    simp
  have hback : FitsIn strict (back e) := ⟨rfl, hclass, rfl, rfl, rfl, rfl, trivial⟩
  have hpair (rest : Text) :
      Word.FitsIn strict ⟨['[', '\\', 'S', '\\', 's', ']'], .set false anything⟩ rest := by
    cases strict <;> rfl
  exact ⟨rfl, fits_literalWord e _, hpair _, rfl, rfl, rfl,
    h.append hback ⟨rfl, fun h => absurd h (by decide)⟩⟩

theorem write_words (e : Char) (ws : List Word) :
    write (words e ws) = source (escape [e]) (write ws) := by
  have hopen : "(?:".toList = ['(', '?', ':'] := rfl
  have hpair : "[\\S\\s]|(?:(?!".toList =
      ['[', '\\', 'S', '\\', 's', ']', '|', '(', '?', ':', '(', '?', '!'] := rfl
  have hother : ")[^".toList = [')', '[', '^'] := rfl
  have hclose : "])+)+".toList = [']', ')', '+', ')', '+'] := rfl
  delta source
  rw [hopen, hpair, hother, hclose]
  simp only [words, front, back, write_append, write_cons, write_nil, literalWord, escape_cons, escape_nil,
    List.append_nil, List.append_assoc, List.cons_append, List.nil_append]

/-- An escape character and the character after it. -/
def pair (e : Char) (ignoreCase : Bool) : Node :=
  .seq (.atom (.literal e.toNat ignoreCase)) (.seq (.atom (.set false anything ignoreCase)) .empty)

/-- A character other than the escape character that is no delimiter. -/
def other (e : Char) (ignoreCase : Bool) (delimiters : Node) : Node :=
  .seq (.look false true delimiters)
    (.seq (.atom (.set true (.single e.toNat) ignoreCase)) .empty)

/-- What a skipper takes in one round for delimiters: an escaped character, or others. -/
def inert (e : Char) (ignoreCase : Bool) (p : Program) : Node :=
  .alt (pair e ignoreCase)
    (.seq (.loop (other e ignoreCase p.node) 1 none true ⟨0, p.groups⟩) .empty)

/-- The tree of a skipper for delimiters. -/
def node (e : Char) (ignoreCase : Bool) (p : Program) : Node :=
  .seq (.loop (inert e ignoreCase p) 1 none true ⟨0, p.groups⟩) .empty

/-- The delimiters are read inside of a skipper as they are alone. -/
theorem readAll?_words (e : Char) {names : List (Option Text)} {modes : Modes} {ls : List Lexeme}
    {p : Progress} (h : Progress.readAll? ⟨strict, names⟩ (.initial modes) ls = some p)
    (hclosed : p.frames = []) :
    ∃ q, Progress.readAll? ⟨strict, names⟩ (.initial modes)
        ((front e).map Word.lexeme ++ (ls ++ (back e).map Word.lexeme)) = some q ∧ q.frames = [] ∧
      q.body = node e modes.ignoreCase ⟨p.body, p.groups⟩ := by
  have hmodes : modes.modify [] [] = modes := by simp [Modes.modify]
  let around : List Frame := [⟨.look false true, 0, 0, modes, [], []⟩,
    ⟨.plain [] [], 0, 0, modes, [pair e modes.ignoreCase], []⟩, ⟨.plain [] [], 0, 0, modes, [], []⟩]
  have hbefore : Progress.readAll? ⟨strict, names⟩ (.initial modes) ((front e).map Word.lexeme) =
      some ((Progress.initial modes).nested [] around) := by
    show some (Progress.mk 0 ((modes.modify [] []).modify [] []) [] []
      [⟨.look false true, 0, 0, (modes.modify [] []).modify [] [], [], []⟩,
        ⟨.plain [] [], 0, 0, modes.modify [] [], [pair e (modes.modify [] []).ignoreCase], []⟩,
        ⟨.plain [] [], 0, 0, modes, [], []⟩]) = _
    rw [hmodes, hmodes]
    rfl
  have hinside := @Progress.readAll?_nested [] around _ ls _ _ h
  rw [Progress.nested_of_closed hclosed] at hinside
  refine ⟨⟨p.groups, modes, [], [⟨.loop (inert e modes.ignoreCase ⟨p.body, p.groups⟩) 1 none true
    ⟨0, p.groups⟩, false, 0⟩], []⟩, ?_, rfl, rfl⟩
  rw [Progress.readAll?_append _ _ _ _ _ hbefore, Progress.readAll?_append _ _ _ _ _ hinside]
  rfl

/-- **A skipper is read as the tree for its delimiters**, whose pattern names no group. -/
theorem ofSource?_eq (e : Char) {mode : Mode} {delimiters : Text} {ls : List Lexeme}
    (hlexed : lexemes? mode.unicode delimiters = some ls)
    (hnone : ∀ name ∈ captureNames ls, name = none) {p : Program}
    (h : Program.ofSource? delimiters mode = some p) :
    lexemes? mode.unicode (source (escape [e]) delimiters) =
        some ((front e).map Word.lexeme ++ (ls ++ (back e).map Word.lexeme)) ∧
      Program.ofSource? (source (escape [e]) delimiters) mode =
        some ⟨node e mode.ignoreCase p, p.groups⟩ := by
  obtain ⟨ws, hfits, rfl, rfl⟩ := exists_fits_of_lexemes? hlexed hnone
  have hmap : (words e ws).map Word.lexeme =
      (front e).map Word.lexeme ++ (ws.map Word.lexeme ++ (back e).map Word.lexeme) := by
    simp only [words, List.map_append]
  have hnames : captureNames ((words e ws).map Word.lexeme) = captureNames (ws.map Word.lexeme) := by
    rw [hmap, captureNames_append, captureNames_append]
    exact List.append_nil _
  have hwhole := lexemes?_of_fits (fits_words e hfits) (hnames.symm ▸ hnone)
  rw [write_words] at hwhole
  refine ⟨hmap ▸ hwhole, ?_⟩
  obtain ⟨ls, q, hq, rfl⟩ := Program.ofSource?_eq_some_iff.1 h
  obtain rfl := Option.some.inj (hlexed.symm.trans hq.lexed)
  obtain ⟨r, hr, hclosed, hbody⟩ := readAll?_words e hq.read hq.closed
  rw [← hmap] at hr
  refine Program.ofSource?_eq_some_iff.2 ⟨_, r, ⟨hwhole, ?_, ?_, ?_, hclosed⟩, ?_⟩
  · rw [hnames]
    exact hq.few
  · rw [hnames]
    exact hq.distinct
  · rw [hnames]
    exact hr
  · rw [hnames, hbody, hq.numbered.2]

/-- A skipper has no numbers that could refer to a group behind all others, if its delimiters refer to
their own groups only. -/
theorem noNextGroup {engine : Engine} (e : Char) {ls : List Lexeme}
    (hlexed : lexemes? engine.mode.unicode engine.source =
      some ((front e).map Word.lexeme ++ (ls ++ (back e).map Word.lexeme)))
    (hls : ∀ l ∈ ls, l.Movable engine.program.groups) : engine.NoNextGroup := by
  intro ms hms l hl
  rw [hlexed] at hms
  obtain rfl := Option.some.inj hms
  have hother (ws : List Word) (h : ∀ w ∈ ws, ∀ digits, w.lexeme ≠ .decimal digits) {l : Lexeme}
      (hl : l ∈ ws.map Word.lexeme) : l.isNextGroup engine.program.groups = false := by
    obtain ⟨w, hw, rfl⟩ := List.mem_map.1 hl
    have hne := h w hw
    cases hlexeme : w.lexeme with
    | decimal digits => exact absurd hlexeme (hne digits)
    | _ => rfl
  rcases List.mem_append.1 hl with hl | hl
  · exact hother (front e) (by simp [front, literalWord]) hl
  rcases List.mem_append.1 hl with hl | hl
  · cases l with
    | decimal digits =>
      have hle := (hls _ hl).2 digits rfl
      show (readDigits 10 digits == engine.program.groups + 1) = false
      exact beq_false_of_ne (by omega)
    | _ => rfl
  · exact hother (back e) (by simp [back]) hl

/-- Two characters as delimiters. -/
def ofChars (left right : Char) : Program :=
  ⟨.alt (.seq (.char left) .empty) (.seq (.char right) .empty), 0⟩

theorem lexemes?_chars (left right : Char) : lexemes? false (escape [left] ++ '|' :: escape [right]) =
    some [.literal left.toNat, .bar, .literal right.toNat] := by
  have hfits : Fits [literalWord left, ⟨['|'], .bar⟩, literalWord right] :=
    ⟨fits_literalWord left _, rfl, fits_literalWord right _, trivial⟩
  have hwrite : write [literalWord left, ⟨['|'], .bar⟩, literalWord right] =
      escape [left] ++ '|' :: escape [right] := by
    simp [literalWord]
  exact hwrite ▸ lexemes?_of_fits hfits fun name hname => absurd hname List.not_mem_nil

theorem ofSource?_chars (left right : Char) :
    Program.ofSource? (escape [left] ++ '|' :: escape [right]) {} = some (ofChars left right) :=
  (@Program.reads_of_lexAll? {} _ _ _
    ((lexemes?_eq_some_iff fun _ hname => absurd hname List.not_mem_nil).1
      (lexemes?_chars left right)) rfl rfl rfl).trans rfl

/-! ## 2. What a skipper takes -/

section Strides

variable (e left right : Char)

/-- What `pair` takes. -/
def pairStride (p : Place) : Nat :=
  match p.ahead with
  | c :: _ :: _ => if c = e then 2 else 0
  | _ => 0

/-- Whether a character is neither the escape character nor a delimiter. -/
def isOther (c : Char) : Bool := c != e && c != left && c != right

/-- What `other` takes. -/
def otherStride (p : Place) : Nat := if p.ahead.head?.any (isOther e left right) then 1 else 0

/-- What one round of a skipper takes: an escaped character, or all that is none and no delimiter. -/
def stride (p : Place) : Nat :=
  if pairStride e p = 0 then repeated (otherStride e left right) p else pairStride e p

theorem contains_anything (n : Nat) : anything.contains n = true := by
  rw [anything, CodeSet.contains_unionOf]
  simp only [List.any_cons, List.any_nil, CodeSet.contains_select]
  cases Shorthand.space.members.contains n <;> rfl

theorem strides_pair : (pair e false).Strides (pairStride e) where
  le p := by
    unfold pairStride
    split
    · rename_i heq
      rw [heq, List.length_cons, List.length_cons]
      split <;> omega
    · exact Nat.zero_le _
  run k t _ _ := by
    have hany (c : Char) : (Atom.set false anything false).admits c = true :=
      (Node.admits_inside anything c).trans (contains_anything c.toNat)
    have hsecond : (Node.seq (.atom (.set false anything false)) .empty).run .forward k (t.skip 1) =
        if t.place.ahead.drop 1 = [] then none else k (t.skip 2) := by
      rw [Node.run_seq_empty, Node.run_atom, Track.ahead_skip]
      cases t.place.ahead.drop 1 with
      | nil => rfl
      | cons d ds =>
        rw [if_neg (List.cons_ne_nil d ds)]
        simp only [hany, if_true, Track.skip_skip]
    unfold pairStride
    show (Node.seq (.char e) _).run .forward k t = _
    rw [Node.run_char, hsecond]
    rcases t.place.ahead with _ | ⟨c, _ | ⟨d, ds⟩⟩
    · rfl
    · simp
    · by_cases hc : c = e <;> simp [hc]

theorem strides_other :
    (other e false (ofChars left right).node).Strides (otherStride e left right) := by
  refine Node.strides_unless fun p => ?_
  have hnot (d : Char) : (Atom.set true (.single e.toNat) false).admits d = (d != e) :=
    (Node.admits_outside _ d).trans (congrArg not (contains_single e d))
  rw [ofChars, Node.run_alt, Node.run_char, Node.run_char]
  cases p.ahead with
  | nil => simp
  | cons d ds =>
    simp only [List.head?_cons, Option.any_some, hnot, isOther, Bool.and_eq_true, bne_iff_ne, ne_eq]
    by_cases hl : d = left
    · simp [hl, Node.run]
    · by_cases hr : d = right
      · subst hr
        simp [hl, Node.run]
      · simp [hl, hr]

theorem strides_node :
    (node e false (ofChars left right)).Strides (repeated (stride e left right)) :=
  (((strides_pair e).alt ((strides_other e left right).loop 0).seq_empty).loop 0).seq_empty

end Strides

/-! ## 3. Brackets -/

section Brackets

variable {e left right : Char} {text : Text} {bs : List Bracket}

theorem brackets_nil (i : Nat) : brackets (some e) left right i [] = [] := by
  rw [brackets.eq_def]

theorem brackets_escaped (i : Nat) (d : Char) (ds : Text) :
    brackets (some e) left right i (e :: d :: ds) = brackets (some e) left right (i + 2) ds := by
  rw [brackets.eq_def]
  exact if_pos rfl

theorem brackets_cons {c : Char} (h : c ≠ e) (i : Nat) (cs : Text) :
    brackets (some e) left right i (c :: cs) =
      if c = left then ⟨true, i⟩ :: brackets (some e) left right (i + 1) cs
      else if c = right then ⟨false, i⟩ :: brackets (some e) left right (i + 1) cs
      else brackets (some e) left right (i + 1) cs := by
  rw [brackets.eq_def]
  exact if_neg fun he => h (Option.some.inj he).symm

/-- A place of a text, with the brackets from there on. -/
def Reaches (e left right : Char) (text : Text) (bs : List Bracket) (p : Place) : Prop :=
  ∃ i, p = BalancedSearch.place text i ∧ brackets (some e) left right i (text.drop i) = bs

theorem reaches_pair {p : Place} (h : Reaches e left right text bs p) (hne : pairStride e p ≠ 0) :
    Reaches e left right text bs (p.advance (pairStride e p)) := by
  obtain ⟨i, rfl, rfl⟩ := h
  unfold pairStride at hne ⊢
  rw [BalancedSearch.ahead_place] at hne ⊢
  rcases hdrop : text.drop i with _ | ⟨c, _ | ⟨d, ds⟩⟩
  · rw [hdrop] at hne
    exact absurd rfl hne
  · rw [hdrop] at hne
    exact absurd rfl hne
  · rw [hdrop] at hne
    by_cases hc : c = e
    · subst hc
      refine ⟨i + 2, by simp only [if_true, BalancedSearch.advance_place], ?_⟩
      rw [brackets_escaped, ← List.drop_drop, hdrop]
      rfl
    · exact absurd (if_neg hc) hne

theorem reaches_other {p : Place} (h : Reaches e left right text bs p)
    (hne : otherStride e left right p ≠ 0) :
    Reaches e left right text bs (p.advance (otherStride e left right p)) := by
  obtain ⟨i, rfl, rfl⟩ := h
  unfold otherStride at hne ⊢
  rw [BalancedSearch.ahead_place] at hne ⊢
  have hother : (text.drop i).head?.any (isOther e left right) = true := by
    by_contra hnot
    exact hne (if_neg hnot)
  rw [if_pos hother]
  refine ⟨i + 1, BalancedSearch.advance_place text i 1, ?_⟩
  cases hdrop : text.drop i with
  | nil =>
    rw [hdrop] at hother
    cases hother
  | cons c cs =>
    rw [hdrop] at hother
    simp only [List.head?_cons, Option.any_some, isOther, Bool.and_eq_true, bne_iff_ne, ne_eq]
      at hother
    rw [brackets_cons hother.1.1, if_neg hother.1.2, if_neg hother.2, ← List.drop_drop, hdrop]
    rfl

theorem reaches_stride {p : Place} (h : Reaches e left right text bs p) :
    Reaches e left right text bs (p.advance (stride e left right p)) := by
  unfold stride
  split
  · exact repeated_keeps (fun q hq hstride => reaches_other hq hstride) h
  · rename_i hpair
    exact reaches_pair h hpair

/-- Where a skipper takes nothing, there is a delimiter or an escape character without one after it, or
the text ends. -/
theorem of_stride_eq_zero {p : Place} (h : stride e left right p = 0) :
    p.ahead = [] ∨ p.ahead = [e] ∨ ∃ c cs, p.ahead = c :: cs ∧ (c = left ∨ c = right) := by
  have hpair : pairStride e p = 0 := by
    by_contra hne
    unfold stride at h
    rw [if_neg hne] at h
    exact hne h
  have hother : otherStride e left right p = 0 := by
    unfold stride at h
    rwa [if_pos hpair, repeated_eq_zero_iff] at h
  unfold pairStride at hpair
  unfold otherStride at hother
  rcases hahead : p.ahead with _ | ⟨c, cs⟩
  · exact .inl rfl
  · rw [hahead] at hpair hother
    by_cases hc : c = e
    · subst hc
      cases cs with
      | nil => exact .inr (.inl rfl)
      | cons d ds => simp at hpair
    · refine .inr (.inr ⟨c, cs, rfl, ?_⟩)
      by_contra hnot
      rw [not_or] at hnot
      simp [isOther, hc, hnot.1, hnot.2] at hother

end Brackets

end Skipper

namespace BalancedSearch

variable {b : BalancedSearch} {e left right : Char}

/-- From where a skipper leads to, the next delimiter is the first bracket. -/
theorem meets_of_reaches (hleft : b.left.IsChar left) (hright : b.right.IsChar right)
    (hne : right ≠ left) (hel : e ≠ left) (her : e ≠ right) {text : Text} {bs : List Bracket} {p : Place}
    (h : Skipper.Reaches e left right text bs p) (hstop : Skipper.stride e left right p = 0) :
    b.Meets (some e) left right text (some p) bs := by
  obtain ⟨i, rfl, rfl⟩ := h
  have hahead := ahead_place text i
  have hafter : (place text i).advance 1 = place text (i + 1) := advance_place text i 1
  rcases Skipper.of_stride_eq_zero hstop with hplace | hplace | ⟨c, cs, hplace, hc⟩
  · rw [← hahead, hplace, Skipper.brackets_nil]
    exact nextDelimiter?_nil hleft hright hplace
  · have hend : ((place text i).advance 1).ahead = [] := (Place.next?_advance hplace).2.1
    have hnone : brackets (some e) left right i [e] = [] := by
      rw [brackets.eq_def]
      exact if_pos rfl
    rw [← hahead, hplace, hnone]
    show b.nextDelimiter? (some (place text i)) = none
    rw [nextDelimiter?_next hleft hright hplace hel her]
    exact nextDelimiter?_nil hleft hright hend
  · have hdrop := hahead.symm.trans hplace
    obtain ⟨hlt, rfl⟩ := lt_of_drop_eq_cons hdrop
    have hce : c ≠ e := by
      rintro rfl
      exact hc.elim hel her
    rw [hdrop, Skipper.brackets_cons hce]
    rcases hc with rfl | rfl
    · rw [if_pos rfl]
      refine ⟨?_, hlt, rfl⟩
      rw [nextDelimiter?_left hleft hplace, hafter]
      rfl
    · rw [if_neg hne, if_pos rfl]
      refine ⟨?_, hlt, rfl⟩
      rw [nextDelimiter?_right hleft hright hne hplace, hafter]
      rfl

/-- **A scan with a skipper sees the brackets that are not escaped.** -/
theorem sees_of_skipper (hleft : b.left.IsChar left) (hright : b.right.IsChar right)
    (hne : right ≠ left) (hel : e ≠ left) (her : e ≠ right) {skipper : Regex}
    (hskipper : b.skipper = some skipper)
    (hprogram : skipper.engine.program = ⟨Skipper.node e false (Skipper.ofChars left right), 0⟩)
    (hnext : skipper.engine.NoNextGroup) : b.Sees (some e) left right := by
  intro text i
  have hstrides := Skipper.strides_node e left right
  have hle := ((Skipper.strides_pair e).alt
    ((Skipper.strides_other e left right).loop 0)).le
  have hreaches : Skipper.Reaches e left right text
    (brackets (some e) left right i (text.drop i)) (place text i) := ⟨i, rfl, rfl⟩
  have hmatch : skipper.searchAt? (place text i) true =
      if repeated (Skipper.stride e left right) (place text i) = 0 then none
      else some (skipper.captures ⟨⟨place text i, (place text i).advance
        (repeated (Skipper.stride e left right) (place text i))⟩, []⟩) := by
    show (skipper.engine.searchAt? (place text i)).map skipper.captures = _
    rw [Engine.searchAt?_eq_matchAt? _ (.inr hnext), hprogram, Program.matchAt?]
    simp only
    rw [hstrides.run some ⟨place text i, []⟩ rfl fun _ _ _ => rfl]
    simp only
    by_cases hzero : repeated (Skipper.stride e left right) (place text i) = 0
    · rw [if_pos hzero, if_pos hzero]
      rfl
    · rw [if_neg hzero, if_neg hzero]
      rfl
  unfold skip
  rw [hskipper]
  simp only [hmatch]
  by_cases hzero : repeated (Skipper.stride e left right) (place text i) = 0
  · rw [if_pos hzero]
    exact meets_of_reaches hleft hright hne hel her hreaches ((repeated_eq_zero_iff _).1 hzero)
  · rw [if_neg hzero]
    exact meets_of_reaches hleft hright hne hel her
      (repeated_keeps (fun q hq _ => Skipper.reaches_stride hq) hreaches)
      (stride_repeated hle (place text i))

end BalancedSearch

end ExtensibleRegex
