import ExtensibleRegex.Combine.Union
import ExtensibleRegex.Proofs.Combine.Forms
import ExtensibleRegex.Proofs.Native.Anchored
import Mathlib.Data.List.TakeWhile
import Mathlib.Tactic

/-!
# Words as pieces

A union sees pieces where the engine sees words. This file compares the two:

* a word of a tidy text is `Firm`: it has one of a few forms, and holds what an escape in it needs
  (`firm_of_fits`);
* firm words are cut into pieces one after the other (`Firm.pieces`);
* what is written for the pieces of a part are the words of the part, with the numbers in its
  references moved (`Word.shifted`) and with names for its groups (`dub`): `renumber_pieces`.
-/

namespace ExtensibleRegex

open Native

/-! ## 1. Cutting -/

section Cutting

variable {sub : Bool}

theorem piecesFrom_eq : ∀ (skip : Nat) (read : List Piece) (t : Text),
    piecesFrom sub skip read t = read.reverse ++ pieces (t.drop skip) sub
  | _, read, [] => by simp [piecesFrom, pieces]
  | skip + 1, read, _ :: cs => piecesFrom_eq skip read cs
  | 0, read, c :: cs => by
      have hread := piecesFrom_eq (pieceAt sub c cs).2 ((pieceAt sub c cs).1 :: read) cs
      have hempty := piecesFrom_eq (pieceAt sub c cs).2 [(pieceAt sub c cs).1] cs
      show piecesFrom sub (pieceAt sub c cs).2 ((pieceAt sub c cs).1 :: read) cs =
        read.reverse ++ piecesFrom sub (pieceAt sub c cs).2 [(pieceAt sub c cs).1] cs
      rw [hread, hempty]
      simp

theorem pieces_cons {c : Char} {cs : Text} {p : Piece} {n : Nat} (h : pieceAt sub c cs = (p, n)) :
    pieces (c :: cs) sub = p :: pieces (cs.drop n) sub := by
  show piecesFrom sub (pieceAt sub c cs).2 [(pieceAt sub c cs).1] cs = _
  rw [piecesFrom_eq, h]
  rfl

end Cutting

theorem pieceAt_plain {c : Char} (hc : isPlain c = true ∨ c = ']') (cs : Text) :
    pieceAt false c cs = (.verbatim [c], 0) := by
  have hparen : c ≠ '(' := by rcases hc with hc | rfl; rintro rfl; cases hc; decide
  have hback : c ≠ '\\' := by rcases hc with hc | rfl; rintro rfl; cases hc; decide
  have hopen : c ≠ '[' := by rcases hc with hc | rfl; rintro rfl; cases hc; decide
  simp [pieceAt, hparen, hback, hopen]

theorem pieceAt_capture {cs : Text} (h : cs.head? ≠ some '?') :
    pieceAt false '(' cs = (.capture, 0) := by simp [pieceAt, h]

theorem pieceAt_opens {cs : Text} (h : cs.head? = some '?') :
    pieceAt false '(' cs = (.verbatim ['('], 0) := by simp [pieceAt, h]

theorem pieceAt_escape {c : Char} (hc : c.isDigit = true → c = '0') (cs : Text) :
    pieceAt false '\\' (c :: cs) = (.verbatim ['\\', c], 1) := by
  have hdigits : ¬((c :: cs).takeWhile Char.isDigit ≠ [] ∧
      ((c :: cs).takeWhile Char.isDigit).head? ≠ some '0') := by
    rintro ⟨hne, hzero⟩
    cases hdigit : c.isDigit with
    | false => simp [hdigit] at hne
    | true => simp [hc hdigit] at hzero
  simp only [pieceAt, Bool.false_eq_true, if_false]
  rw [if_neg (by simp), if_pos trivial, if_neg hdigits]
  rfl

theorem pieceAt_class {body : Text} (h : ClassBody body) (cs : Text) :
    pieceAt false '[' (body ++ cs) = (.verbatim ('[' :: body), body.length) := by
  have hlength := h.length cs 0
  rw [Nat.zero_add] at hlength
  simp [pieceAt, hlength]

theorem pieceAt_number {digits cs : Text} (hne : digits ≠ [])
    (hdigits : ∀ d ∈ digits, d.isDigit = true) (hzero : digits.head? ≠ some '0')
    (hcs : cs.head?.any Char.isDigit = false) :
    pieceAt false '\\' (digits ++ cs) = (.backref (readDigits 10 digits), digits.length) := by
  have htake : (digits ++ cs).takeWhile Char.isDigit = digits := by
    rw [List.takeWhile_append_of_pos hdigits]
    cases cs with
    | nil => simp
    | cons c cs => simp [show c.isDigit = false from hcs]
  simp only [pieceAt, Bool.false_eq_true, if_false, htake]
  rw [if_neg (by simp), if_pos trivial, if_pos ⟨hne, hzero⟩]

theorem pieces_plain {c : Char} (hc : isPlain c = true ∨ c = ']') (cs : Text) :
    pieces (c :: cs) false = .verbatim [c] :: pieces cs false := pieces_cons (pieceAt_plain hc cs)

theorem pieces_capture {cs : Text} (h : cs.head? ≠ some '?') :
    pieces ('(' :: cs) false = .capture :: pieces cs false := pieces_cons (pieceAt_capture h)

theorem pieces_opens {cs : Text} (h : cs.head? = some '?') :
    pieces ('(' :: cs) false = .verbatim ['('] :: pieces cs false := pieces_cons (pieceAt_opens h)

theorem pieces_escape {c : Char} (hc : c.isDigit = true → c = '0') (cs : Text) :
    pieces ('\\' :: c :: cs) false = .verbatim ['\\', c] :: pieces cs false :=
  pieces_cons (pieceAt_escape hc cs)

theorem pieces_class {body : Text} (h : ClassBody body) (cs : Text) :
    pieces ('[' :: (body ++ cs)) false = .verbatim ('[' :: body) :: pieces cs false := by
  rw [pieces_cons (pieceAt_class h cs), List.drop_left]

theorem pieces_number {digits cs : Text} (hne : digits ≠ []) (hdigits : ∀ d ∈ digits, d.isDigit = true)
    (hzero : digits.head? ≠ some '0') (hcs : cs.head?.any Char.isDigit = false) :
    pieces ((numberWord digits).text ++ cs) false =
      .backref (readDigits 10 digits) :: pieces cs false := by
  show pieces ('\\' :: (digits ++ cs)) false = _
  rw [pieces_cons (pieceAt_number hne hdigits hzero hcs), List.drop_left]

/-! ## 2. Firm words -/

/-- The forms of words in tidy texts. -/
inductive Firm : Word → Prop where
  /-- The parenthesis of a capturing group. -/
  | capture : Firm ⟨['('], .opening (.capture none)⟩
  /-- A backslash and a number that does not begin with zero. -/
  | number {digits : Text} (ne_nil : digits ≠ []) (isDigit : ∀ d ∈ digits, d.isDigit = true)
      (not_zero : digits.head? ≠ some '0') : Firm (numberWord digits)
  /-- Plain characters, or a closing bracket. -/
  | plain {c : Char} {cs : Text} {l : Lexeme} (still : Still l)
      (first : isPlain c = true ∨ c = ']') (plain : ∀ d ∈ cs, isPlain d = true) : Firm ⟨c :: cs, l⟩
  /-- The opening of a group that does not capture. -/
  | opens {kind : Opening} {cs : Text} (opens : Opens kind cs) :
      Firm ⟨'(' :: '?' :: cs, .opening kind⟩
  /-- An escape with all that it is kept for. -/
  | escape {c : Char} {cs : Text} {l : Lexeme} (still : Still l) (digit : c.isDigit = true → c = '0')
      (trail : Trail cs) (kept : isKept false c cs = true) : Firm ⟨'\\' :: c :: cs, l⟩
  /-- A class that is neither empty nor the complement of an empty one. -/
  | set {body : Text} {l : Lexeme} (still : Still l) (closes : ClassBody body)
      (bare : isBare body = false) (tidy : tidy true body = true) : Firm ⟨'[' :: body, l⟩

/-- A firm word opens a group, is a number, or is neither. -/
theorem Firm.kind {w : Word} (h : Firm w) : w = ⟨['('], .opening (.capture none)⟩ ∨
    (∃ digits, digits ≠ [] ∧ (∀ d ∈ digits, d.isDigit = true) ∧ digits.head? ≠ some '0' ∧
      w = numberWord digits) ∨ Still w.lexeme := by
  cases h with
  | capture => exact .inl rfl
  | number ne_nil isDigit not_zero => exact .inr (.inl ⟨_, ne_nil, isDigit, not_zero, rfl⟩)
  | plain still _ _ => exact .inr (.inr still)
  | opens opens =>
    exact .inr (.inr ⟨nofun, fun name h => opens.kind_ne name (Lexeme.opening.inj h)⟩)
  | escape still _ _ _ => exact .inr (.inr still)
  | set still _ _ _ => exact .inr (.inr still)

theorem Firm.ne_nil {w : Word} (h : Firm w) : w.text ≠ [] := by
  cases h <;> exact List.cons_ne_nil _ _

theorem tidy_trail {w : Text} (h : Trail w) {b : Bool} {next : Text}
    (htidy : tidy b (w ++ next) = true) : tidy b next = true := by
  rcases h with hplain | ⟨high, low, rfl, -, hlength, hhigh, hlow⟩
  · rwa [tidy_append next hplain] at htidy
  · rw [List.append_assoc, tidy_append _ fun d hd => isPlain_of_isHexDigit (hhigh d hd)] at htidy
    have hescape : (isKept b 'u' (low ++ next) && tidy b (low ++ next)) = true := htidy
    rw [tidy_append next fun d hd => isPlain_of_isHexDigit (hlow d hd), Bool.and_eq_true] at hescape
    exact hescape.2

/-- The characters that an escape in a class needs end before its bracket. -/
theorem isKept_of_classBody {c : Char} {cs next : Text} (h : ClassBody cs) :
    isKept true c (cs ++ next) = isKept true c cs := by
  have hclose : ']' ∈ cs := by
    induction h with
    | close => exact List.mem_cons_self
    | escape c _ ih => exact List.mem_cons_of_mem _ (List.mem_cons_of_mem _ ih)
    | other _ _ _ ih => exact List.mem_cons_of_mem _ ih
  have hhead : (cs ++ next).head? = cs.head? := by cases h <;> rfl
  have hhex : leadingHexDigits (cs ++ next) = leadingHexDigits cs := by
    have hlt : (cs.takeWhile isHexDigit).length ≠ cs.length := fun hall => by
      have hself := List.takeWhile_eq_self_iff.1
        ((List.takeWhile_prefix isHexDigit).eq_of_length hall)
      exact absurd (hself ']' hclose) (by decide)
    unfold leadingHexDigits
    rw [List.takeWhile_append, if_neg hlt]
  unfold isKept
  rw [hhead, hhex]

theorem tidy_classBody {body : Text} (h : ClassBody body) (next : Text) :
    tidy true (body ++ next) = (tidy true body && tidy false next) := by
  induction h with
  | close => exact (tidy_close next).trans (Bool.true_and _).symm
  | escape c rest ih =>
    show tidy true ('\\' :: c :: (_ ++ next)) = _
    rw [tidy_escape, tidy_escape, isKept_of_classBody rest, ih, Bool.and_assoc]
  | other hclose hback rest ih =>
    rw [List.cons_append, tidy_other hback (fun h => Bool.noConfusion h) (fun _ => hclose), ih,
      tidy_other hback (fun h => Bool.noConfusion h) (fun _ => hclose)]

theorem isBare_classBody {body : Text} (h : ClassBody body) (next : Text) :
    isBare (body ++ next) = isBare body := by
  cases h with
  | close => rfl
  | escape c rest => rfl
  | other hclose hback rest =>
    cases rest <;> rfl

/-- A word of a tidy text is firm, and the text after it is tidy. -/
theorem Form.firm {w : Word} {next : Text} (h : Form next w)
    (htidy : tidy false (w.text ++ next) = true) : Firm w ∧ tidy false next = true := by
  cases h with
  | capture head =>
    exact ⟨.capture, (tidy_other (b := false) (by decide) (fun _ => by decide) nofun next).symm.trans
      htidy⟩
  | number ne_nil isDigit not_zero head =>
    obtain ⟨d, ds, rfl⟩ := List.exists_cons_of_ne_nil ne_nil
    refine ⟨.number ne_nil isDigit not_zero, ?_⟩
    have hdigits : tidy false ('\\' :: d :: ds ++ next) = true := htidy
    rwa [tidy_escape_append (isKept_of_isDigit (isDigit d List.mem_cons_self) _) fun c hc =>
      isPlain_of_isDigit (isDigit c (List.mem_cons_of_mem d hc))] at hdigits
  | plain still first plain =>
    refine ⟨.plain still first plain, ?_⟩
    rw [List.cons_append] at htidy
    rcases first with hfirst | rfl
    · rwa [tidy_plain hfirst, tidy_append next plain] at htidy
    · rwa [tidy_other (b := false) (by decide) (fun _ => by decide) nofun,
        tidy_append next plain] at htidy
  | opens opens =>
    refine ⟨.opens opens, ?_⟩
    rw [List.cons_append, List.cons_append, tidy_other (b := false) (by decide) (fun _ => by decide)
      nofun, tidy_plain rfl, tidy_append next opens.plain] at htidy
    exact htidy
  | @escape c cs l still digit trail kept =>
    have hescape : (isKept false c (cs ++ next) && tidy false (cs ++ next)) = true := htidy
    rw [Bool.and_eq_true] at hescape
    exact ⟨.escape still digit trail (kept hescape.1), tidy_trail trail hescape.2⟩
  | lone still next_eq head =>
    subst next_eq
    have hescape : (isKept false 'c' _ && tidy false _) = true := htidy
    rw [Bool.and_eq_true] at hescape
    have hkept := hescape.1
    simp [isKept, head] at hkept
  | @set body l still closes =>
    rw [List.cons_append, tidy_open, isBare_classBody closes, tidy_classBody closes] at htidy
    simp only [Bool.and_eq_true, Bool.not_eq_true'] at htidy
    exact ⟨.set still closes htidy.1 htidy.2.1, htidy.2.2⟩

/-- **The words of a tidy text are firm**, if the text names no group. -/
theorem firm_of_fits : ∀ {ws : List Word}, Fits ws → tidy false (write ws) = true →
    (∀ w ∈ ws, ∀ name, w.lexeme ≠ .opening (.capture (some name))) → ∀ w ∈ ws, Firm w
  | [], _, _, _ => nofun
  | w :: ws, h, htidy, hnames => by
      obtain ⟨hfirm, hrest⟩ := (Form.of_fits h.1 (hnames w List.mem_cons_self)).firm htidy
      intro v hv
      rcases List.mem_cons.1 hv with rfl | hv
      · exact hfirm
      · exact firm_of_fits h.2 hrest (fun u hu => hnames u (List.mem_cons_of_mem w hu)) v hv

/-! ## 3. Pieces of words -/

/-- A text that is cut into pieces which are copied, wherever it stands. -/
def Copied (w : Text) : Prop :=
  ∃ ts : List Text, ts.flatten = w ∧ ∀ next, pieces (w ++ next) false =
    ts.map .verbatim ++ pieces next false

namespace Copied

theorem nil : Copied [] := ⟨[], rfl, fun _ => rfl⟩

theorem cons {c : Char} (hc : isPlain c = true ∨ c = ']') {w : Text} (h : Copied w) :
    Copied (c :: w) := by
  obtain ⟨ts, hts, hcut⟩ := h
  refine ⟨[c] :: ts, congrArg (c :: ·) hts, fun next => ?_⟩
  rw [List.cons_append, pieces_plain hc, hcut]
  rfl

theorem append {w : Text} (hw : Copied w) : ∀ {v : Text}, (∀ d ∈ v, isPlain d = true) →
    Copied (v ++ w)
  | [], _ => hw
  | d :: _, h => (hw.append fun e he => h e (List.mem_cons_of_mem d he)).cons
      (.inl (h d List.mem_cons_self))

theorem of_plain {v : Text} (h : ∀ d ∈ v, isPlain d = true) : Copied v := by
  have hnil := nil.append h
  rwa [List.append_nil] at hnil

theorem escape {c : Char} {w : Text} (h : Copied w) (hc : c.isDigit = true → c = '0') :
    Copied ('\\' :: c :: w) := by
  obtain ⟨ts, hts, hcut⟩ := h
  refine ⟨['\\', c] :: ts, congrArg ('\\' :: c :: ·) hts, fun next => ?_⟩
  rw [List.cons_append, List.cons_append, pieces_escape hc, hcut]
  rfl

theorem opens {w : Text} (h : ∀ d ∈ w, isPlain d = true) : Copied ('(' :: '?' :: w) := by
  obtain ⟨ts, hts, hcut⟩ := (of_plain h).cons (c := '?') (.inl rfl)
  refine ⟨['('] :: ts, congrArg ('(' :: ·) hts, fun next => ?_⟩
  rw [List.cons_append, pieces_opens rfl, hcut]
  rfl

theorem set {body : Text} (h : ClassBody body) : Copied ('[' :: body) :=
  ⟨['[' :: body], List.append_nil _, fun next => pieces_class h next⟩

/-- What follows the first character of an escape. -/
theorem of_trail {w : Text} (h : Trail w) : Copied w := by
  rcases h with hplain | ⟨high, low, rfl, -, -, hhigh, hlow⟩
  · exact of_plain hplain
  · exact ((of_plain fun d hd => isPlain_of_isHexDigit (hlow d hd)).escape
      (fun h => absurd h (by decide))).append fun d hd => isPlain_of_isHexDigit (hhigh d hd)

end Copied

/-- The parenthesis of a capturing group stands before anything but a question mark. -/
theorem head?_of_capture {next : Text}
    (h : Word.Fits ⟨['('], .opening (.capture none)⟩ next) : next.head? ≠ some '?' := by
  intro hhead
  obtain ⟨cs, rfl⟩ := List.head?_eq_some_iff.1 hhead
  have hopening : (opening? ('?' :: cs)).map (fun r => (Lexeme.opening r.1, r.2)) =
      some (.opening (.capture none), 0) := h
  obtain ⟨⟨kind, n⟩, hkind, hr⟩ := Option.map_eq_some_iff.1 hopening
  obtain ⟨hkindEq, rfl⟩ := Prod.mk.inj hr
  rcases opening?_form hkind with ⟨-, -, hne⟩ | ⟨name, rfl⟩ | ⟨v, rest, hv, hn, hopens⟩
  · exact hne rfl
  · cases hkindEq
  · cases hn

/-- A firm word before a text where it stands is cut off as a piece for its group or reference, or
as pieces that are copied. -/
theorem Firm.cut {w : Word} {next : Text} (h : Firm w) (hfits : w.Fits next) :
    (w.lexeme = .opening (.capture none) ∧ w.text = ['('] ∧
        pieces (w.text ++ next) false = .capture :: pieces next false) ∨
      (∃ digits, w.lexeme = .decimal digits ∧
        pieces (w.text ++ next) false = .backref (readDigits 10 digits) :: pieces next false) ∨
      (Still w.lexeme ∧ Copied w.text) := by
  cases h with
  | capture => exact .inl ⟨rfl, rfl, pieces_capture (head?_of_capture hfits)⟩
  | number ne_nil isDigit not_zero =>
    obtain ⟨-, -, -, -, hhead⟩ := hfits.of_decimal rfl
    exact .inr (.inl ⟨_, rfl, pieces_number ne_nil isDigit not_zero hhead⟩)
  | plain still first plain => exact .inr (.inr ⟨still, (Copied.of_plain plain).cons first⟩)
  | opens opens =>
    exact .inr (.inr ⟨⟨nofun, fun name h => opens.kind_ne name (Lexeme.opening.inj h)⟩,
      .opens opens.plain⟩)
  | escape still digit trail kept => exact .inr (.inr ⟨still, (Copied.of_trail trail).escape digit⟩)
  | set still closes bare tidy => exact .inr (.inr ⟨still, .set closes⟩)

/-! ## 4. What is written for the pieces -/

/-- A word of a part whose groups follow `prior` others. -/
def Native.Word.shifted (prior : Nat) (w : Word) : Word :=
  match w.lexeme with
  | .decimal digits => numberWord (decimalText (readDigits 10 digits + prior))
  | _ => w

/-- Whether a word opens a capturing group. -/
def Native.Word.captures (w : Word) : Bool :=
  match w.lexeme with
  | .opening (.capture _) => true
  | _ => false

/-- A word with the name of the group that it opens. -/
abbrev NamedWord := Word × Option Text

/-- A word as a union writes it. -/
def NamedWord.text (w : NamedWord) : Text := if w.1.captures then openCapture w.2 else w.1.text

/-- Words as a union writes them one after another. -/
def writeNamed (ws : List NamedWord) : Text := ws.flatMap NamedWord.text

@[simp] theorem writeNamed_nil : writeNamed [] = [] := rfl

@[simp] theorem writeNamed_cons (w : NamedWord) (ws : List NamedWord) :
    writeNamed (w :: ws) = w.text ++ writeNamed ws := rfl

@[simp] theorem writeNamed_append (ws ws' : List NamedWord) :
    writeNamed (ws ++ ws') = writeNamed ws ++ writeNamed ws' := List.flatMap_append

/-- Words with the names of the groups that they open, of which `opened` have opened before. -/
def dub (names : GroupNames) : (opened : Nat) → List Word → List NamedWord
  | _, [] => []
  | opened, w :: ws =>
    if w.captures then (w, (names[opened]?).join) :: dub names (opened + 1) ws
    else (w, none) :: dub names opened ws

theorem renumber_copied (names : GroupNames) (prior opened : Nat) (ps : List Piece) :
    ∀ ts : List Text, renumber names prior opened (ts.map .verbatim ++ ps) =
      (ts.flatten ++ (renumber names prior opened ps).1, (renumber names prior opened ps).2)
  | [] => rfl
  | t :: ts => by
      show (t ++ (renumber names prior opened (ts.map .verbatim ++ ps)).1,
        (renumber names prior opened (ts.map .verbatim ++ ps)).2) = _
      rw [renumber_copied names prior opened ps ts, List.flatten_cons, List.append_assoc]

/-- **What is written for the pieces of a part** are its words, moved and with names. -/
theorem renumber_pieces (names : GroupNames) (prior : Nat) : ∀ {ws : List Word} (opened : Nat),
    Fits ws → (∀ w ∈ ws, Firm w) → renumber names prior opened (pieces (write ws) false) =
      (writeNamed (dub names opened (ws.map (Word.shifted prior))),
        opened + (captureNames (ws.map Word.lexeme)).length)
  | [], _, _, _ => rfl
  | w :: ws, opened, hfits, hfirm => by
      have ih (n : Nat) := renumber_pieces names prior n hfits.2 fun v hv =>
        hfirm v (List.mem_cons_of_mem w hv)
      rw [write_cons]
      rcases (hfirm w List.mem_cons_self).cut hfits.1 with ⟨hl, -, hcut⟩ | ⟨digits, hl, hcut⟩ |
        ⟨hstill, ts, hts, hcut⟩
      · have hshifted : w.shifted prior = w := by simp only [Word.shifted, hl]
        have hcaptures : w.captures = true := by simp only [Word.captures, hl]
        rw [hcut, List.map_cons, List.map_cons, hl, hshifted, dub, if_pos hcaptures]
        show (openCapture _ ++ (renumber names prior (opened + 1) (pieces (write ws) false)).1,
          (renumber names prior (opened + 1) (pieces (write ws) false)).2) = _
        rw [ih, writeNamed_cons, NamedWord.text, if_pos hcaptures]
        refine Prod.ext rfl ?_
        show opened + 1 + (captureNames _).length = opened + ((captureNames _).length + 1)
        omega
      · have hshifted : w.shifted prior = numberWord (decimalText (readDigits 10 digits + prior)) := by
          simp only [Word.shifted, hl]
        rw [hcut, List.map_cons, List.map_cons, hl, hshifted, dub, if_neg (by simp [Word.captures,
          numberWord])]
        show (numberReference _ ++ (renumber names prior opened (pieces (write ws) false)).1,
          (renumber names prior opened (pieces (write ws) false)).2) = _
        rw [ih]
        rfl
      · have hshifted : w.shifted prior = w := by
          unfold Word.shifted
          split
          · rename_i digits hl
            exact absurd hl (hstill.1 digits)
          · rfl
        have hcaptures : w.captures = false := by
          unfold Word.captures
          split
          · rename_i name hl
            exact absurd hl (hstill.2 name)
          · rfl
        have hnames : captureNames (w.lexeme :: ws.map Word.lexeme) =
            captureNames (ws.map Word.lexeme) := by
          rw [captureNames_cons]
          unfold captureNames
          rw [List.filterMap_cons_none, List.filterMap_nil, List.nil_append]
          split
          · rename_i name hl
            exact absurd hl (hstill.2 name)
          · rfl
        rw [hcut, renumber_copied, ih, hts, List.map_cons, List.map_cons, hshifted, dub,
          if_neg (by simp [hcaptures]), hnames, writeNamed_cons, NamedWord.text,
          if_neg (by simp [hcaptures])]

end ExtensibleRegex
