/-!
# Places in a text

A text is its list of code points, and every offset that leaves the library counts the bytes of
its UTF-8 form. This file fixes the two readings once:

* `byteLength` measures a text in bytes, and is additive over concatenation;
* a `Place` is a boundary between two characters: what lies behind it, nearest character first,
  and what lies ahead, together with its index (in characters) and its offset (in bytes). Both
  numbers are tied to the text behind by proof fields, so a place never lies inside a character
  and never outside its text;
* a `Span` is a pair of places, and its text is read off from them.
-/

namespace ExtensibleRegex

/-- A text, as its list of code points. -/
abbrev Text := List Char

/-! ## 1. Lengths in bytes -/

/-- The number of bytes a text takes in UTF-8. -/
def byteLength (t : Text) : Nat := t.foldl (fun n c => n + c.utf8Size) 0

private theorem foldl_size (t : Text) (n : Nat) :
    t.foldl (fun n c => n + c.utf8Size) n = n + byteLength t := by
  induction t generalizing n with
  | nil => simp [byteLength]
  | cons c t ih =>
    have h := ih (0 + c.utf8Size)
    simp only [byteLength, List.foldl_cons] at h ⊢
    rw [ih, h]
    simp only [byteLength]
    omega

@[simp] theorem byteLength_nil : byteLength [] = 0 := rfl

@[simp] theorem byteLength_cons (c : Char) (t : Text) :
    byteLength (c :: t) = c.utf8Size + byteLength t := by
  have h := foldl_size t (0 + c.utf8Size)
  simpa [byteLength] using h

@[simp] theorem byteLength_append (s t : Text) :
    byteLength (s ++ t) = byteLength s + byteLength t := by
  induction s with
  | nil => simp
  | cons c s ih => simp [ih]; omega

@[simp] theorem byteLength_reverse (t : Text) : byteLength t.reverse = byteLength t := by
  induction t with
  | nil => rfl
  | cons c t ih => simp [ih]; omega

/-! ## 2. Places -/

/-- A boundary between two characters of a text. -/
structure Place where
  /-- What lies behind, nearest character first. -/
  behind : Text
  /-- What lies ahead. -/
  ahead : Text
  /-- How many characters lie behind. -/
  index : Nat
  /-- How many bytes lie behind. -/
  offset : Nat
  index_eq : index = behind.length
  offset_eq : offset = byteLength behind
  deriving DecidableEq

namespace Place

/-- The place with the given texts on its two sides. -/
def between (behind ahead : Text) : Place :=
  ⟨behind, ahead, behind.length, byteLength behind, rfl, rfl⟩

/-- The place before the first character. -/
def first (t : Text) : Place := ⟨[], t, 0, 0, rfl, rfl⟩

/-- The whole text a place lies in. -/
def text (p : Place) : Text := p.behind.reverseAux p.ahead

/-- Over the next character, if there is one. -/
def next? : Place → Option (Char × Place)
  | ⟨_, [], _, _, _, _⟩ => none
  | ⟨behind, c :: ahead, i, o, hi, ho⟩ =>
    some (c, ⟨c :: behind, ahead, i + 1, o + c.utf8Size, by simp [hi],
      by simp only [byteLength_cons, ho]; omega⟩)

/-- Back over the previous character, if there is one. -/
def prev? : Place → Option (Char × Place)
  | ⟨[], _, _, _, _, _⟩ => none
  | ⟨c :: behind, ahead, i, o, hi, ho⟩ =>
    some (c, ⟨behind, c :: ahead, i - 1, o - c.utf8Size, by simp [hi],
      by simp only [byteLength_cons] at ho; omega⟩)

/-- The place with the text ahead of it exchanged. -/
def withAhead (p : Place) (ahead : Text) : Place := { p with ahead := ahead }

/-- Over up to `n` characters. -/
def advance : Nat → Place → Place
  | 0, p => p
  | n + 1, p =>
    match p.next? with
    | some (_, q) => advance n q
    | none => p

/-- Whether nothing lies ahead. -/
def atEnd (p : Place) : Bool := p.ahead.isEmpty

@[simp] theorem text_first (t : Text) : (first t).text = t := rfl

theorem text_eq (p : Place) : p.text = p.behind.reverse ++ p.ahead := by
  simp [text, List.reverseAux_eq]

@[simp] theorem text_withAhead (p : Place) (ahead : Text) :
    (p.withAhead ahead).text = p.behind.reverse ++ ahead := text_eq _

theorem next?_eq_none_iff (p : Place) : p.next? = none ↔ p.atEnd = true := by
  rcases p with ⟨behind, _ | ⟨c, ahead⟩, _, _, _, _⟩ <;> simp [next?, atEnd]

/-- A step keeps the text and takes one character over from what lies ahead. -/
theorem next?_eq_some {p q : Place} {c : Char} (h : p.next? = some (c, q)) :
    p.ahead = c :: q.ahead ∧ q.behind = c :: p.behind ∧ q.text = p.text := by
  rcases p with ⟨behind, _ | ⟨d, ahead⟩, _, _, _, _⟩
  · simp [next?] at h
  · simp only [next?, Option.some.injEq, Prod.mk.injEq] at h
    obtain ⟨rfl, rfl⟩ := h
    exact ⟨rfl, rfl, rfl⟩

@[simp] theorem text_advance (n : Nat) (p : Place) : (p.advance n).text = p.text := by
  induction n generalizing p with
  | zero => rfl
  | succ n ih =>
    unfold advance
    split
    · rename_i h
      rw [ih, (next?_eq_some h).2.2]
    · rfl

@[simp] theorem ahead_advance (n : Nat) (p : Place) : (p.advance n).ahead = p.ahead.drop n := by
  induction n generalizing p with
  | zero => rfl
  | succ n ih =>
    unfold advance
    split
    · rename_i h
      rw [ih, (next?_eq_some h).1, List.drop_succ_cons]
    · rename_i h
      have : p.ahead = [] := by simpa [atEnd] using (next?_eq_none_iff p).1 h
      simp [this]

theorem offset_le_byteLength (p : Place) : p.offset ≤ byteLength p.text := by
  rw [text_eq, byteLength_append, byteLength_reverse, p.offset_eq]
  omega

/-- The characters on both sides of the split of `ahead` at the first boundary that is at least
`n` bytes away, or nothing when the text is shorter than that. -/
def splitAtByte : Nat → Text → Text → Option (Text × Text)
  | 0, behind, ahead => some (behind, ahead)
  | _ + 1, _, [] => none
  | n + 1, behind, c :: ahead => splitAtByte (n + 1 - c.utf8Size) (c :: behind) ahead

/-- The place at a byte offset of a text, rounded up to a character boundary. Offsets past the
end of the text have no place. -/
def atOffset? (t : Text) (offset : Nat) : Option Place :=
  (splitAtByte offset [] t).map fun s => between s.1 s.2

end Place

/-! ## 3. Spans -/

/-- A stretch of a text, by its two ends. -/
structure Span where
  start : Place
  stop : Place
  deriving DecidableEq

namespace Span

/-- The text of a span. -/
def text (s : Span) : Text := s.start.ahead.take (s.stop.index - s.start.index)

/-- Whether a span covers no character. -/
def isEmpty (s : Span) : Bool := s.start.index == s.stop.index

/-- The text that a span lies in. -/
def subject (s : Span) : Text := s.start.text

/-- What lies before a span. -/
def before (s : Span) : Text := s.start.behind.reverse

/-- What lies after a span. -/
def after (s : Span) : Text := s.stop.ahead

/-- Where a scan goes on after a span: at its end, and one character further when the span is
empty. After an empty span at the end of the text there is no such place. -/
def resume? (s : Span) : Option Place :=
  if s.isEmpty then s.stop.next?.map Prod.snd else some s.stop

end Span

end ExtensibleRegex
