import ExtensibleRegex.Text.Ascii
import Mathlib.Tactic

/-!
# Texts in bytes

An offset counts the bytes of the UTF-8 form of a text, and a reader that works with offsets can go
wrong in two ways: an offset may lie past the end of the text, and it may lie inside of a character.
Here are the slices that have no result in either case (`sliceFrom?`, `slice?`, `replaceRange?`). They
have one just for the ranges between two boundaries of characters (`isRange_iff`).

A reader may also look at the bytes themselves. A byte below 128 stands for the character with that
number, and no other character has such a byte at its front, so bytes tell as much of ASCII characters
as the characters do (`byteAt_utf8`, `byteRun_utf8`), as long as only such characters have been passed
over (`AsciiFront`).
-/

namespace ExtensibleRegex

/-! ## 1. Slices by offsets -/

/-- A text parted at an offset, unless the offset lies past the end or inside of a character. -/
def cutAt? : Text → (offset : Nat) → Option (Text × Text)
  | t, 0 => some ([], t)
  | [], _ + 1 => none
  | c :: t, n + 1 =>
    if c.utf8Size ≤ n + 1 then
      (cutAt? t (n + 1 - c.utf8Size)).map fun (front, rest) => (c :: front, rest)
    else none

/-- A text in three parts, before, in and after a range of offsets. -/
def cutRange? (t : Text) (start stop : Nat) : Option (Text × Text × Text) := do
  let (front, after) ← cutAt? t stop
  let (before, within) ← cutAt? front start
  return (before, within, after)

/-- What a text holds from an offset on. -/
def sliceFrom? (t : Text) (start : Nat) : Option Text := (cutAt? t start).map Prod.snd

/-- What a text holds in a range of offsets. -/
def slice? (t : Text) (start stop : Nat) : Option Text := (cutRange? t start stop).map (·.2.1)

/-- A text with what it holds in a range of offsets exchanged. -/
def replaceRange? (t : Text) (start stop : Nat) (new : Text) : Option Text :=
  (cutRange? t start stop).map fun (before, _, after) => before ++ new ++ after

/-- A range of offsets lies within a text, and starts and ends on boundaries of characters. -/
def IsRange (t : Text) (start stop : Nat) : Prop :=
  ∃ before within after, t = before ++ within ++ after ∧ byteLength before = start ∧
    byteLength (before ++ within) = stop

theorem cutAt?_append : ∀ front rest : Text,
    cutAt? (front ++ rest) (byteLength front) = some (front, rest)
  | [], [] => rfl
  | [], _ :: _ => rfl
  | c :: front, rest => by
      have hpos := c.utf8Size_pos
      obtain ⟨n, hn⟩ : ∃ n, c.utf8Size + byteLength front = n + 1 :=
        ⟨_, (Nat.succ_pred (by omega)).symm⟩
      have hle : c.utf8Size ≤ n + 1 := by omega
      have hrest : n + 1 - c.utf8Size = byteLength front := by omega
      rw [List.cons_append, byteLength_cons, hn, cutAt?, if_pos hle, hrest, cutAt?_append front rest]
      rfl

theorem eq_append_of_cutAt? : ∀ {t front rest : Text} {n : Nat}, cutAt? t n = some (front, rest) →
    t = front ++ rest ∧ byteLength front = n
  | [], _, _, 0, h => by cases h; exact ⟨rfl, rfl⟩
  | [], _, _, _ + 1, h => nomatch h
  | _ :: _, _, _, 0, h => by cases h; exact ⟨rfl, rfl⟩
  | c :: t, _, _, n + 1, h => by
      rw [cutAt?] at h
      split at h
      · obtain ⟨⟨front, rest⟩, hcut, heq⟩ := Option.map_eq_some_iff.1 h
        cases heq
        obtain ⟨rfl, hlength⟩ := eq_append_of_cutAt? hcut
        exact ⟨rfl, by rw [byteLength_cons]; omega⟩
      · cases h

theorem cutRange?_append (before within after : Text) :
    cutRange? (before ++ within ++ after) (byteLength before) (byteLength (before ++ within)) =
      some (before, within, after) := by
  rw [cutRange?, cutAt?_append]
  show (cutAt? _ _).bind _ = _
  rw [cutAt?_append]
  rfl

theorem eq_append_of_cutRange? {t before within after : Text} {start stop : Nat}
    (h : cutRange? t start stop = some (before, within, after)) :
    t = before ++ within ++ after ∧ byteLength before = start ∧ byteLength (before ++ within) = stop := by
  obtain ⟨⟨front, rest⟩, hstop, h⟩ := Option.bind_eq_some_iff.1 h
  obtain ⟨⟨u, w⟩, hstart, h⟩ := Option.bind_eq_some_iff.1 h
  cases h
  obtain ⟨rfl, hfront⟩ := eq_append_of_cutAt? hstop
  obtain ⟨rfl, hbefore⟩ := eq_append_of_cutAt? hstart
  exact ⟨rfl, hbefore, hfront⟩

/-- **A slice has a result just for the ranges between boundaries of characters.** -/
theorem isRange_iff {t : Text} {start stop : Nat} :
    IsRange t start stop ↔ (slice? t start stop).isSome = true := by
  rw [slice?, Option.isSome_map]
  constructor
  · rintro ⟨before, within, after, rfl, rfl, rfl⟩
    rw [cutRange?_append]
    rfl
  · intro h
    obtain ⟨⟨before, within, after⟩, hcut⟩ := Option.isSome_iff_exists.1 h
    exact ⟨before, within, after, eq_append_of_cutRange? hcut⟩

instance (t : Text) (start stop : Nat) : Decidable (IsRange t start stop) :=
  decidable_of_iff _ isRange_iff.symm

-- the letter takes two bytes
example : IsRange ['a', 'é', 'b'] 1 3 ∧ ¬ IsRange ['a', 'é', 'b'] 1 2 := by decide

/-! ## 2. Bytes -/

/-- The UTF-8 form of a text. -/
def utf8 (t : Text) : List UInt8 := t.flatMap String.utf8EncodeChar

theorem length_utf8 : ∀ t : Text, (utf8 t).length = byteLength t
  | [] => rfl
  | c :: t => by
      have ih := length_utf8 t
      rw [utf8] at ih ⊢
      rw [List.flatMap_cons, List.length_append, String.length_utf8EncodeChar, ih, byteLength_cons]

/-- Whether a byte stands for a character with a property. -/
def byteIs (p : Char → Bool) (b : UInt8) : Bool := b.toNat < 128 && p (Char.ofUInt8 b)

/-- Whether there is a byte with an index and it stands for a character with a property. -/
def byteAt (p : Char → Bool) (bytes : List UInt8) (i : Nat) : Bool := bytes[i]?.any (byteIs p)

/-- How many of the first bytes stand for characters with a property. -/
def byteRun (p : Char → Bool) (bytes : List UInt8) : Nat := (bytes.takeWhile (byteIs p)).length

/-- The bytes from an index on, unless it lies past the end. -/
def bytesFrom? (bytes : List UInt8) (start : Nat) : Option (List UInt8) :=
  if start ≤ bytes.length then some (bytes.drop start) else none

/-- A property of ASCII characters only. -/
def OnlyAscii (p : Char → Bool) : Prop := ∀ c, p c = true → c.toNat < 128

section
variable {p : Char → Bool} {c : Char} {t : Text}

theorem utf8Size_of_lt (h : c.toNat < 128) : c.utf8Size = 1 := by
  rw [Char.utf8Size_eq_one_iff, UInt32.le_iff_toNat_le]
  exact Nat.le_of_lt_succ h

/-- An ASCII character is one byte. -/
theorem utf8_cons_of_lt (h : c.toNat < 128) (t : Text) : utf8 (c :: t) = c.toUInt8 :: utf8 t := by
  rw [utf8, List.flatMap_cons, String.utf8EncodeChar_eq_singleton (utf8Size_of_lt h)]
  rfl

theorem byteIs_toUInt8 (h : c.toNat < 128) : byteIs p c.toUInt8 = p c := by
  have htoNat : c.toUInt8.toNat = c.toNat := by
    show c.toNat % 256 = c.toNat
    omega
  have hchar : Char.ofUInt8 c.toUInt8 = c := by
    apply Char.ext
    apply UInt32.toNat_inj.1
    show c.toUInt8.toUInt32.toNat = c.val.toNat
    rw [UInt8.toNat_toUInt32]
    exact htoNat
  rw [byteIs, htoNat, hchar, decide_eq_true h, Bool.true_and]

/-- Any other character has a first byte that no ASCII character has. -/
theorem exists_utf8_cons_of_le (h : 128 ≤ c.toNat) (t : Text) :
    ∃ b bs, utf8 (c :: t) = b :: bs ∧ ∀ p, byteIs p b = false := by
  have hhigh (n : Nat) (hn : 128 ≤ n) (hn' : n < 256) (p : Char → Bool) :
      byteIs p (UInt8.ofNat n) = false := by
    rw [byteIs, UInt8.toNat_ofNat', Nat.mod_eq_of_lt hn', decide_eq_false (by omega), Bool.false_and]
  have hlow : ¬ c.val.toNat ≤ 127 := by
    have : c.val.toNat = c.toNat := rfl
    omega
  rw [utf8, List.flatMap_cons, String.utf8EncodeChar]
  simp only [if_neg hlow]
  split
  · exact ⟨_, _, rfl, hhigh _ (by omega) (by omega)⟩
  split
  · exact ⟨_, _, rfl, hhigh _ (by omega) (by omega)⟩
  · exact ⟨_, _, rfl, hhigh _ (by omega) (by omega)⟩

/-- The first byte of a text tells whether the text begins with an ASCII character of some kind. -/
theorem byteAt_zero (hp : OnlyAscii p) (t : Text) : byteAt p (utf8 t) 0 = t.head?.any p := by
  cases t with
  | nil => rfl
  | cons c t =>
    by_cases hc : c.toNat < 128
    · rw [utf8_cons_of_lt hc]
      exact byteIs_toUInt8 hc
    · obtain ⟨b, bs, hbytes, hhigh⟩ := exists_utf8_cons_of_le (Nat.le_of_not_lt hc) t
      rw [hbytes]
      show byteIs p b = p c
      rw [hhigh, Bool.eq_false_iff.2 (fun h => hc (hp c h))]

/-- **Bytes tell how long a run of ASCII characters is.** -/
theorem byteRun_utf8 (hp : OnlyAscii p) : ∀ t : Text, byteRun p (utf8 t) = (t.takeWhile p).length
  | [] => rfl
  | c :: t => by
      by_cases hc : c.toNat < 128
      · have ih := byteRun_utf8 hp t
        rw [byteRun] at ih ⊢
        rw [utf8_cons_of_lt hc, List.takeWhile_cons, List.takeWhile_cons, byteIs_toUInt8 hc]
        split
        · rw [List.length_cons, List.length_cons, ih]
        · rfl
      · obtain ⟨b, bs, hbytes, hhigh⟩ := exists_utf8_cons_of_le (Nat.le_of_not_lt hc) t
        have hnot : ¬ p c = true := fun h => hc (hp c h)
        rw [byteRun, hbytes, List.takeWhile_cons_of_neg (by simp [hhigh]), List.takeWhile_cons_of_neg hnot]
        rfl

theorem byteRun_take_utf8 (hp : OnlyAscii p) (most : Nat) (t : Text) :
    byteRun p ((utf8 t).take most) = ((t.take most).takeWhile p).length := by
  have hrun := byteRun_utf8 hp t
  rw [byteRun] at hrun ⊢
  rw [← List.take_takeWhile, ← List.take_takeWhile, List.length_take, List.length_take, hrun]

end

/-! ## 3. Past ASCII characters -/

/-- A text begins with so many ASCII characters. -/
structure AsciiFront (n : Nat) (t : Text) : Prop where
  le_length : n ≤ t.length
  isAscii : ∀ c ∈ t.take n, c.toNat < 128

namespace AsciiFront

variable {p : Char → Bool} {m n : Nat} {t : Text}

theorem zero (t : Text) : AsciiFront 0 t := ⟨Nat.zero_le _, nofun⟩

theorem one {c : Char} (h : c.toNat < 128) (t : Text) : AsciiFront 1 (c :: t) :=
  ⟨Nat.succ_pos _, fun d hd => by rwa [List.mem_singleton.1 hd]⟩

theorem add (h : AsciiFront m t) (h' : AsciiFront n (t.drop m)) : AsciiFront (m + n) t where
  le_length := by
    have hm := h.le_length
    have hn := h'.le_length
    rw [List.length_drop] at hn
    omega
  isAscii c hc := by
    rw [List.take_add, List.mem_append] at hc
    exact hc.elim (h.isAscii c) (h'.isAscii c)

/-- Characters of a run are ASCII characters. -/
theorem of_run (hp : OnlyAscii p) (h : n ≤ (t.takeWhile p).length) : AsciiFront n t where
  le_length := h.trans (List.takeWhile_prefix p).length_le
  isAscii c hc := by
    obtain ⟨rest, hrest⟩ := List.takeWhile_prefix (l := t) p
    have htake : (t.takeWhile p ++ rest).take n = (t.takeWhile p).take n :=
      List.take_append_of_le_length h
    rw [hrest] at htake
    rw [htake] at hc
    exact hp c (List.all_eq_true.1 List.all_takeWhile c (List.mem_of_mem_take hc))

theorem of_head (hp : OnlyAscii p) (h : t.head?.any p = true) : AsciiFront 1 t := by
  cases t with
  | nil => cases h
  | cons c t => exact one (hp c h) t

theorem of_cons {c : Char} (h : AsciiFront (n + 1) (c :: t)) : c.toNat < 128 ∧ AsciiFront n t :=
  ⟨h.isAscii c (by simp), Nat.le_of_succ_le_succ h.le_length,
    fun d hd => h.isAscii d (List.mem_cons_of_mem c hd)⟩

/-- The bytes behind ASCII characters are those of the text behind them. -/
theorem drop_utf8 : ∀ {n : Nat} {t : Text}, AsciiFront n t → (utf8 t).drop n = utf8 (t.drop n)
  | 0, _, _ => rfl
  | _ + 1, [], h => absurd h.le_length (Nat.not_succ_le_zero _)
  | n + 1, c :: t, h => by
      obtain ⟨hc, htail⟩ := h.of_cons
      rw [utf8_cons_of_lt hc, List.drop_succ_cons, List.drop_succ_cons, drop_utf8 htail]

/-- ASCII characters take a byte each. -/
theorem byteLength_take : ∀ {n : Nat} {t : Text}, AsciiFront n t → byteLength (t.take n) = n
  | 0, _, _ => rfl
  | _ + 1, [], h => absurd h.le_length (Nat.not_succ_le_zero _)
  | n + 1, c :: t, h => by
      obtain ⟨hc, htail⟩ := h.of_cons
      rw [List.take_succ_cons, byteLength_cons, utf8Size_of_lt hc, byteLength_take htail, Nat.add_comm]

theorem bytesFrom? (h : AsciiFront n t) : bytesFrom? (utf8 t) n = some (utf8 (t.drop n)) := by
  have hle : n ≤ (utf8 t).length := by
    have hsplit := congrArg byteLength (List.take_append_drop n t)
    rw [byteLength_append, h.byteLength_take] at hsplit
    rw [length_utf8]
    omega
  rw [ExtensibleRegex.bytesFrom?, if_pos hle, h.drop_utf8]

theorem sliceFrom? (h : AsciiFront n t) : sliceFrom? t n = some (t.drop n) := by
  have hcut := cutAt?_append (t.take n) (t.drop n)
  rw [List.take_append_drop, h.byteLength_take] at hcut
  rw [ExtensibleRegex.sliceFrom?, hcut]
  rfl

/-- **Behind ASCII characters, a byte tells of the next character.** -/
theorem byteAt_utf8 (h : AsciiFront n t) (hp : OnlyAscii p) :
    byteAt p (utf8 t) n = (t.drop n).head?.any p := by
  rw [← byteAt_zero hp, ← h.drop_utf8, byteAt, byteAt, List.getElem?_drop, Nat.add_zero]

end AsciiFront

/-! ## 4. Kinds of ASCII characters -/

theorem onlyAscii_eq {c : Char} (h : c.toNat < 128) : OnlyAscii (· == c) := fun d hd => by
  rw [beq_iff_eq] at hd
  rwa [hd]

theorem onlyAscii_range {low high : Char} (h : high.toNat < 128) :
    OnlyAscii fun c => decide (low ≤ c) && decide (c ≤ high) := fun c hc => by
  rw [Bool.and_eq_true, decide_eq_true_eq, decide_eq_true_eq] at hc
  exact Nat.lt_of_le_of_lt (UInt32.le_iff_toNat_le.1 hc.2) h

theorem OnlyAscii.or {p q : Char → Bool} (hp : OnlyAscii p) (hq : OnlyAscii q) :
    OnlyAscii fun c => p c || q c := fun c hc => (Bool.or_eq_true_iff.1 hc).elim (hp c) (hq c)

theorem onlyAscii_isDigit : OnlyAscii Char.isDigit :=
  @onlyAscii_range '0' '9' (by decide)

theorem onlyAscii_isOctalDigit : OnlyAscii isOctalDigit := onlyAscii_range (by decide)

theorem onlyAscii_isHexDigit : OnlyAscii isHexDigit :=
  (onlyAscii_isDigit.or (onlyAscii_range (by decide))).or (onlyAscii_range (by decide))

theorem onlyAscii_isAlpha : OnlyAscii Char.isAlpha := by
  refine OnlyAscii.or (fun c hc => ?_) (@onlyAscii_range 'a' 'z' (by decide))
  exact Nat.lt_of_le_of_lt (UInt32.le_iff_toNat_le.1 (of_decide_eq_true hc).2) (by decide)

end ExtensibleRegex
