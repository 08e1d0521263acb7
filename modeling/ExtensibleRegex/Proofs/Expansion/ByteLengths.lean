import ExtensibleRegex.Proofs.Text.Bytes
import ExtensibleRegex.Proofs.Expansion.Groups
import Mathlib.Tactic

/-!
# Native tokens in bytes

What no token takes is copied, one native token after another (`verbatimLength`). This file measures the
native token that a text begins with on the bytes of the text, by the rules of the same grammar: runs of
octal, decimal and hexadecimal digits, braces and openers of groups are read off bytes, and each look
ahead is a slice that may fail.

No slice fails, and the result is the length in bytes of the characters that the grammar takes
(`nativeBytes?_eq`). All but the last character of a native token are ASCII characters, and the last one
is measured as a character where the grammar has no word for it.
-/

namespace ExtensibleRegex

/-! ## 1. Measuring -/

/-- The number of bytes of the character that a text begins with, if there is one. -/
def firstBytes (atEnd : Nat) (rest : Text) : Nat := (rest.head?.map Char.utf8Size).getD atEnd

/-- How many of `most` bytes from an index on are octal digits. -/
def octalRun? (bytes : List UInt8) (start most : Nat) : Option Nat :=
  (bytesFrom? bytes start).map fun rest => byteRun isOctalDigit (rest.take most)

/-- The length of what a backslash escapes, if that begins with a letter or with no ASCII character. -/
def letterBytes? (body : Text) : Option Nat :=
  let bytes := utf8 body
  if byteAt (· == 'x') bytes 0 then do
    let digits ← (bytesFrom? bytes 1).map (byteRun isHexDigit)
    return if 2 ≤ digits then 3 else firstBytes 0 body
  else if byteAt (· == 'u') bytes 0 then do
    let digits ← (bytesFrom? bytes 1).map (byteRun isHexDigit)
    if 4 ≤ digits then return 5
    else if byteAt (· == '\x7b') bytes 1 then
      let digits ← (bytesFrom? bytes 2).map (byteRun isHexDigit)
      return if 0 < digits && byteAt (· == '\x7d') bytes (2 + digits) then 3 + digits else 1
    else return firstBytes 0 body
  else if byteAt (· == 'c') bytes 0 && byteAt Char.isAlpha bytes 1 then some 2
  else some (firstBytes 0 body)

/-- The length up to the end of an octal number that begins at an index. It has at most three digits, and
at most two when the first one is above three. -/
def octalBytes? (bytes : List UInt8) (i : Nat) (other : Option Nat) : Option Nat :=
  if byteAt (fun c => '0' ≤ c && c ≤ '3') bytes i then (octalRun? bytes (i + 1) 2).map (i + 1 + ·)
  else if byteAt (fun c => '4' ≤ c && c ≤ '7') bytes i then (octalRun? bytes (i + 1) 1).map (i + 1 + ·)
  else other

/-- The length of what a backslash escapes. -/
def escapeBytes? (scope : Scope) (body : Text) : Option Nat :=
  let bytes := utf8 body
  if bytes = [] then some 0
  else
    match scope with
    | .pattern =>
      if byteAt (· == '0') bytes 0 then octalBytes? bytes 1 (some 1)
      else if byteAt (fun c => '1' ≤ c && c ≤ '9') bytes 0 then
        (bytesFrom? bytes 1).map fun rest => 1 + byteRun Char.isDigit rest
      else letterBytes? body
    | .charClass => octalBytes? bytes 0 (letterBytes? body)

/-- The length of a quantifier in braces, if a text begins with one. -/
def bracedBytes? (rest : Text) : Option (Option Nat) :=
  let bytes := utf8 rest
  if byteAt (· == '\x7b') bytes 0 then do
    let low ← (bytesFrom? bytes 1).map (byteRun Char.isDigit)
    if low = 0 then return none
    else
      let i := 1 + low
      if byteAt (· == ',') bytes i then
        let high ← (bytesFrom? bytes (i + 1)).map (byteRun Char.isDigit)
        return if byteAt (· == '\x7d') bytes (i + 1 + high) then some (i + 1 + high + 1) else none
      else return if byteAt (· == '\x7d') bytes i then some (i + 1) else none
  else some none

/-- The length of a quantifier with the question mark behind it, or of the character that a text begins
with. -/
def quantifierBytes? (rest : Text) : Option Nat :=
  let bytes := utf8 rest
  if byteAt (fun c => c == '?' || c == '*' || c == '+') bytes 0 && byteAt (· == '?') bytes 1 then some 2
  else if byteAt (· == '\x7b') bytes 0 then
    (bracedBytes? rest).map fun
      | some n => if byteAt (· == '?') bytes n then n + 1 else n
      | none => 1
  else some (firstBytes 1 rest)

/-- The length of what a parenthesis at the start of a text opens a group with. -/
def openerBytes (rest : Text) : Nat :=
  if ['(', '?', '<', '='].isPrefixOf rest || ['(', '?', '<', '!'].isPrefixOf rest then 4
  else if ['(', '?', ':'].isPrefixOf rest || ['(', '?', '='].isPrefixOf rest ||
    ['(', '?', '!'].isPrefixOf rest then 3
  else 1

/-- The length of the native token at an offset of a pattern. -/
def nativeBytes? (scope : Scope) (pattern : Text) (pos : Nat) : Option Nat := do
  let rest ← sliceFrom? pattern pos
  let bytes := utf8 rest
  if byteAt (· == '\\') bytes 0 then
    let body ← sliceFrom? rest 1
    (escapeBytes? scope body).map (1 + ·)
  else
    match scope with
    | .charClass => return firstBytes 1 rest
    | .pattern => if byteAt (· == '(') bytes 0 then return openerBytes rest else quantifierBytes? rest

/-! ## 2. Escapes -/

theorem firstBytes_cons (atEnd : Nat) (c : Char) (cs : Text) :
    firstBytes atEnd (c :: cs) = byteLength ((c :: cs).take 1) := by
  rw [List.take_succ_cons, List.take_zero, byteLength_cons, byteLength_nil]
  rfl

/-- A run behind ASCII characters is read off bytes. -/
theorem AsciiFront.byteRun? {p : Char → Bool} {n : Nat} {t : Text} (h : AsciiFront n t) (hp : OnlyAscii p) :
    (ExtensibleRegex.bytesFrom? (utf8 t) n).map (byteRun p) = some ((t.drop n).takeWhile p).length := by
  rw [h.bytesFrom?, Option.map_some, byteRun_utf8 hp]

/-- Behind ASCII characters, a byte tells whether a certain one comes next. -/
theorem AsciiFront.byteAt_eq {n : Nat} {t : Text} {d : Char} (h : AsciiFront n t) (hd : d.toNat < 128) :
    byteAt (· == d) (utf8 t) n = ((t.drop n).head? == some d) := by
  rw [h.byteAt_utf8 (onlyAscii_eq hd)]
  cases t.drop n <;> rfl

theorem AsciiFront.succ {n : Nat} {t : Text} {d : Char} (h : AsciiFront n t) (hd : d.toNat < 128)
    (hnext : (t.drop n).head? = some d) : AsciiFront (n + 1) t :=
  h.add (.of_head (onlyAscii_eq hd) (by rw [hnext]; exact beq_self_eq_true d))

theorem AsciiFront.octalRun? {n : Nat} {t : Text} (h : AsciiFront n t) (most : Nat) :
    ExtensibleRegex.octalRun? (utf8 t) n most = some (leadingOctalDigits most (t.drop n)) := by
  rw [ExtensibleRegex.octalRun?, h.bytesFrom?, Option.map_some, byteRun_take_utf8 onlyAscii_isOctalDigit]
  rfl

/-- One ASCII character, and so many of a run behind it. -/
theorem AsciiFront.cons_run {p : Char → Bool} {n : Nat} {c : Char} {cs : Text} (hc : c.toNat < 128)
    (hp : OnlyAscii p) (h : n ≤ (cs.takeWhile p).length) : AsciiFront (1 + n) (c :: cs) :=
  .add (.one hc cs) (.of_run hp h)

theorem byteAt_cons {d : Char} (hd : d.toNat < 128) (c : Char) (cs : Text) :
    byteAt (· == d) (utf8 (c :: cs)) 0 = (c == d) := byteAt_zero (onlyAscii_eq hd) _

/-- A code point in hexadecimal is measured on bytes. -/
theorem letterBytes?_u (cs : Text) :
    letterBytes? ('u' :: cs) = some (byteLength (('u' :: cs).take (escapeLength.letterLength 'u' cs))) := by
  have hu : 'u'.toNat < 128 := by decide
  have hfront : AsciiFront 1 ('u' :: cs) := .one hu cs
  have hdigits : ((('u' :: cs).drop 1).takeWhile isHexDigit).length = leadingHexDigits cs := rfl
  have hopens : byteAt (· == '\x7b') (utf8 ('u' :: cs)) 1 = (cs.head? == some '\x7b') :=
    hfront.byteAt_eq (by decide)
  unfold letterBytes?
  simp only [byteAt_cons (d := 'x') (by decide), byteAt_cons hu, hfront.byteRun? onlyAscii_isHexDigit,
    hdigits, hopens]
  rw [if_neg (by decide), if_pos (by decide)]
  show (if _ then _ else _) = _
  by_cases hfour : 4 ≤ leadingHexDigits cs
  · have hlength : escapeLength.letterLength 'u' cs = 5 := by
      simp [escapeLength.letterLength, hfour]
    have htake : AsciiFront 5 ('u' :: cs) := .cons_run hu onlyAscii_isHexDigit hfour
    rw [if_pos hfour, hlength, htake.byteLength_take]
    rfl
  rw [if_neg hfour]
  by_cases hopen : cs.head? = some '\x7b'
  · obtain ⟨rest, rfl⟩ := List.head?_eq_some_iff.1 hopen
    have htwo : AsciiFront 2 ('u' :: '\x7b' :: rest) := hfront.succ (d := '\x7b') (by decide) rfl
    have hall : AsciiFront (2 + leadingHexDigits rest) ('u' :: '\x7b' :: rest) :=
      .add htwo (.of_run onlyAscii_isHexDigit (Nat.le_refl _))
    have hdrop : ('u' :: '\x7b' :: rest).drop (2 + leadingHexDigits rest) =
        rest.drop (leadingHexDigits rest) := by
      rw [Nat.add_comm]
      rfl
    have hlength : escapeLength.letterLength 'u' ('\x7b' :: rest) =
        if decide (leadingHexDigits rest > 0) && (rest.drop (leadingHexDigits rest)).head? == some '\x7d' then
          3 + leadingHexDigits rest else 1 := rfl
    rw [if_pos (beq_iff_eq.2 hopen), htwo.byteRun? onlyAscii_isHexDigit, hlength]
    show some (if (decide (0 < leadingHexDigits rest) && byteAt _ _ (2 + leadingHexDigits rest)) = true then
      3 + leadingHexDigits rest else 1) = _
    rw [hall.byteAt_eq (by decide), hdrop]
    split
    · rename_i hclosed
      have hbrace := beq_iff_eq.1 (Bool.and_eq_true_iff.1 hclosed).2
      have hsum : 3 + leadingHexDigits rest = 2 + leadingHexDigits rest + 1 := by omega
      rw [hsum, (hall.succ (d := '\x7d') (by decide) (hdrop ▸ hbrace)).byteLength_take]
    · rfl
  · have hlength : escapeLength.letterLength 'u' cs = 1 := by
      unfold escapeLength.letterLength
      rw [if_neg (by simp), if_neg (by simpa using hfour), if_pos rfl]
      split
      · exact absurd rfl hopen
      · rfl
    rw [if_neg (by simpa using hopen), hlength]
    rfl

/-- **An escape that begins with no digit is measured on bytes.** -/
theorem letterBytes?_eq (c : Char) (cs : Text) :
    letterBytes? (c :: cs) = some (byteLength ((c :: cs).take (escapeLength.letterLength c cs))) := by
  have hone := firstBytes_cons 0 c cs
  by_cases hu : c = 'u'
  · subst hu
    exact letterBytes?_u cs
  have hnotu : ¬ (c == 'u') = true := by simpa using hu
  unfold letterBytes?
  simp only [byteAt_cons (d := 'x') (by decide), byteAt_cons (d := 'u') (by decide),
    byteAt_cons (d := 'c') (by decide)]
  by_cases hx : c = 'x'
  · subst hx
    have hfront : AsciiFront 1 ('x' :: cs) := .one (by decide) cs
    rw [if_pos (beq_self_eq_true 'x'), hfront.byteRun? onlyAscii_isHexDigit]
    show some (if 2 ≤ leadingHexDigits cs then _ else _) = _
    split
    · rename_i hdigits
      have hlength : escapeLength.letterLength 'x' cs = 3 := by simp [escapeLength.letterLength, hdigits]
      have htake : AsciiFront 3 ('x' :: cs) := .cons_run (by decide) onlyAscii_isHexDigit hdigits
      rw [hlength, htake.byteLength_take]
    · rename_i hdigits
      have hlength : escapeLength.letterLength 'x' cs = 1 := by simp [escapeLength.letterLength, hdigits]
      rw [hlength, hone]
  rw [if_neg (by simpa using hx), if_neg hnotu]
  by_cases hc : c = 'c'
  · subst hc
    have hfront : AsciiFront 1 ('c' :: cs) := .one (by decide) cs
    have hletter : byteAt Char.isAlpha (utf8 ('c' :: cs)) 1 = cs.head?.any Char.isAlpha :=
      hfront.byteAt_utf8 onlyAscii_isAlpha
    have hlength : escapeLength.letterLength 'c' cs = if cs.head?.any Char.isAlpha then 2 else 1 := by
      simp [escapeLength.letterLength]
    rw [hletter, hlength, beq_self_eq_true, Bool.true_and]
    split
    · rename_i halpha
      have htake : AsciiFront (1 + 1) ('c' :: cs) := hfront.add (.of_head onlyAscii_isAlpha halpha)
      rw [htake.byteLength_take]
    · rw [hone]
  · have hlength : escapeLength.letterLength c cs = 1 := by simp [escapeLength.letterLength, hx, hu, hc]
    rw [if_neg (by simp [hc]), hlength, hone]

theorem between_iff (low high d : Char) :
    (decide (low ≤ d) && decide (d ≤ high)) = true ↔ low.toNat ≤ d.toNat ∧ d.toNat ≤ high.toNat := by
  rw [Bool.and_eq_true, decide_eq_true_eq, decide_eq_true_eq]
  exact and_congr UInt32.le_iff_toNat_le UInt32.le_iff_toNat_le

/-- **A number of octal digits is measured on bytes**: there is one at an index, or there is none. -/
theorem octalBytes?_cases {n : Nat} {t : Text} (h : AsciiFront n t) (other : Option Nat) :
    (∃ d ds, t.drop n = d :: ds ∧ isOctalDigit d = true ∧
      let most := if d.toNat ≤ '3'.toNat then 2 else 1
      octalBytes? (utf8 t) n other = some (n + 1 + leadingOctalDigits most ds) ∧
      AsciiFront (n + 1 + leadingOctalDigits most ds) t) ∨
    (∀ d ∈ (t.drop n).head?, isOctalDigit d = false) ∧ octalBytes? (utf8 t) n other = other := by
  unfold octalBytes?
  rw [h.byteAt_utf8 (onlyAscii_range (by decide)), h.byteAt_utf8 (onlyAscii_range (by decide))]
  cases hdrop : t.drop n with
  | nil => exact .inr ⟨nofun, rfl⟩
  | cons d ds =>
    have hdigit := between_iff '0' '7' d
    have hlow : Option.any (fun c => decide ('0' ≤ c) && decide (c ≤ '3')) (d :: ds).head? = true ↔ _ :=
      between_iff '0' '3' d
    have hhigh : Option.any (fun c => decide ('4' ≤ c) && decide (c ≤ '7')) (d :: ds).head? = true ↔ _ :=
      between_iff '4' '7' d
    have hthree : '3'.toNat + 1 = '4'.toNat := rfl
    have hzero : '0'.toNat ≤ '3'.toNat ∧ '3'.toNat ≤ '7'.toNat := by decide
    by_cases hoctal : isOctalDigit d = true
    · have hbounds := hdigit.1 hoctal
      have hnext : AsciiFront (n + 1) t :=
        h.add (.of_head onlyAscii_isOctalDigit (by rw [hdrop]; exact hoctal))
      have hds : t.drop (n + 1) = ds := by rw [← List.drop_drop, hdrop]; rfl
      have hrun (most : Nat) : AsciiFront (n + 1 + leadingOctalDigits most ds) t :=
        hnext.add (.of_run onlyAscii_isOctalDigit (hds ▸ leadingOctalDigits_le most ds))
      refine .inl ⟨d, ds, rfl, hoctal, ?_, hrun _⟩
      rw [hnext.octalRun?, hnext.octalRun?, hds]
      by_cases hsmall : d.toNat ≤ '3'.toNat
      · rw [if_pos (hlow.2 ⟨hbounds.1, hsmall⟩), if_pos hsmall]
        rfl
      · rw [if_neg (fun hc => hsmall (hlow.1 hc).2), if_pos (hhigh.2 ⟨by omega, hbounds.2⟩), if_neg hsmall]
        rfl
    · refine .inr ⟨fun e he => ?_, ?_⟩
      · cases he
        exact Bool.eq_false_iff.2 hoctal
      · have hnot := mt hdigit.2 hoctal
        rw [if_neg (fun hc => hnot ⟨(hlow.1 hc).1, by have := (hlow.1 hc).2; omega⟩),
          if_neg (fun hc => hnot ⟨by have := (hhigh.1 hc).1; omega, (hhigh.1 hc).2⟩)]

/-- **An escape is measured on bytes.** -/
theorem escapeBytes?_eq (scope : Scope) (body : Text) :
    escapeBytes? scope body = some (byteLength (body.take (escapeLength scope body))) := by
  cases body with
  | nil => rfl
  | cons c cs =>
    have hne : utf8 (c :: cs) ≠ [] := by
      intro hnil
      have hlength := congrArg List.length hnil
      have hpos := c.utf8Size_pos
      rw [length_utf8, byteLength_cons, List.length_nil] at hlength
      omega
    unfold escapeBytes? escapeLength
    simp only [if_neg hne]
    cases scope with
    | charClass =>
      rcases octalBytes?_cases (.zero (c :: cs)) (letterBytes? (c :: cs)) with
        ⟨d, ds, hdrop, hoctal, heq, hfront⟩ | ⟨hnone, heq⟩
      · cases hdrop
        rw [heq]
        simp only [if_pos hoctal]
        rw [hfront.byteLength_take]
      · have hnot := hnone c rfl
        rw [heq, letterBytes?_eq]
        simp [hnot]
    | pattern =>
      have hnumber : byteAt (fun c => '1' ≤ c && c ≤ '9') (utf8 (c :: cs)) 0 =
          (decide ('1' ≤ c) && decide (c ≤ '9')) := byteAt_zero (onlyAscii_range (by decide)) _
      simp only [byteAt_cons (d := '0') (by decide), hnumber, beq_iff_eq]
      by_cases hzero : c = '0'
      · subst hzero
        have hfront : AsciiFront 1 ('0' :: cs) := .one (by decide) cs
        rw [if_pos rfl, if_pos rfl]
        rcases octalBytes?_cases hfront (some 1) with
          ⟨d, ds, hdrop, hoctal, heq, hall⟩ | ⟨hnone, heq⟩
        · obtain rfl : cs = d :: ds := hdrop
          simp only [if_pos hoctal]
          rw [heq, hall.byteLength_take]
        · rw [heq]
          cases cs with
          | nil => rfl
          | cons d ds =>
            have hnot := hnone d rfl
            simp only [hnot, Bool.false_eq_true, if_false]
            rfl
      · rw [if_neg hzero, if_neg hzero]
        have hdigit : c.isDigit = true ↔ (decide ('1' ≤ c) && decide (c ≤ '9')) = true := by
          have hall : c.isDigit = true ↔ _ := between_iff '0' '9' c
          have hne : c.toNat ≠ '0'.toNat := fun h => hzero (Char.ext (UInt32.toNat_inj.1 h))
          have hone : '1'.toNat = '0'.toNat + 1 := rfl
          rw [hall, between_iff]
          omega
        by_cases hd : c.isDigit = true
        · have hfront : AsciiFront 1 (c :: cs) := .of_head onlyAscii_isDigit hd
          have htake : AsciiFront (1 + (cs.takeWhile Char.isDigit).length) (c :: cs) :=
            hfront.add (.of_run onlyAscii_isDigit (Nat.le_refl _))
          rw [if_pos hd, if_pos (hdigit.1 hd), htake.byteLength_take, hfront.bytesFrom?, Option.map_some,
            byteRun_utf8 onlyAscii_isDigit]
          rfl
        · rw [if_neg hd, if_neg (mt hdigit.2 hd)]
          exact letterBytes?_eq c cs

/-! ## 3. Quantifiers in braces -/

/-- The length of a quantifier in braces by what comes next behind its lower bound. -/
theorem bracedLength?_cons (cs : Text) : bracedLength? ('\x7b' :: cs) =
    let low := (cs.takeWhile Char.isDigit).length
    let rest := cs.drop low
    let high := ((rest.drop 1).takeWhile Char.isDigit).length
    if low = 0 then none
    else if rest.head? = some ',' then
      if ((rest.drop 1).drop high).head? = some '\x7d' then some (1 + low + 1 + high + 1) else none
    else if rest.head? = some '\x7d' then some (1 + low + 1) else none := by
  simp only [bracedLength?, Native.bracedBounds?, List.length_eq_zero_iff]
  generalize cs.takeWhile Char.isDigit = low
  by_cases hnil : low = []
  · rw [if_pos hnil, if_pos hnil]
    rfl
  rw [if_neg hnil, if_neg hnil]
  cases cs.drop low.length with
  | nil => rfl
  | cons d ds =>
    by_cases hcomma : d = ','
    · subst hcomma
      simp only [List.drop_succ_cons, List.drop_zero, List.head?_cons, if_true]
      split
      · refine congrArg some ?_
        show low.length + (ds.takeWhile Char.isDigit).length + 2 + 1 = _
        omega
      · rfl
    by_cases hclose : d = '\x7d'
    · subst hclose
      simp
      omega
    · simp [hcomma, hclose]

/-- **A quantifier in braces is measured on bytes**, and all of it is ASCII characters. -/
theorem bracedBytes?_eq (t : Text) :
    bracedBytes? t = some (bracedLength? t) ∧ ∀ n, bracedLength? t = some n → AsciiFront n t := by
  cases t with
  | nil => exact ⟨rfl, nofun⟩
  | cons c cs =>
    by_cases hopen : c = '\x7b'
    · subst hopen
      have hfront : AsciiFront 1 ('\x7b' :: cs) := .one (by decide) cs
      rw [bracedLength?_cons, bracedBytes?, byteAt_cons (by decide), if_pos (beq_self_eq_true _),
        hfront.byteRun? onlyAscii_isDigit]
      have hlow : AsciiFront (1 + (cs.takeWhile Char.isDigit).length) ('\x7b' :: cs) :=
        hfront.add (.of_run onlyAscii_isDigit (Nat.le_refl _))
      have hrest : ('\x7b' :: cs).drop (1 + (cs.takeWhile Char.isDigit).length) =
          cs.drop (cs.takeWhile Char.isDigit).length := by
        rw [Nat.add_comm]
        rfl
      simp only [Option.bind_eq_bind, Option.bind_some, Option.pure_def, List.drop_succ_cons, List.drop_zero,
        hlow.byteAt_eq (d := ',') (by decide), hlow.byteAt_eq (d := '\x7d') (by decide), hrest, beq_iff_eq]
      generalize (cs.takeWhile Char.isDigit).length = low at *
      by_cases hzero : low = 0
      · rw [if_pos hzero, if_pos hzero]
        exact ⟨rfl, nofun⟩
      rw [if_neg hzero, if_neg hzero]
      by_cases hcomma : (cs.drop low).head? = some ','
      · rw [if_pos hcomma, if_pos hcomma]
        -- the digits of the upper bound
        have hopened : AsciiFront (1 + low + 1) ('\x7b' :: cs) :=
          hlow.succ (d := ',') (by decide) (hrest ▸ hcomma)
        have hmore : ('\x7b' :: cs).drop (1 + low + 1) = (cs.drop low).drop 1 := by
          rw [← List.drop_drop, hrest]
        rw [hopened.byteRun? onlyAscii_isDigit, hmore, Option.bind_some]
        have hhigh : AsciiFront (1 + low + 1 + (((cs.drop low).drop 1).takeWhile Char.isDigit).length)
            ('\x7b' :: cs) := hopened.add (.of_run onlyAscii_isDigit (by rw [hmore]))
        rw [hhigh.byteAt_eq (by decide), ← List.drop_drop, hmore]
        refine ⟨by simp only [beq_iff_eq], fun n hn => ?_⟩
        split at hn
        · rename_i hclose
          cases hn
          exact hhigh.succ (d := '\x7d') (by decide) (by rw [← List.drop_drop, hmore, hclose])
        · cases hn
      · rw [if_neg hcomma, if_neg hcomma]
        refine ⟨rfl, fun n hn => ?_⟩
        split at hn
        · rename_i hclose
          cases hn
          exact hlow.succ (d := '\x7d') (by decide) (hrest ▸ hclose)
        · cases hn
    · have hnone : bracedLength? (c :: cs) = none := by
        unfold bracedLength?
        split
        · rename_i heq
          cases heq
          exact absurd rfl hopen
        · rfl
      rw [hnone, bracedBytes?, byteAt_cons (by decide), if_neg (by simpa using hopen)]
      exact ⟨rfl, nofun⟩

/-! ## 4. Native tokens -/

theorem AsciiFront.of_isPrefixOf {w t : Text} (hw : (w.all fun c => decide (c.toNat < 128)) = true)
    (h : w.isPrefixOf t = true) : AsciiFront w.length t := by
  obtain ⟨rest, rfl⟩ := List.isPrefixOf_iff_prefix.1 h
  refine ⟨by simp, fun c hc => ?_⟩
  rw [List.take_left] at hc
  exact of_decide_eq_true (List.all_eq_true.1 hw c hc)

/-- **The opener of a group is measured.** -/
theorem openerBytes_eq (cs : Text) :
    openerBytes ('(' :: cs) = byteLength (('(' :: cs).take (verbatimLength .pattern ('(' :: cs))) := by
  have hlength : verbatimLength .pattern ('(' :: cs) = openerBytes ('(' :: cs) := by
    unfold verbatimLength
    split
    · rename_i heq
      cases heq
    · rename_i heq
      cases heq
    rename_i heq
    cases heq
    rw [if_pos rfl]
    dsimp only
    split
    · rfl
    · rfl
    · rfl
    · rfl
    · rfl
    · rename_i h1 h2 h3 h4 h5
      have hno (w : Text) (h : ∀ tail, cs ≠ w ++ tail) : ('(' :: w).isPrefixOf ('(' :: cs) = false := by
        rw [Bool.eq_false_iff, Ne, List.isPrefixOf_iff_prefix, List.cons_prefix_cons]
        rintro ⟨-, tail, htail⟩
        exact h tail htail.symm
      simp only [openerBytes, hno ['?', '<', '='] h1, hno ['?', '<', '!'] h2, hno ['?', ':'] h3,
        hno ['?', '='] h4, hno ['?', '!'] h5]
      rfl
  have hfront : AsciiFront (openerBytes ('(' :: cs)) ('(' :: cs) := by
    unfold openerBytes
    split
    · rename_i hlook
      exact (Bool.or_eq_true_iff.1 hlook).elim (.of_isPrefixOf rfl) (.of_isPrefixOf rfl)
    split
    · rename_i hquiet
      exact (Bool.or_eq_true_iff.1 hquiet).elim (fun h => (Bool.or_eq_true_iff.1 h).elim
        (.of_isPrefixOf rfl) (.of_isPrefixOf rfl)) (.of_isPrefixOf rfl)
    · exact .one (by decide) cs
  rw [hlength, hfront.byteLength_take]

/-- **A quantifier is measured on bytes.** -/
theorem quantifierBytes?_eq {c : Char} (hback : c ≠ '\\') (hparen : c ≠ '(') (cs : Text) :
    quantifierBytes? (c :: cs) =
      some (byteLength ((c :: cs).take (verbatimLength .pattern (c :: cs)))) := by
  have hone := firstBytes_cons 1 c cs
  have hascii : OnlyAscii fun c => c == '?' || c == '*' || c == '+' :=
    ((onlyAscii_eq (by decide)).or (onlyAscii_eq (by decide))).or (onlyAscii_eq (by decide))
  have hsign : byteAt (fun c => c == '?' || c == '*' || c == '+') (utf8 (c :: cs)) 0 =
      (c == '?' || c == '*' || c == '+') := byteAt_zero hascii _
  rw [quantifierBytes?, hsign]
  simp only [byteAt_cons (d := '\x7b') (by decide), beq_iff_eq]
  by_cases hshort : (c == '?' || c == '*' || c == '+') = true
  · have hfront : AsciiFront 1 (c :: cs) := .one (hascii c hshort) cs
    have hnot : c ≠ '\x7b' := by
      rintro rfl
      simp at hshort
    have hlength : verbatimLength .pattern (c :: cs) = if cs.head? = some '?' then 2 else 1 := by
      simp only [Bool.or_eq_true, beq_iff_eq] at hshort
      simp [verbatimLength, hparen, hshort]
    rw [hshort, Bool.true_and, hfront.byteAt_eq (by decide), if_neg hnot, hlength, List.drop_succ_cons,
      List.drop_zero]
    by_cases hlazy : cs.head? = some '?'
    · have htwo : AsciiFront 2 (c :: cs) := hfront.succ (d := '?') (by decide) hlazy
      rw [if_pos (beq_iff_eq.2 hlazy), if_pos hlazy, htwo.byteLength_take]
    · rw [if_neg (mt beq_iff_eq.1 hlazy), if_neg hlazy, hone]
  rw [Bool.eq_false_iff.2 hshort, Bool.false_and, if_neg Bool.false_ne_true]
  by_cases hopen : c = '\x7b'
  · subst hopen
    obtain ⟨hbytes, hfront⟩ := bracedBytes?_eq ('\x7b' :: cs)
    have hlength : verbatimLength .pattern ('\x7b' :: cs) =
        match bracedLength? ('\x7b' :: cs) with
        | some n => if (('\x7b' :: cs).drop n).head? == some '?' then n + 1 else n
        | none => 1 := rfl
    rw [if_pos rfl, hbytes, hlength]
    cases hbraces : bracedLength? ('\x7b' :: cs) with
    | none => rfl
    | some n =>
      have hn := hfront n hbraces
      simp only [Option.map_some, hn.byteAt_eq (d := '?') (by decide)]
      split
      · rename_i hlazy
        rw [(hn.succ (d := '?') (by decide) (beq_iff_eq.1 hlazy)).byteLength_take]
      · rw [hn.byteLength_take]
  · have hlength : verbatimLength .pattern (c :: cs) = 1 := by
      simp only [Bool.or_eq_true, beq_iff_eq] at hshort
      simp [verbatimLength, hparen, hshort, hopen]
    rw [if_neg hopen, hlength, hone]

/-- **A native token is measured on bytes**, and no slice fails. -/
theorem nativeBytes?_eq (scope : Scope) (before : Text) (c : Char) (cs : Text) :
    nativeBytes? scope (before ++ c :: cs) (byteLength before) =
      some (byteLength ((c :: cs).take (verbatimLength scope (c :: cs)))) := by
  have hrest : sliceFrom? (before ++ c :: cs) (byteLength before) = some (c :: cs) := by
    rw [sliceFrom?, cutAt?_append]
    rfl
  rw [nativeBytes?, hrest]
  simp only [Option.bind_eq_bind, Option.bind_some, Option.pure_def]
  by_cases hback : c = '\\'
  · subst hback
    have hfront : AsciiFront 1 ('\\' :: cs) := .one (by decide) cs
    have hbody : sliceFrom? ('\\' :: cs) 1 = some cs := hfront.sliceFrom?
    rw [byteAt_cons (by decide), if_pos (beq_self_eq_true _), hbody, Option.bind_some, escapeBytes?_eq,
      Option.map_some, verbatimLength, Nat.add_comm 1 (escapeLength scope cs), List.take_succ_cons,
      byteLength_cons]
    rfl
  rw [byteAt_cons (by decide), if_neg (by simpa using hback)]
  cases scope with
  | charClass =>
    have hlength : verbatimLength .charClass (c :: cs) = 1 := by simp [verbatimLength]
    rw [hlength, ← firstBytes_cons 1]
  | pattern =>
    simp only [byteAt_cons (d := '(') (by decide), beq_iff_eq]
    split
    · rename_i hparen
      subst hparen
      rw [openerBytes_eq]
    · rename_i hparen
      exact quantifierBytes?_eq hback hparen cs

-- an escaped letter of two bytes, behind another one
example : nativeBytes? .pattern ['ü', '\\', 'é', '+'] 2 = some 3 := by decide

end ExtensibleRegex
