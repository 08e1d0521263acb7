import ExtensibleRegex.Error

/-!
# Flags

A flag is one character. Five of them are native (`g i m u y`); a dialect may know more. A flag
text lists flags without repeats, and a pattern may open with a mode modifier `(?flags)`, which is
folded into the flag text before anything else is read.
-/

namespace ExtensibleRegex

/-! ## 1. Native flags -/

/-- The flags that the engine itself understands. -/
structure Mode where
  ignoreCase : Bool := false
  multiline : Bool := false
  unicode : Bool := false
  deriving DecidableEq, Repr, Inhabited

/-- The native flags of a pattern. -/
structure NativeFlags where
  global : Bool := false
  ignoreCase : Bool := false
  multiline : Bool := false
  unicode : Bool := false
  sticky : Bool := false
  deriving DecidableEq, Repr, Inhabited

namespace NativeFlags

/-- The native flags among the flags of a text. -/
def ofText (flags : Text) : NativeFlags where
  global := flags.contains 'g'
  ignoreCase := flags.contains 'i'
  multiline := flags.contains 'm'
  unicode := flags.contains 'u'
  sticky := flags.contains 'y'

/-- The flags as a text, in the order `gimuy`. -/
def toText (f : NativeFlags) : Text :=
  (if f.global then ['g'] else []) ++ (if f.ignoreCase then ['i'] else []) ++
    (if f.multiline then ['m'] else []) ++ (if f.unicode then ['u'] else []) ++
    (if f.sticky then ['y'] else [])

/-- The flags as a number, `g` the lowest bit and `y` the highest. -/
def bits (f : NativeFlags) : Nat :=
  f.global.toNat + 2 * f.ignoreCase.toNat + 4 * f.multiline.toNat + 8 * f.unicode.toNat +
    16 * f.sticky.toNat

/-- The part of the flags that the engine sees. -/
def mode (f : NativeFlags) : Mode := ⟨f.ignoreCase, f.multiline, f.unicode⟩

theorem ofText_toText (f : NativeFlags) : ofText f.toText = f := by
  rcases f with ⟨g, i, m, u, y⟩
  cases g <;> cases i <;> cases m <;> cases u <;> cases y <;> rfl

end NativeFlags

/-! ## 2. Flag texts -/

/-- A flag text with each flag kept at its last place only. -/
def keepLastFlags : Text → Text
  | [] => []
  | c :: flags => if flags.contains c then keepLastFlags flags else c :: keepLastFlags flags

theorem mem_keepLastFlags (c : Char) (flags : Text) : c ∈ keepLastFlags flags ↔ c ∈ flags := by
  induction flags with
  | nil => rfl
  | cons d flags ih =>
    unfold keepLastFlags
    split
    · rename_i h
      have : d ∈ flags := by simpa using h
      grind
    · simp [ih]

theorem nodup_keepLastFlags (flags : Text) : (keepLastFlags flags).Nodup := by
  induction flags with
  | nil => exact .nil
  | cons d flags ih =>
    unfold keepLastFlags
    split
    · exact ih
    · rename_i h
      exact List.nodup_cons.2 ⟨fun hm => h (by simpa [mem_keepLastFlags] using hm), ih⟩

/-- The first flag that occurs again later, if there is one. -/
def repeatedFlag? : Text → Option Char
  | [] => none
  | c :: flags => if flags.contains c then some c else repeatedFlag? flags

theorem repeatedFlag?_eq_none_iff {flags : Text} : repeatedFlag? flags = none ↔ flags.Nodup := by
  induction flags with
  | nil => exact ⟨fun _ => .nil, fun _ => rfl⟩
  | cons c flags ih =>
    rw [List.nodup_cons, ← ih, repeatedFlag?, List.contains_eq_mem]
    by_cases h : c ∈ flags
    · simp [h]
    · simp [h]

/-- A flag text in the order of code points. -/
def orderFlags (flags : Text) : Text := flags.mergeSort (fun a b => a.toNat ≤ b.toNat)

/-- The flags of a mode modifier that a pattern opens with, and the pattern after it. -/
def modeModifier? : Text → Option (Text × Text)
  | '(' :: '?' :: rest =>
    match rest.takeWhile isNameChar, rest.dropWhile isNameChar with
    | c :: flags, ')' :: body => some (c :: flags, body)
    | _, _ => none
  | _ => none

/-! ## 3. Known flags -/

/-- The flags that a dialect knows, each once and in the order of code points. -/
structure KnownFlags where
  known : Text
  ordered : known.Pairwise fun a b => a.toNat < b.toNat
  deriving DecidableEq, Repr

namespace KnownFlags

/-- Adds a character to an ordered list of characters. -/
def insertOrdered (c : Char) : Text → Text
  | [] => [c]
  | d :: known =>
    if c = d then d :: known
    else if c.toNat < d.toNat then c :: d :: known
    else d :: insertOrdered c known

theorem mem_insertOrdered (c d : Char) (known : Text) :
    d ∈ insertOrdered c known ↔ d = c ∨ d ∈ known := by
  induction known with
  | nil => simp [insertOrdered]
  | cons k known ih =>
    unfold insertOrdered
    split
    · rename_i h; subst h; simp
    · split
      · simp
      · simp only [List.mem_cons, ih]
        constructor
        · rintro (h | h | h) <;> simp [h]
        · rintro (h | h | h) <;> simp [h]

theorem pairwise_insertOrdered (c : Char) (known : Text)
    (h : known.Pairwise fun a b => a.toNat < b.toNat) :
    (insertOrdered c known).Pairwise fun a b => a.toNat < b.toNat := by
  induction known with
  | nil => simp [insertOrdered]
  | cons d known ih =>
    have hd := List.pairwise_cons.1 h
    unfold insertOrdered
    split
    · exact h
    · rename_i hne
      split
      · rename_i hlt
        refine List.pairwise_cons.2 ⟨fun x hx => ?_, h⟩
        rcases List.mem_cons.1 hx with rfl | hx
        · exact hlt
        · exact Nat.lt_trans hlt (hd.1 x hx)
      · rename_i hle
        refine List.pairwise_cons.2 ⟨fun x hx => ?_, ih hd.2⟩
        rcases (mem_insertOrdered c x known).1 hx with rfl | hx
        · have : x.toNat ≠ d.toNat := fun e => hne (Char.toNat_inj.1 e)
          omega
        · exact hd.1 x hx

/-- The native flags only. -/
def native : KnownFlags := ⟨['g', 'i', 'm', 'u', 'y'], by decide⟩

/-- Whether a flag is known. -/
def knows (k : KnownFlags) (flag : Char) : Bool := k.known.contains flag

/-- Makes a flag known. -/
def insert (k : KnownFlags) (flag : Char) : KnownFlags :=
  ⟨insertOrdered flag k.known, pairwise_insertOrdered flag k.known k.ordered⟩

theorem knows_insert (k : KnownFlags) (c d : Char) :
    (k.insert c).knows d = (d == c || k.knows d) := by
  rw [Bool.eq_iff_iff]
  simp [knows, insert, mem_insertOrdered]

/-- The flag that a text names: a single character of `[A-Za-z0-9_$]`. -/
def singleFlag : Text → Except Error Char
  | [c] => if isNameChar c then .ok c else .error (.invalidFlag [c])
  | flag => .error (.invalidFlag flag)

/-- Makes the flag that a text names known, and tells whether it is new. -/
def register (k : KnownFlags) (flag : Text) : Except Error (Bool × KnownFlags) := do
  let c ← singleFlag flag
  return (!k.knows c, k.insert c)

/-- Refuses a flag text with a flag that is not known. -/
def refuseUnknown (k : KnownFlags) (flags : Text) : Except Error Unit :=
  match flags.find? (fun c => !k.knows c) with
  | some c => .error (.unknownFlag c)
  | none => .ok ()

/-- Refuses a flag text with a repeated flag. -/
def refuseRepeats (flags : Text) : Except Error Unit :=
  match repeatedFlag? flags with
  | some _ => .error (.duplicateFlag flags)
  | none => .ok ()

/-- Accepts a flag text that repeats no flag and has known flags only. -/
def validate (k : KnownFlags) (flags : Text) : Except Error Unit := do
  refuseRepeats flags
  k.refuseUnknown flags

end KnownFlags

/-! ## 4. Preparing a pattern -/

/-- A pattern and its flags once a mode modifier has been folded in. -/
structure Prepared where
  pattern : Text
  flags : Text
  deriving DecidableEq, Repr

/-- Checks the flags of a pattern and folds a leading mode modifier into them. -/
def KnownFlags.prepare (k : KnownFlags) (pattern flags : Text) : Except Error Prepared := do
  refuseRepeats flags
  match modeModifier? pattern with
  | none =>
    k.refuseUnknown flags
    return ⟨pattern, flags⟩
  | some (modifier, body) =>
    if modifier.contains 'g' || modifier.contains 'y' then
      throw (.reservedFlag (['(', '?'] ++ modifier ++ [')']))
    let merged := keepLastFlags (flags ++ modifier)
    k.refuseUnknown merged
    return ⟨body, merged⟩

end ExtensibleRegex
