import ExtensibleRegex.Native.Engine
import Mathlib.Tactic

/-!
# Lexemes before a continuation

What a lexeme is depends on the text after it: digits make an escape longer, a question mark makes
a quantifier lazy. This file fixes the texts that may be appended to a pattern without changing
how the pattern before them is cut:

* `Inert` says that a text begins with a character that no lexeme looks at (`reachesBack`);
* every reader of lexemes gives the same answer before an inert text, and takes none of it
  (`escape?_append`, `class?_append`, `opening?_append`, `quantifier?_append`, …);
* so a pattern and an inert text are cut one after the other (`lexAll?_append`).
-/

namespace ExtensibleRegex.Native

/-! ## 1. Inert texts -/

/-- Whether the lexeme before a character can look at it. -/
def reachesBack (c : Char) : Bool :=
  isHexDigit c || isOctalDigit c || c.isAlphanum ||
    c ∈ ['_', '{', '}', ',', '?', '<', '>', '=', '!', ':', '-']

/-- A text that the lexeme before it does not look into. -/
def Inert : Text → Prop
  | [] => True
  | c :: t => reachesBack c = false ∧ (c = '\\' → t.head? ≠ some 'u')

instance : DecidablePred Inert
  | [] => inferInstanceAs (Decidable True)
  | _ :: _ => inferInstanceAs (Decidable (_ ∧ (_ → _)))

/-- Characters that are taken while a test holds end before an inert text. -/
theorem takeWhile_append_of_stop (q : Char → Bool) (hq : ∀ c, reachesBack c = false → q c = false)
    (cs : Text) {T : Text} (hT : Inert T) : (cs ++ T).takeWhile q = cs.takeWhile q := by
  induction cs with
  | nil =>
    cases T with
    | nil => rfl
    | cons c t => simp [hq c hT.1]
  | cons c cs ih =>
    simp only [List.cons_append, List.takeWhile_cons, ih]

theorem reachesBack_false {c : Char} (h : reachesBack c = false) :
    isHexDigit c = false ∧ isOctalDigit c = false ∧ c.isAlpha = false ∧ c.isDigit = false ∧
      c ≠ '_' ∧ c ≠ '{' ∧ c ≠ '}' ∧ c ≠ ',' ∧ c ≠ '?' ∧ c ≠ '<' ∧ c ≠ '>' ∧ c ≠ '=' ∧ c ≠ '!' ∧
      c ≠ ':' ∧ c ≠ '-' := by
  simpa [reachesBack, Char.isAlphanum, and_assoc] using h

/-! ## 2. Escapes of a single character -/

theorem fourHex?_append (cs : Text) {T : Text} (hT : Inert T) :
    fourHex? (cs ++ T) = fourHex? cs := by
  cases T with
  | nil => simp
  | cons d t =>
    have hd := (reachesBack_false hT.1).1
    rcases cs with _ | ⟨a, _ | ⟨b, _ | ⟨c, _ | ⟨e, cs⟩⟩⟩⟩
    · rcases t with _ | ⟨a, _ | ⟨b, _ | ⟨c, t⟩⟩⟩ <;> simp [fourHex?, hd]
    · rcases t with _ | ⟨a, _ | ⟨b, t⟩⟩ <;> simp [fourHex?, hd]
    · rcases t with _ | ⟨a, t⟩ <;> simp [fourHex?, hd]
    · simp [fourHex?, hd]
    · simp [fourHex?]

theorem fourHex?_length {cs : Text} {n : Nat} (h : fourHex? cs = some n) : 4 ≤ cs.length := by
  unfold fourHex? at h
  split at h
  · simp
  · simp at h

theorem lowSurrogate?_append (cs : Text) {T : Text} (hT : Inert T) :
    lowSurrogate? (cs ++ T) = lowSurrogate? cs := by
  rcases cs with _ | ⟨c, cs⟩
  · rcases T with _ | ⟨d, t⟩
    · rfl
    · by_cases hd : d = '\\'
      · subst hd
        have h := hT.2 rfl
        rcases t with _ | ⟨e, t⟩
        · rfl
        · have : e ≠ 'u' := by simpa using h
          simp [lowSurrogate?, this]
      · simp [lowSurrogate?, hd]
  · by_cases hc : c = '\\'
    · subst hc
      rcases cs with _ | ⟨e, cs⟩
      · rcases T with _ | ⟨d, t⟩
        · rfl
        · have : d ≠ 'u' := by rintro rfl; exact absurd hT.1 (by decide)
          simp [lowSurrogate?, this]
      · by_cases he : e = 'u'
        · subst he
          simp [lowSurrogate?, fourHex?_append _ hT]
        · simp [lowSurrogate?, he]
    · simp [lowSurrogate?, hc]

/-- A character that a lexeme looks at does not begin an inert text. -/
theorem head?_append_inert {c : Char} (hc : reachesBack c = true) (cs : Text) {T : Text}
    (hT : Inert T) : (cs ++ T).head? = some c ↔ cs.head? = some c := by
  cases cs with
  | nil =>
    cases T with
    | nil => rfl
    | cons d t =>
      have : d ≠ c := by rintro rfl; rw [hT.1] at hc; cases hc
      simp [this]
  | cons d cs => rfl

theorem length_takeWhile_le (q : Char → Bool) (cs : Text) : (cs.takeWhile q).length ≤ cs.length :=
  (List.takeWhile_sublist q).length_le

theorem lt_length_of_head?_drop {cs : Text} {k : Nat} {c : Char}
    (h : (cs.drop k).head? = some c) : k < cs.length := by
  by_contra hk
  rw [List.drop_eq_nil_of_le (by omega)] at h
  cases h

theorem unicodeEscape?_append (strict : Bool) (cs : Text) {T : Text} (hT : Inert T) :
    unicodeEscape? strict (cs ++ T) = unicodeEscape? strict cs := by
  unfold unicodeEscape?
  rw [fourHex?_append cs hT]
  cases h : fourHex? cs with
  | some high =>
    have h4 := fourHex?_length h
    simp only [List.drop_append_of_le_length h4, lowSurrogate?_append _ hT]
  | none =>
    cases strict with
    | false => rfl
    | true =>
      rcases cs with _ | ⟨c, cs⟩
      · rcases T with _ | ⟨d, t⟩
        · rfl
        · have := (reachesBack_false hT.1).2.2.2.2.2.1
          simp [this]
      · by_cases hc : c = '{'
        · subst hc
          have hq : ∀ c, reachesBack c = false → isHexDigit c = false :=
            fun c hc => (reachesBack_false hc).1
          simp only [List.cons_append, takeWhile_append_of_stop _ hq cs hT,
            List.drop_append_of_le_length (length_takeWhile_le _ cs),
            head?_append_inert (c := '}') (by decide) _ hT]
        · simp [hc]

theorem unicodeEscape?_length {strict : Bool} {cs : Text} {r : Nat × Nat}
    (h : unicodeEscape? strict cs = some r) : r.2 ≤ cs.length := by
  unfold unicodeEscape? at h
  split at h
  · rename_i high h4
    have h4 := fourHex?_length h4
    split at h
    · split at h
      · rename_i low hlow
        have : 6 ≤ (cs.drop 4).length := by
          unfold lowSurrogate? at hlow
          split at hlow
          · rename_i rest heq
            split at hlow
            · rename_i h6
              have := fourHex?_length h6
              rw [heq]
              simp only [List.length_cons]
              omega
            · cases hlow
          · cases hlow
        rw [List.length_drop] at this
        simp only [Option.some.injEq] at h
        subst h
        show 10 ≤ cs.length
        omega
      · cases h; exact h4
    · cases h; exact h4
  · split at h
    · split at h
      · rename_i rest
        simp only at h
        split at h
        · rename_i hd
          have := lt_length_of_head?_drop hd.2.1
          cases h
          simp only [List.length_cons]
          omega
        · cases h
      · cases h
    · cases h
      simp

theorem charEscape?_append (strict : Bool) (c : Char) (cs : Text) {T : Text} (hT : Inert T) :
    charEscape? strict c (cs ++ T) = charEscape? strict c cs := by
  unfold charEscape?
  split <;> try rfl
  · rcases cs with _ | ⟨a, _ | ⟨b, cs⟩⟩
    · rcases T with _ | ⟨d, _ | ⟨e, t⟩⟩
      · rfl
      · rfl
      · have := (reachesBack_false hT.1).1
        simp [this]
    · rcases T with _ | ⟨d, t⟩
      · rfl
      · have := (reachesBack_false hT.1).1
        simp [this]
    · rfl
  · exact unicodeEscape?_append strict cs hT

theorem charEscape?_length {strict : Bool} {c : Char} {cs : Text} {r : Nat × Nat}
    (h : charEscape? strict c cs = some r) : r.2 ≤ cs.length := by
  unfold charEscape? at h
  split at h
  case h_7 => exact unicodeEscape?_length h
  case h_6 =>
    split at h
    · split at h
      · cases h; simp
      · split at h <;> cases h; simp
    · split at h <;> cases h; simp
  all_goals first
    | (cases h; simp)
    | (split at h <;> cases h; simp)

/-! ## 3. Sets and numbers -/

theorem propertyEscape?_append {c : Char} {cs : Text} {r : CodeSet × Nat} (T : Text)
    (h : propertyEscape? c cs = some r) :
    propertyEscape? c (cs ++ T) = some r ∧ r.2 ≤ cs.length + 1 := by
  unfold propertyEscape? at h
  split at h
  · rename_i rest
    simp only at h
    split at h
    · rename_i hd
      have hlt := lt_length_of_head?_drop hd
      have htw : (rest ++ T).takeWhile (· != '}') = rest.takeWhile (· != '}') := by
        rw [List.takeWhile_append, if_neg (by omega)]
      have hhead : ((rest ++ T).drop (rest.takeWhile (· != '}')).length).head? = some '}' := by
        rw [List.drop_append_of_le_length (by omega), List.head?_append, hd, Option.some_or]
      simp only [List.cons_append, propertyEscape?, htw, if_pos hhead]
      refine ⟨h, ?_⟩
      obtain ⟨s, _, hs⟩ := Option.map_eq_some_iff.1 h
      subst hs
      simp only [List.length_cons]
      omega
    · cases h
  · cases h

theorem setEscape?_eq_none (strict : Bool) (c : Char) (cs T : Text)
    (h : setEscape? strict c cs = none) : setEscape? strict c (cs ++ T) = none := by
  unfold setEscape? at *
  split at h
  · cases h
  · rename_i hc
    rw [if_neg hc]
    exact h

theorem setEscape?_append {strict : Bool} {c : Char} {cs : Text} {r : CodeSet × Nat} (T : Text)
    (h : setEscape? strict c cs = some (some r)) :
    setEscape? strict c (cs ++ T) = some (some r) ∧ r.2 ≤ cs.length + 1 := by
  unfold setEscape? at *
  split at h
  · rename_i hc
    rw [if_pos hc]
    have := propertyEscape?_append T (Option.some.inj h)
    exact ⟨congrArg some this.1, this.2⟩
  · rename_i hc
    rw [if_neg hc]
    refine ⟨h, ?_⟩
    obtain ⟨s, _, hs⟩ := Option.map_eq_some_iff.1 h
    cases hs
    simp

theorem Inert.take {T : Text} (hT : Inert T) (k : Nat) : Inert (T.take k) := by
  rcases T with _ | ⟨c, _ | ⟨d, t⟩⟩ <;> rcases k with _ | _ | k <;> simp_all [Inert]

theorem octalLength_append (c : Char) (cs : Text) {T : Text} (hT : Inert T) :
    octalLength c (cs ++ T) = octalLength c cs := by
  have hq : ∀ c, reachesBack c = false → isOctalDigit c = false :=
    fun c hc => (reachesBack_false hc).2.1
  have key (most : Nat) : ((cs ++ T).take most).takeWhile isOctalDigit =
      (cs.take most).takeWhile isOctalDigit := by
    rw [List.take_append, takeWhile_append_of_stop _ hq _ (hT.take _)]
  simp only [octalLength, key]

theorem octalLength_le (c : Char) (cs : Text) : octalLength c cs ≤ cs.length + 1 := by
  simp only [octalLength]
  have h1 := length_takeWhile_le isOctalDigit (cs.take (if c.toNat ≤ '3'.toNat then 2 else 1))
  have h2 := List.length_take_le' (if c.toNat ≤ '3'.toNat then 2 else 1) cs
  omega

theorem take_append_octalLength (c : Char) (cs T : Text) :
    (c :: (cs ++ T)).take (octalLength c cs) = (c :: cs).take (octalLength c cs) := by
  rw [← List.cons_append, List.take_append_of_le_length (by simpa using octalLength_le c cs)]

theorem headD_isDigit_append (cs : Text) {T : Text} (hT : Inert T) :
    ((cs ++ T).headD ' ').isDigit = (cs.headD ' ').isDigit := by
  cases cs with
  | nil =>
    cases T with
    | nil => rfl
    | cons d t => simpa using (reachesBack_false hT.1).2.2.2.1
  | cons c cs => rfl

/-! ## 4. Classes -/

theorem classEscape?_append {strict named : Bool} {cs T : Text} {r : ClassAtom × Nat}
    (hT : Inert T) (h : classEscape? strict named cs = some r) :
    classEscape? strict named (cs ++ T) = some r ∧ r.2 ≤ cs.length := by
  cases cs with
  | nil => cases h
  | cons c cs =>
    simp only [classEscape?, List.cons_append] at h ⊢
    cases hs : setEscape? strict c cs with
    | some found =>
      rw [hs] at h
      obtain ⟨s, hf, rfl⟩ := Option.map_eq_some_iff.1 h
      subst hf
      obtain ⟨h1, h2⟩ := setEscape?_append T hs
      rw [h1]
      exact ⟨rfl, h2⟩
    | none =>
      rw [hs] at h
      rw [setEscape?_eq_none strict c cs T hs]
      simp only at h ⊢
      by_cases hb : c = 'b'
      · rw [if_pos hb] at h ⊢
        cases h; simp
      rw [if_neg hb] at h ⊢
      by_cases hdash : (c = '-' && strict) = true
      · rw [if_pos hdash] at h ⊢
        cases h; simp
      rw [if_neg hdash] at h ⊢
      by_cases hc : c = 'c'
      · rw [if_pos hc] at h ⊢
        rcases cs with _ | ⟨l, cs⟩
        · rcases T with _ | ⟨d, t⟩
          · cases strict <;> cases h
            simp
          · obtain ⟨-, -, ha, hdig, hu, -⟩ := reachesBack_false hT.1
            cases strict <;> cases h
            simp [ha, hdig, hu]
        · simp only [List.cons_append] at h ⊢
          split_ifs at h ⊢ <;> cases h <;> simp
      rw [if_neg hc] at h ⊢
      by_cases hk : (c = 'k' && named) = true
      · rw [if_pos hk] at h
        cases h
      rw [if_neg hk] at h ⊢
      by_cases hd : c.isDigit = true
      · rw [if_pos hd] at h ⊢
        cases strict with
        | true =>
          simp only [if_true] at h ⊢
          rw [headD_isDigit_append cs hT]
          refine ⟨h, ?_⟩
          split_ifs at h
          cases h; simp
        | false =>
          simp only [Bool.false_eq_true, if_false] at h ⊢
          rw [octalLength_append c cs hT, take_append_octalLength]
          refine ⟨h, ?_⟩
          split_ifs at h <;> cases h
          · simpa using octalLength_le c cs
          · simp
      · rw [if_neg hd] at h ⊢
        rw [charEscape?_append strict c cs hT]
        refine ⟨h, ?_⟩
        obtain ⟨x, hx, rfl⟩ := Option.map_eq_some_iff.1 h
        have := charEscape?_length hx
        simp only [List.length_cons]
        omega

theorem classAtoms?_append {strict named : Bool} {T : Text} (hT : Inert T) :
    ∀ (skip : Nat) (cs : Text) (taken : Nat) (atoms : List ClassAtom) (r : List ClassAtom × Nat),
      classAtoms? strict named skip cs taken atoms = some r →
      classAtoms? strict named skip (cs ++ T) taken atoms = some r ∧ r.2 ≤ taken + cs.length
  | _, [], _, _, _, h => by simp [classAtoms?] at h
  | skip + 1, c :: cs, taken, atoms, r, h => by
      simp only [classAtoms?, List.cons_append] at h ⊢
      obtain ⟨h1, h2⟩ := classAtoms?_append hT skip cs _ _ r h
      exact ⟨h1, by simp only [List.length_cons]; omega⟩
  | 0, c :: cs, taken, atoms, r, h => by
      simp only [classAtoms?, List.cons_append] at h ⊢
      by_cases hclose : c = ']'
      · rw [if_pos hclose] at h ⊢
        exact ⟨h, by cases h; simp only [List.length_cons]; omega⟩
      · rw [if_neg hclose] at h ⊢
        by_cases hback : c = '\\'
        · rw [if_pos hback] at h ⊢
          cases he : classEscape? strict named cs with
          | none => rw [he] at h; cases h
          | some a =>
            rw [he] at h
            rw [(classEscape?_append hT he).1]
            obtain ⟨h1, h2⟩ := classAtoms?_append hT _ cs _ _ r h
            exact ⟨h1, by simp only [List.length_cons]; omega⟩
        · rw [if_neg hback] at h ⊢
          by_cases hdash : c = '-'
          · rw [if_pos hdash] at h ⊢
            obtain ⟨h1, h2⟩ := classAtoms?_append hT 0 cs _ _ r h
            exact ⟨h1, by simp only [List.length_cons]; omega⟩
          · rw [if_neg hdash] at h ⊢
            obtain ⟨h1, h2⟩ := classAtoms?_append hT 0 cs _ _ r h
            exact ⟨h1, by simp only [List.length_cons]; omega⟩

/-- A class consists of its atoms, behind a caret if it is negated. -/
theorem class?_eq_some_iff {strict named : Bool} {cs : Text} {r : Lexeme × Nat} :
    class? strict named cs = some r ↔ ∃ negated body a sets,
      (negated = false ∧ cs = body ∧ body.head? ≠ some '^' ∨ negated = true ∧ cs = '^' :: body) ∧
      classAtoms? strict named 0 body (if negated then 1 else 0) [] = some a ∧
      assembleClass strict a.1 = some sets ∧ r = (.set negated (.unionOf sets), a.2) := by
  -- what is made of the atoms is the same in both cases
  have hatoms (negated : Bool) (body : Text) (taken : Nat)
      (hcs : class? strict named cs = (classAtoms? strict named 0 body taken []).bind fun a =>
        (assembleClass strict a.1).map fun sets => (.set negated (.unionOf sets), a.2)) :
      class? strict named cs = some r ↔ ∃ a sets, classAtoms? strict named 0 body taken [] = some a ∧
        assembleClass strict a.1 = some sets ∧ r = (.set negated (.unionOf sets), a.2) := by
    rw [hcs]
    simp only [Option.bind_eq_some_iff, Option.map_eq_some_iff]
    constructor
    · rintro ⟨a, ha, sets, hsets, hr⟩
      exact ⟨a, sets, ha, hsets, hr.symm⟩
    · rintro ⟨a, sets, ha, hsets, hr⟩
      exact ⟨a, ha, sets, hsets, hr.symm⟩
  by_cases hneg : cs.head? = some '^'
  · obtain ⟨body, rfl⟩ := List.head?_eq_some_iff.1 hneg
    rw [hatoms true body 1]
    · constructor
      · rintro ⟨a, sets, h⟩
        exact ⟨true, body, a, sets, .inr ⟨rfl, rfl⟩, h⟩
      · rintro ⟨negated, body', a, sets, ⟨rfl, rfl, hhead⟩ | ⟨rfl, heq⟩, h⟩
        · exact absurd hneg hhead
        · cases heq
          exact ⟨a, sets, h⟩
    · simp only [class?, hneg, beq_self_eq_true, if_true, List.drop_succ_cons, List.drop_zero]
      cases classAtoms? strict named 0 body 1 [] <;> rfl
  · rw [hatoms false cs 0]
    · constructor
      · rintro ⟨a, sets, h⟩
        exact ⟨false, cs, a, sets, .inl ⟨rfl, rfl, hneg⟩, h⟩
      · rintro ⟨negated, body, a, sets, ⟨rfl, rfl, -⟩ | ⟨rfl, rfl⟩, h⟩
        · exact ⟨a, sets, h⟩
        · exact absurd rfl hneg
    · simp only [class?, beq_eq_false_iff_ne.2 hneg, Bool.false_eq_true, if_false]
      cases classAtoms? strict named 0 cs 0 [] <;> rfl

/-- A class ends at its bracket, whatever stands after it. -/
theorem class?_append {strict named : Bool} {cs T : Text} {r : Lexeme × Nat} (hT : Inert T)
    (h : class? strict named cs = some r) :
    class? strict named (cs ++ T) = some r ∧ r.2 ≤ cs.length := by
  obtain ⟨negated, body, a, sets, hbody, ha, hsets, rfl⟩ := class?_eq_some_iff.1 h
  obtain ⟨happend, hle⟩ := classAtoms?_append hT _ _ _ _ _ ha
  rw [class?_eq_some_iff]
  rcases hbody with ⟨rfl, rfl, hhead⟩ | ⟨rfl, rfl⟩
  · refine ⟨⟨false, cs ++ T, a, sets, .inl ⟨rfl, rfl, ?_⟩, happend, hsets, rfl⟩, by simpa using hle⟩
    cases cs with
    | nil => simp [classAtoms?] at ha
    | cons c cs => exact hhead
  · exact ⟨⟨true, body ++ T, a, sets, .inr ⟨rfl, rfl⟩, happend, hsets, rfl⟩,
      by simpa [Nat.add_comm] using hle⟩

/-! ## 5. Groups and quantifiers -/

theorem nameChar?_append {c : Char} {cs T : Text} {r : Char × Nat} (hT : Inert T)
    (h : nameChar? c cs = some r) : nameChar? c (cs ++ T) = some r ∧ r.2 ≤ cs.length := by
  unfold nameChar? at h ⊢
  by_cases hc : c = '\\'
  · rw [if_pos hc] at h ⊢
    split at h
    · rename_i rest
      simp only [List.cons_append, unicodeEscape?_append true rest hT]
      refine ⟨h, ?_⟩
      cases hu : unicodeEscape? true rest with
      | none => rw [hu] at h; cases h
      | some x =>
        have := unicodeEscape?_length hu
        rw [hu] at h
        simp only at h
        split at h <;> cases h
        simp only [List.length_cons]
        omega
    · cases h
  · rw [if_neg hc] at h ⊢
    exact ⟨h, by cases h; simp⟩

theorem groupNameFrom?_append {T : Text} (hT : Inert T) :
    ∀ (skip taken : Nat) (name cs : Text) (r : Text × Nat),
      groupNameFrom? skip taken name cs = some r →
      groupNameFrom? skip taken name (cs ++ T) = some r ∧ r.2 ≤ taken + cs.length
  | _, _, _, [], _, h => by simp [groupNameFrom?] at h
  | skip + 1, taken, name, c :: cs, r, h => by
      simp only [groupNameFrom?, List.cons_append] at h ⊢
      obtain ⟨h1, h2⟩ := groupNameFrom?_append hT skip _ _ cs r h
      exact ⟨h1, by simp only [List.length_cons]; omega⟩
  | 0, taken, name, c :: cs, r, h => by
      simp only [groupNameFrom?, List.cons_append] at h ⊢
      by_cases hclose : c = '>'
      · rw [if_pos hclose] at h ⊢
        refine ⟨h, ?_⟩
        split at h <;> cases h
        simp only [List.length_cons]
        omega
      · rw [if_neg hclose] at h ⊢
        cases hn : nameChar? c cs with
        | none => rw [hn] at h; cases h
        | some x =>
          rw [hn] at h
          rw [(nameChar?_append hT hn).1]
          simp only at h ⊢
          by_cases hid : (if name.isEmpty = true then startsIdentifier x.1
              else extendsIdentifier x.1) = true
          · rw [if_pos hid] at h ⊢
            obtain ⟨h1, h2⟩ := groupNameFrom?_append hT _ _ _ cs r h
            exact ⟨h1, by simp only [List.length_cons]; omega⟩
          · rw [if_neg hid] at h
            cases h

theorem groupName?_append {cs T : Text} {r : Text × Nat} (hT : Inert T)
    (h : groupName? cs = some r) : groupName? (cs ++ T) = some r ∧ r.2 ≤ cs.length := by
  have := groupNameFrom?_append hT 0 0 [] cs r h
  exact ⟨this.1, by simpa using this.2⟩

theorem modifiers?_append {cs T : Text} {r : Opening × Nat} (hT : Inert T)
    (h : modifiers? cs = some r) : modifiers? (cs ++ T) = some r ∧ r.2 ≤ cs.length := by
  have hq : ∀ c, reachesBack c = false → (c == 'i' || c == 'm' || c == 's') = false := by
    intro c hc
    have hi : c ≠ 'i' := by rintro rfl; exact absurd hc (by decide)
    have hm : c ≠ 'm' := by rintro rfl; exact absurd hc (by decide)
    have hs : c ≠ 's' := by rintro rfl; exact absurd hc (by decide)
    simp [hi, hm, hs]
  have hle := length_takeWhile_le (fun c => c == 'i' || c == 'm' || c == 's') cs
  simp only [modifiers?, takeWhile_append_of_stop _ hq cs hT,
    List.drop_append_of_le_length hle] at h ⊢
  generalize hadd : cs.takeWhile (fun c => c == 'i' || c == 'm' || c == 's') = add at *
  cases hd : cs.drop add.length with
  | nil => rw [hd] at h; cases h
  | cons d rest =>
    have hlen : cs.length = add.length + (rest.length + 1) := by
      have := congrArg List.length hd
      simp only [List.length_drop, List.length_cons] at this
      omega
    rw [hd] at h
    simp only [List.cons_append]
    by_cases hcol : d = ':'
    · subst hcol
      refine ⟨h, ?_⟩
      simp only at h
      split at h <;> cases h
      simp only
      omega
    · by_cases hdash : d = '-'
      · subst hdash
        have hle' := length_takeWhile_le (fun c => c == 'i' || c == 'm' || c == 's') rest
        simp only [takeWhile_append_of_stop _ hq rest hT, List.drop_append_of_le_length hle',
          head?_append_inert (c := ':') (by decide) _ hT] at h ⊢
        refine ⟨h, ?_⟩
        split at h
        · rename_i hcond
          have := lt_length_of_head?_drop hcond.1
          cases h
          simp only [List.length_append]
          omega
        · cases h
      · simp [hcol, hdash] at h

/-- What a parenthesis opens is the same before an inert text. -/
theorem opening?_append {cs T : Text} {r : Opening × Nat} (hT : Inert T)
    (h : opening? cs = some r) : opening? (cs ++ T) = some r ∧ r.2 ≤ cs.length := by
  unfold opening? at h
  split at h
  · cases h
    exact ⟨rfl, by simp⟩
  · cases h
    exact ⟨rfl, by simp⟩
  · cases h
    exact ⟨rfl, by simp⟩
  · cases h
    exact ⟨rfl, by simp⟩
  · -- a name: what follows the angle bracket is neither `=` nor `!`
    rename_i rest hlook hlookNot
    obtain ⟨x, hx, rfl⟩ := Option.map_eq_some_iff.1 h
    obtain ⟨h1, h2⟩ := groupName?_append hT hx
    rcases rest with _ | ⟨e, rest⟩
    · cases hx
    · have he : e ≠ '=' := fun he => hlook rest (by rw [he])
      have he' : e ≠ '!' := fun he => hlookNot rest (by rw [he])
      rw [List.cons_append] at h1
      refine ⟨by simp [opening?, he, he', h1], ?_⟩
      simp only [List.length_cons] at h2 ⊢
      omega
  · -- modifiers: they begin with none of `=`, `!` and `<`
    rename_i rest heq hnot _ _ hless
    obtain ⟨x, hx, rfl⟩ := Option.map_eq_some_iff.1 h
    obtain ⟨h1, h2⟩ := modifiers?_append hT hx
    rcases rest with _ | ⟨e, rest⟩
    · cases hx
    · have he : e ≠ '=' := fun he => heq rest (by rw [he])
      have he' : e ≠ '!' := fun he => hnot rest (by rw [he])
      have he'' : e ≠ '<' := fun he => hless rest (by rw [he])
      rw [List.cons_append] at h1
      refine ⟨by simp [opening?, he, he', he'', h1], ?_⟩
      simp only [List.length_cons] at h2 ⊢
      omega
  · rename_i hquestion
    cases h
    rcases cs with _ | ⟨c, cs⟩
    · rcases T with _ | ⟨d, t⟩
      · exact ⟨rfl, Nat.le_refl 0⟩
      · have hd : d ≠ '?' := by rintro rfl; exact absurd hT.1 (by decide)
        simp [opening?, hd]
    · have hc : c ≠ '?' := fun hc => hquestion cs (by rw [hc])
      simp [opening?, hc]

theorem bracedBounds?_append (cs : Text) {T : Text} (hT : Inert T) :
    bracedBounds? (cs ++ T) = bracedBounds? cs := by
  have hq : ∀ c, reachesBack c = false → c.isDigit = false :=
    fun c hc => (reachesBack_false hc).2.2.2.1
  have hle := length_takeWhile_le Char.isDigit cs
  simp only [bracedBounds?, takeWhile_append_of_stop _ hq cs hT,
    List.drop_append_of_le_length hle]
  by_cases hlow : cs.takeWhile Char.isDigit = []
  · simp only [hlow, if_true]
  · simp only [hlow, if_false]
    cases hd : cs.drop (cs.takeWhile Char.isDigit).length with
    | nil =>
      rcases T with _ | ⟨d, t⟩
      · rfl
      · have hd := (reachesBack_false hT.1).2.2.2.2.2.2
        simp [hd.1, hd.2.1]
    | cons d rest =>
      by_cases hcomma : d = ','
      · subst hcomma
        have hle' := length_takeWhile_le Char.isDigit rest
        simp only [List.cons_append, takeWhile_append_of_stop _ hq rest hT,
          List.drop_append_of_le_length hle', head?_append_inert (c := '}') (by decide) _ hT]
      · by_cases hclose : d = '}'
        · subst hclose; rfl
        · simp [hcomma, hclose]

theorem bracedBounds?_length {cs : Text} {r : Nat × Option Nat × Nat}
    (h : bracedBounds? cs = some r) : r.2.2 ≤ cs.length := by
  unfold bracedBounds? at h
  simp only at h
  split at h
  · cases h
  · split at h
    · rename_i rest hd
      have := congrArg List.length hd
      cases h
      simp only [List.length_drop, List.length_cons] at this
      simp only
      omega
    · rename_i rest hd
      have := congrArg List.length hd
      simp only [List.length_drop, List.length_cons] at this
      split at h
      · rename_i hh
        have := lt_length_of_head?_drop hh
        cases h
        simp only
        omega
      · cases h
    · cases h

theorem quantifier?_append {min : Nat} {max : Option Nat} {cs T : Text} {n : Nat}
    {r : Lexeme × Nat} (hT : Inert T) (hn : n ≤ cs.length) (h : quantifier? min max cs n = some r) :
    quantifier? min max (cs ++ T) n = some r ∧ r.2 ≤ cs.length := by
  simp only [quantifier?, List.drop_append_of_le_length hn,
    head?_append_inert (c := '?') (by decide) _ hT] at h ⊢
  refine ⟨h, ?_⟩
  split at h
  · split at h
    · rename_i hh
      have := lt_length_of_head?_drop hh
      cases h
      exact this
    · cases h
      exact hn
  · cases h

/-! ## 6. Whole lexemes -/

/-- The lexeme after a backslash is the same before an inert text. -/
theorem escape?_append {strict named : Bool} {cs T : Text} {r : Lexeme × Nat}
    (hT : Inert T) (h : escape? strict named cs = some r) :
    escape? strict named (cs ++ T) = some r ∧ r.2 ≤ cs.length := by
  cases cs with
  | nil => cases h
  | cons c cs =>
    simp only [escape?, List.cons_append] at h ⊢
    cases hs : setEscape? strict c cs with
    | some found =>
      rw [hs] at h
      obtain ⟨s, hf, rfl⟩ := Option.map_eq_some_iff.1 h
      subst hf
      obtain ⟨h1, h2⟩ := setEscape?_append T hs
      rw [h1]
      exact ⟨rfl, h2⟩
    | none =>
      rw [hs] at h
      rw [setEscape?_eq_none strict c cs T hs]
      simp only at h ⊢
      by_cases hb : c = 'b'
      · rw [if_pos hb] at h ⊢
        cases h; simp
      rw [if_neg hb] at h ⊢
      by_cases hB : c = 'B'
      · rw [if_pos hB] at h ⊢
        cases h; simp
      rw [if_neg hB] at h ⊢
      by_cases hc : c = 'c'
      · rw [if_pos hc] at h ⊢
        rcases cs with _ | ⟨l, cs⟩
        · rcases T with _ | ⟨d, t⟩
          · cases strict <;> cases h
            simp
          · obtain ⟨-, -, ha, -⟩ := reachesBack_false hT.1
            cases strict <;> cases h
            simp [ha]
        · simp only [List.cons_append] at h ⊢
          split_ifs at h ⊢ <;> cases h <;> simp
      rw [if_neg hc] at h ⊢
      by_cases hk : (c = 'k' && (named || strict)) = true
      · rw [if_pos hk] at h ⊢
        split at h
        · rename_i rest
          obtain ⟨x, hx, rfl⟩ := Option.map_eq_some_iff.1 h
          obtain ⟨h1, h2⟩ := groupName?_append hT hx
          refine ⟨by simp [h1], ?_⟩
          simp only [List.length_cons]
          omega
        · cases h
      rw [if_neg hk] at h ⊢
      by_cases h0 : c = '0'
      · rw [if_pos h0] at h ⊢
        cases strict with
        | true =>
          simp only [if_true] at h ⊢
          rw [headD_isDigit_append cs hT]
          refine ⟨h, ?_⟩
          split_ifs at h
          cases h; simp
        | false =>
          simp only [Bool.false_eq_true, if_false] at h ⊢
          rw [octalLength_append c cs hT, take_append_octalLength]
          refine ⟨h, ?_⟩
          cases h
          simpa using octalLength_le c cs
      rw [if_neg h0] at h ⊢
      by_cases hd : c.isDigit = true
      · have hq : ∀ c, reachesBack c = false → c.isDigit = false :=
          fun c hc => (reachesBack_false hc).2.2.2.1
        rw [if_pos hd] at h ⊢
        rw [takeWhile_append_of_stop _ hq cs hT]
        refine ⟨h, ?_⟩
        have := length_takeWhile_le Char.isDigit cs
        cases h
        simp only [List.length_cons]
        omega
      · rw [if_neg hd] at h ⊢
        rw [charEscape?_append strict c cs hT]
        refine ⟨h, ?_⟩
        obtain ⟨x, hx, rfl⟩ := Option.map_eq_some_iff.1 h
        have := charEscape?_length hx
        simp only [List.length_cons]
        omega

/-- A lexeme is the same before an inert text, and takes none of it. -/
theorem lexeme?_append {strict named : Bool} {c : Char} {cs T : Text} {r : Lexeme × Nat}
    (hT : Inert T) (h : lexeme? strict named c cs = some r) :
    lexeme? strict named c (cs ++ T) = some r ∧ r.2 ≤ cs.length := by
  unfold lexeme? at h ⊢
  split at h
  · cases h; simp
  · cases h; simp
  · cases h; simp
  · cases h; simp
  · cases h; simp
  · obtain ⟨x, hx, rfl⟩ := Option.map_eq_some_iff.1 h
    obtain ⟨h1, h2⟩ := opening?_append hT hx
    exact ⟨by simp [h1], h2⟩
  · exact class?_append hT h
  · exact quantifier?_append hT (Nat.zero_le _) h
  · exact quantifier?_append hT (Nat.zero_le _) h
  · exact quantifier?_append hT (Nat.zero_le _) h
  · simp only [bracedBounds?_append cs hT]
    cases hb : bracedBounds? cs with
    | none =>
      rw [hb] at h
      refine ⟨h, ?_⟩
      simp only at h
      split at h <;> cases h
      simp
    | some x =>
      rw [hb] at h
      exact quantifier?_append hT (bracedBounds?_length hb) h
  · refine ⟨h, ?_⟩
    split at h <;> cases h
    simp
  · refine ⟨h, ?_⟩
    split at h <;> cases h
    simp
  · exact escape?_append hT h
  · cases h; simp

/-- **A pattern before an inert text is cut as it is on its own**, and the inert text is cut after
it. -/
theorem lexAll?_append {strict named : Bool} {T : Text} (hT : Inert T) :
    ∀ (skip : Nat) (cs : Text) (read ls : List Lexeme), skip ≤ cs.length →
      lexAll? strict named skip cs read = some ls →
      lexAll? strict named skip (cs ++ T) read = lexAll? strict named 0 T ls.reverse
  | 0, [], read, ls, _, h => by
      cases h
      rw [List.nil_append, List.reverse_reverse]
  | skip + 1, [], _, _, hle, _ => absurd hle (Nat.not_succ_le_zero skip)
  | skip + 1, _ :: cs, read, ls, hle, h =>
      lexAll?_append hT skip cs read ls (Nat.le_of_succ_le_succ hle) h
  | 0, c :: cs, read, ls, _, h => by
      simp only [lexAll?, List.cons_append] at h ⊢
      cases hl : lexeme? strict named c cs with
      | none => rw [hl] at h; cases h
      | some r =>
        rw [hl] at h
        obtain ⟨h1, h2⟩ := lexeme?_append hT hl
        rw [h1]
        exact lexAll?_append hT r.2 cs (r.1 :: read) ls h2 h

end ExtensibleRegex.Native
