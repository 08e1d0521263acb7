import ExtensibleRegex.Proofs.Native.Landmarks
import Mathlib.Tactic

/-!
# Cutting at landmarks

`lexAll?_append` says that a pattern before an inert text is cut as it is on its own. Here is the
other way round: a lexeme that ends before an inert text is read without that text as well
(`lexeme?_of_append`). Since no lexeme holds a landmark but at its start, a well-formed text can be
cut at every landmark (`lexAll?_split`).
-/

namespace ExtensibleRegex.Native

variable {strict named : Bool}

/-! ## 1. Escapes -/

/-- Characters that are taken while a test holds, and that end within the first of two texts. -/
theorem takeWhile_append_of_lt {q : Char → Bool} {cs T : Text}
    (h : ((cs ++ T).takeWhile q).length < cs.length) :
    (cs ++ T).takeWhile q = cs.takeWhile q := by
  rw [List.takeWhile_append] at h ⊢
  split at h
  · rw [List.length_append] at h
    omega
  · rename_i hshort
    rw [if_neg hshort]

theorem propertyEscape?_of_append {c : Char} {cs T : Text} {r : CodeSet × Nat}
    (h : propertyEscape? c (cs ++ T) = some r) (hr : r.2 ≤ cs.length + 1) :
    propertyEscape? c cs = some r := by
  cases cs with
  | nil =>
    unfold propertyEscape? at h
    split at h
    · simp only at h
      split at h
      · obtain ⟨s, -, rfl⟩ := Option.map_eq_some_iff.1 h
        simp at hr
      · cases h
    · cases h
  | cons d cs =>
    by_cases hd : d = '\x7b'
    · subst hd
      simp only [propertyEscape?, List.cons_append] at h ⊢
      have hshort : ((cs ++ T).takeWhile (· != '\x7d')).length < cs.length := by
        split at h
        · obtain ⟨s, -, rfl⟩ := Option.map_eq_some_iff.1 h
          simp only [List.length_cons] at hr
          omega
        · cases h
      have hsame := takeWhile_append_of_lt hshort
      rw [hsame] at hshort h
      rw [List.drop_append_of_le_length (by omega)] at h
      have hne : cs.drop (cs.takeWhile (· != '\x7d')).length ≠ [] := by
        rw [Ne, List.drop_eq_nil_iff]
        omega
      rw [List.head?_append_of_ne_nil _ hne] at h
      exact h
    · simp [propertyEscape?, hd] at h

theorem setEscape?_of_append {c : Char} {cs T : Text} {r : CodeSet × Nat}
    (h : setEscape? strict c (cs ++ T) = some (some r)) (hr : r.2 ≤ cs.length + 1) :
    setEscape? strict c cs = some (some r) := by
  unfold setEscape? at *
  split at h
  · rename_i hc
    rw [if_pos hc, propertyEscape?_of_append (Option.some.inj h) hr]
  · rename_i hc
    rw [if_neg hc]
    exact h

theorem setEscape?_of_none {c : Char} {cs T : Text} (h : setEscape? strict c (cs ++ T) = none) :
    setEscape? strict c cs = none := by
  unfold setEscape? at *
  split at h
  · cases h
  · rename_i hc
    rw [if_neg hc]
    exact h

theorem not_alphanum_of_inert {d : Char} {t : Text} (hT : Inert (d :: t)) :
    d.isAlpha = false ∧ d.isDigit = false ∧ d ≠ '_' ∧ d ≠ 'c' := by
  obtain ⟨-, -, ha, hd, h_, -⟩ := reachesBack_false hT.1
  refine ⟨ha, hd, h_, ?_⟩
  rintro rfl
  cases ha

/-- What an escape in a class takes, but for the two characters of a control escape. -/
theorem classEscape?_pos {d : Char} {t : Text} {r : ClassAtom × Nat} (hd : d ≠ 'c')
    (h : classEscape? strict named (d :: t) = some r) : 0 < r.2 := by
  simp only [classEscape?] at h
  split at h
  · rename_i found hset
    obtain ⟨s, hs, rfl⟩ := Option.map_eq_some_iff.1 h
    subst hs
    unfold setEscape? at hset
    split at hset
    · have hproperty := Option.some.inj hset
      unfold propertyEscape? at hproperty
      split at hproperty
      · simp only at hproperty
        split at hproperty
        · obtain ⟨x, -, rfl⟩ := Option.map_eq_some_iff.1 hproperty
          exact Nat.succ_pos _
        · cases hproperty
      · cases hproperty
    · obtain ⟨x, -, hx⟩ := Option.map_eq_some_iff.1 hset
      cases hx
      exact Nat.one_pos
  · rw [if_neg hd] at h
    split_ifs at h
    · cases h; exact Nat.one_pos
    · cases h; exact Nat.one_pos
    · cases h; exact Nat.one_pos
    · cases h; exact octalLength_pos d t
    · cases h; exact Nat.one_pos
    · obtain ⟨x, -, rfl⟩ := Option.map_eq_some_iff.1 h
      exact Nat.succ_pos _

/-- An escape in a class that ends before an inert text is read without it. -/
theorem classEscape?_of_append {cs T : Text} {r : ClassAtom × Nat} (hT : Inert T)
    (h : classEscape? strict named (cs ++ T) = some r) (hr : r.2 ≤ cs.length) :
    classEscape? strict named cs = some r := by
  cases cs with
  | nil =>
    exfalso
    cases T with
    | nil => cases h
    | cons d t =>
      have := classEscape?_pos (not_alphanum_of_inert hT).2.2.2 h
      simp only [List.length_nil] at hr
      omega
  | cons c cs =>
    simp only [classEscape?, List.cons_append] at h ⊢
    cases hs : setEscape? strict c (cs ++ T) with
    | some found =>
      rw [hs] at h
      obtain ⟨s, hf, rfl⟩ := Option.map_eq_some_iff.1 h
      subst hf
      rw [setEscape?_of_append hs hr]
      rfl
    | none =>
      rw [hs] at h
      rw [setEscape?_of_none hs]
      simp only [headD_isDigit_append cs hT, octalLength_append c cs hT, take_append_octalLength,
        charEscape?_append strict c cs hT] at h ⊢
      by_cases hc : c = 'c'
      · subst hc
        cases cs with
        | cons l cs => exact h
        | nil =>
          cases T with
          | nil => exact h
          | cons d t =>
            obtain ⟨ha, hd, h_, -⟩ := not_alphanum_of_inert hT
            simpa [ha, hd, h_] using h
      · simp only [if_neg hc] at h ⊢
        exact h

/-- What an escape takes, but for the two characters of a control escape. -/
theorem escape?_pos {d : Char} {t : Text} {r : Lexeme × Nat} (hd : d ≠ 'c')
    (h : escape? strict named (d :: t) = some r) : 0 < r.2 := by
  simp only [escape?] at h
  split at h
  · rename_i found hset
    obtain ⟨s, hs, rfl⟩ := Option.map_eq_some_iff.1 h
    subst hs
    unfold setEscape? at hset
    split at hset
    · have hproperty := Option.some.inj hset
      unfold propertyEscape? at hproperty
      split at hproperty
      · simp only at hproperty
        split at hproperty
        · obtain ⟨x, -, rfl⟩ := Option.map_eq_some_iff.1 hproperty
          exact Nat.succ_pos _
        · cases hproperty
      · cases hproperty
    · obtain ⟨x, -, hx⟩ := Option.map_eq_some_iff.1 hset
      cases hx
      exact Nat.one_pos
  · rw [if_neg hd] at h
    split_ifs at h
    · cases h; exact Nat.one_pos
    · cases h; exact Nat.one_pos
    · split at h
      · obtain ⟨x, -, rfl⟩ := Option.map_eq_some_iff.1 h
        exact Nat.succ_pos _
      · cases h
    · cases h; exact Nat.one_pos
    · cases h; exact octalLength_pos d t
    · cases h
      exact Nat.succ_pos _
    · obtain ⟨x, -, rfl⟩ := Option.map_eq_some_iff.1 h
      exact Nat.succ_pos _

/-! ## 2. Classes -/

theorem lt_of_classAtoms? : ∀ (skip : Nat) (cs : Text) (taken : Nat)
    (atoms : List ClassAtom) (r : List ClassAtom × Nat),
    classAtoms? strict named skip cs taken atoms = some r → taken + skip < r.2
  | _, [], _, _, _, h => by simp [classAtoms?] at h
  | skip + 1, c :: cs, taken, atoms, r, h => by
      have := lt_of_classAtoms? skip cs (taken + 1) atoms r h
      omega
  | 0, c :: cs, taken, atoms, r, h => by
      simp only [classAtoms?] at h
      split_ifs at h
      · cases h
        exact Nat.lt_succ_self _
      · split at h
        · rename_i atom n _
          have := lt_of_classAtoms? n cs (taken + 1) (atom :: atoms) r h
          omega
        · cases h
      · have := lt_of_classAtoms? 0 cs (taken + 1) _ r h
        omega
      · have := lt_of_classAtoms? 0 cs (taken + 1) _ r h
        omega

theorem classAtoms?_of_append {T : Text} (hT : Inert T) : ∀ (skip : Nat) (cs : Text) (taken : Nat)
    (atoms : List ClassAtom) (r : List ClassAtom × Nat),
    classAtoms? strict named skip (cs ++ T) taken atoms = some r → r.2 ≤ taken + cs.length →
    classAtoms? strict named skip cs taken atoms = some r
  | skip, [], taken, atoms, r, h, hr => by
      have := lt_of_classAtoms? skip T taken atoms r h
      simp only [List.length_nil] at hr
      omega
  | skip + 1, c :: cs, taken, atoms, r, h, hr =>
      classAtoms?_of_append hT skip cs (taken + 1) atoms r h (by
        simp only [List.length_cons] at hr
        omega)
  | 0, c :: cs, taken, atoms, r, h, hr => by
      have hr' : r.2 ≤ taken + 1 + cs.length := by
        simp only [List.length_cons] at hr
        omega
      simp only [classAtoms?, List.cons_append] at h ⊢
      split_ifs at h ⊢
      · exact h
      · cases he : classEscape? strict named (cs ++ T) with
        | none => rw [he] at h; cases h
        | some a =>
          rw [he] at h
          have := lt_of_classAtoms? a.2 (cs ++ T) (taken + 1) _ r h
          rw [classEscape?_of_append hT he (by omega)]
          exact classAtoms?_of_append hT a.2 cs (taken + 1) _ r h hr'
      · exact classAtoms?_of_append hT 0 cs (taken + 1) _ r h hr'
      · exact classAtoms?_of_append hT 0 cs (taken + 1) _ r h hr'

/-- A class that ends before an inert text is read without it. -/
theorem class?_of_append {cs T : Text} {r : Lexeme × Nat} (hT : Inert T)
    (h : class? strict named (cs ++ T) = some r) (hr : r.2 ≤ cs.length) :
    class? strict named cs = some r := by
  obtain ⟨negated, body, a, sets, hbody, ha, hsets, rfl⟩ := class?_eq_some_iff.1 h
  rw [class?_eq_some_iff]
  have hlt := lt_of_classAtoms? _ _ _ _ _ ha
  cases cs with
  | nil => exact absurd hr (by simp only [List.length_nil]; omega)
  | cons c cs =>
    rcases hbody with ⟨rfl, rfl, hhead⟩ | ⟨rfl, heq⟩
    · exact ⟨false, c :: cs, a, sets, .inl ⟨rfl, rfl, hhead⟩,
        classAtoms?_of_append hT 0 _ _ _ a ha (by simpa using hr), hsets, rfl⟩
    · obtain ⟨rfl, rfl⟩ := List.cons.inj heq
      exact ⟨true, cs, a, sets, .inr ⟨rfl, rfl⟩,
        classAtoms?_of_append hT 0 _ _ _ a ha (by simpa [Nat.add_comm] using hr), hsets, rfl⟩

/-! ## 3. Groups and quantifiers -/

theorem lt_of_groupNameFrom? : ∀ (skip taken : Nat) (name cs : Text) (r : Text × Nat),
    groupNameFrom? skip taken name cs = some r → taken + skip < r.2
  | _, _, _, [], _, h => by simp [groupNameFrom?] at h
  | skip + 1, taken, name, c :: cs, r, h => by
      have := lt_of_groupNameFrom? skip (taken + 1) name cs r h
      omega
  | 0, taken, name, c :: cs, r, h => by
      simp only [groupNameFrom?] at h
      by_cases hclose : c = '>'
      · rw [if_pos hclose] at h
        split at h
        · cases h
        · cases h
          exact Nat.lt_succ_self _
      · rw [if_neg hclose] at h
        split at h
        · rename_i d n _
          by_cases hid : (if name.isEmpty = true then startsIdentifier d
              else extendsIdentifier d) = true
          · rw [if_pos hid] at h
            have := lt_of_groupNameFrom? n (taken + 1) (d :: name) cs r h
            omega
          · rw [if_neg hid] at h
            cases h
        · cases h

theorem nameChar?_of_append {c : Char} {cs T : Text} {r : Char × Nat} (hT : Inert T)
    (h : nameChar? c (cs ++ T) = some r) : nameChar? c cs = some r := by
  unfold nameChar? at *
  by_cases hc : c = '\\'
  · rw [if_pos hc] at h ⊢
    cases cs with
    | nil =>
      exfalso
      cases T with
      | nil => cases h
      | cons d t =>
        have hd : d ≠ 'u' := by rintro rfl; exact absurd hT.1 (by decide)
        simp [hd] at h
    | cons d cs =>
      by_cases hd : d = 'u'
      · subst hd
        simp only [List.cons_append, unicodeEscape?_append true cs hT] at h ⊢
        exact h
      · simp [hd] at h
  · rw [if_neg hc] at h ⊢
    exact h

theorem groupNameFrom?_of_append {T : Text} (hT : Inert T) :
    ∀ (skip taken : Nat) (name cs : Text) (r : Text × Nat),
      groupNameFrom? skip taken name (cs ++ T) = some r → r.2 ≤ taken + cs.length →
      groupNameFrom? skip taken name cs = some r
  | skip, taken, name, [], r, h, hr => by
      have := lt_of_groupNameFrom? skip taken name T r h
      simp only [List.length_nil] at hr
      omega
  | skip + 1, taken, name, c :: cs, r, h, hr =>
      groupNameFrom?_of_append hT skip (taken + 1) name cs r h (by
        simp only [List.length_cons] at hr
        omega)
  | 0, taken, name, c :: cs, r, h, hr => by
      have hr' : r.2 ≤ taken + 1 + cs.length := by
        simp only [List.length_cons] at hr
        omega
      simp only [groupNameFrom?, List.cons_append] at h ⊢
      by_cases hclose : c = '>'
      · rw [if_pos hclose] at h ⊢
        exact h
      · rw [if_neg hclose] at h ⊢
        cases hn : nameChar? c (cs ++ T) with
        | none => rw [hn] at h; cases h
        | some x =>
          rw [hn] at h
          rw [nameChar?_of_append hT hn]
          simp only at h ⊢
          by_cases hid : (if name.isEmpty = true then startsIdentifier x.1
              else extendsIdentifier x.1) = true
          · rw [if_pos hid] at h ⊢
            exact groupNameFrom?_of_append hT x.2 (taken + 1) _ cs r h hr'
          · rw [if_neg hid] at h
            cases h

theorem groupName?_of_append {cs T : Text} {r : Text × Nat} (hT : Inert T)
    (h : groupName? (cs ++ T) = some r) (hr : r.2 ≤ cs.length) : groupName? cs = some r :=
  groupNameFrom?_of_append hT 0 0 [] cs r h (by omega)

theorem modifiers?_of_append {cs T : Text} {r : Opening × Nat} (hT : Inert T)
    (h : modifiers? (cs ++ T) = some r) : modifiers? cs = some r := by
  have hq : ∀ c, reachesBack c = false → (c == 'i' || c == 'm' || c == 's') = false := by
    intro c hc
    have hi : c ≠ 'i' := by rintro rfl; exact absurd hc (by decide)
    have hm : c ≠ 'm' := by rintro rfl; exact absurd hc (by decide)
    have hs : c ≠ 's' := by rintro rfl; exact absurd hc (by decide)
    simp [hi, hm, hs]
  have hle := length_takeWhile_le (fun c => c == 'i' || c == 'm' || c == 's') cs
  simp only [modifiers?, takeWhile_append_of_stop _ hq cs hT,
    List.drop_append_of_le_length hle] at h ⊢
  cases hd : cs.drop (cs.takeWhile fun c => c == 'i' || c == 'm' || c == 's').length with
  | nil =>
    rw [hd] at h
    exfalso
    rcases T with _ | ⟨d, t⟩
    · cases h
    · obtain ⟨-, -, -, -, -, -, -, -, -, -, -, -, -, hcolon, hdash⟩ := reachesBack_false hT.1
      simp [hcolon, hdash] at h
  | cons d rest =>
    rw [hd] at h
    simp only [List.cons_append] at h
    by_cases hcolon : d = ':'
    · subst hcolon
      exact h
    by_cases hdash : d = '-'
    · subst hdash
      have hle' := length_takeWhile_le (fun c => c == 'i' || c == 'm' || c == 's') rest
      simp only [takeWhile_append_of_stop _ hq rest hT, List.drop_append_of_le_length hle',
        head?_append_inert (c := ':') (by decide) _ hT] at h ⊢
      exact h
    · simp [hcolon, hdash] at h

theorem opening?_of_ne {t : Text} (h : t.head? ≠ some '?') :
    opening? t = some (.capture none, 0) := by
  cases t with
  | nil => rfl
  | cons c t =>
    have hc : c ≠ '?' := fun hc => h (by rw [hc]; rfl)
    simp [opening?, hc]

theorem opening?_modifiers {c : Char} {t : Text} (heq : c ≠ '=') (hnot : c ≠ '!') (hless : c ≠ '<') :
    opening? ('?' :: c :: t) = (modifiers? (c :: t)).map fun r => (r.1, r.2 + 1) := by
  simp [opening?, heq, hnot, hless]

theorem opening?_named {t : Text} (heq : t.head? ≠ some '=') (hnot : t.head? ≠ some '!') :
    opening? ('?' :: '<' :: t) = (groupName? t).map fun r => (.capture (some r.1), r.2 + 2) := by
  cases t with
  | nil => rfl
  | cons c t =>
    have hc : c ≠ '=' := fun hc => heq (by rw [hc]; rfl)
    have hc' : c ≠ '!' := fun hc => hnot (by rw [hc]; rfl)
    simp [opening?, hc, hc']

/-- What a parenthesis opens is complete before an inert text. -/
theorem opening?_of_append {cs T : Text} {r : Opening × Nat} (hT : Inert T)
    (h : opening? (cs ++ T) = some r) (hr : r.2 ≤ cs.length) : opening? cs = some r := by
  by_cases ha : cs.head? = some '?'
  swap
  · have ha' : (cs ++ T).head? ≠ some '?' := fun he => ha ((head?_append_inert (by decide) _ hT).1 he)
    rw [opening?_of_ne ha'] at h
    rw [opening?_of_ne ha]
    exact h
  obtain ⟨cs, rfl⟩ := List.head?_eq_some_iff.1 ha
  rcases cs with _ | ⟨b, cs⟩
  · exfalso
    rcases T with _ | ⟨d, t⟩
    · cases h
    · obtain ⟨-, -, -, -, -, -, -, -, -, hless, -, heq, hnot, -⟩ := reachesBack_false hT.1
      rw [List.cons_append, List.nil_append, opening?_modifiers heq hnot hless] at h
      obtain ⟨x, hx, rfl⟩ := Option.map_eq_some_iff.1 h
      have hempty : modifiers? [] = some x := modifiers?_of_append hT hx
      cases hempty
  by_cases heq : b = '='
  · subst heq; exact h
  by_cases hnot : b = '!'
  · subst hnot; exact h
  rw [List.cons_append, List.cons_append] at h
  by_cases hless : b = '<'
  swap
  · rw [opening?_modifiers heq hnot hless] at h ⊢
    obtain ⟨x, hx, rfl⟩ := Option.map_eq_some_iff.1 h
    have hmodifiers : modifiers? (b :: cs) = some x := modifiers?_of_append hT hx
    rw [hmodifiers]
    rfl
  subst hless
  by_cases hlook : cs.head? = some '='
  · obtain ⟨ds, rfl⟩ := List.head?_eq_some_iff.1 hlook
    exact h
  by_cases hlook' : cs.head? = some '!'
  · obtain ⟨ds, rfl⟩ := List.head?_eq_some_iff.1 hlook'
    exact h
  have hno : (cs ++ T).head? ≠ some '=' ∧ (cs ++ T).head? ≠ some '!' :=
    ⟨fun he => hlook ((head?_append_inert (by decide) _ hT).1 he),
      fun he => hlook' ((head?_append_inert (by decide) _ hT).1 he)⟩
  rw [opening?_named hno.1 hno.2] at h
  obtain ⟨x, hx, rfl⟩ := Option.map_eq_some_iff.1 h
  rw [opening?_named hlook hlook', groupName?_of_append hT hx (by
    simp only [List.length_cons] at hr
    omega)]
  rfl

theorem quantifier?_of_append {min : Nat} {max : Option Nat} {cs T : Text} {n : Nat}
    {r : Lexeme × Nat} (hT : Inert T) (hn : n ≤ cs.length)
    (h : quantifier? min max (cs ++ T) n = some r) : quantifier? min max cs n = some r := by
  simp only [quantifier?, List.drop_append_of_le_length hn,
    head?_append_inert (c := '?') (by decide) _ hT] at h ⊢
  exact h

/-! ## 4. Lexemes -/

/-- An escape that ends before an inert text is read without it. -/
theorem escape?_of_append {cs T : Text} {r : Lexeme × Nat} (hT : Inert T)
    (h : escape? strict named (cs ++ T) = some r) (hr : r.2 ≤ cs.length) :
    escape? strict named cs = some r := by
  cases cs with
  | nil =>
    exfalso
    cases T with
    | nil => cases h
    | cons d t =>
      have := escape?_pos (not_alphanum_of_inert hT).2.2.2 h
      simp only [List.length_nil] at hr
      omega
  | cons c cs =>
    have hdigits : (cs ++ T).takeWhile Char.isDigit = cs.takeWhile Char.isDigit :=
      takeWhile_append_of_stop _ (fun _ hc => (reachesBack_false hc).2.2.2.1) cs hT
    simp only [escape?, List.cons_append] at h ⊢
    cases hs : setEscape? strict c (cs ++ T) with
    | some found =>
      rw [hs] at h
      obtain ⟨s, hf, rfl⟩ := Option.map_eq_some_iff.1 h
      subst hf
      rw [setEscape?_of_append hs hr]
      rfl
    | none =>
      rw [hs] at h
      rw [setEscape?_of_none hs]
      simp only [headD_isDigit_append cs hT, octalLength_append c cs hT, take_append_octalLength,
        charEscape?_append strict c cs hT, hdigits] at h ⊢
      by_cases hc : c = 'c'
      · subst hc
        cases cs with
        | cons l cs => exact h
        | nil =>
          cases T with
          | nil => exact h
          | cons d t =>
            obtain ⟨ha, -⟩ := not_alphanum_of_inert hT
            simpa [ha] using h
      simp only [if_neg hc] at h ⊢
      by_cases hk : (c = 'k' && (named || strict)) = true
      · simp only [if_pos hk] at h ⊢
        split_ifs at h ⊢
        · exact h
        · exact h
        · cases cs with
          | nil =>
            exfalso
            cases T with
            | nil => cases h
            | cons d t =>
              have hd : d ≠ '<' := by rintro rfl; exact absurd hT.1 (by decide)
              simp [hd] at h
          | cons d cs =>
            by_cases hd : d = '<'
            · subst hd
              simp only [List.cons_append] at h ⊢
              obtain ⟨x, hx, rfl⟩ := Option.map_eq_some_iff.1 h
              rw [groupName?_of_append hT hx (by
                simp only [List.length_cons] at hr
                omega)]
              rfl
            · simp [hd] at h
      · simp only [if_neg hk] at h ⊢
        exact h

/-- **A lexeme that ends before an inert text is read without it.** -/
theorem lexeme?_of_append {c : Char} {cs T : Text} {r : Lexeme × Nat} (hT : Inert T)
    (h : lexeme? strict named c (cs ++ T) = some r) (hr : r.2 ≤ cs.length) :
    lexeme? strict named c cs = some r := by
  unfold lexeme? at h ⊢
  split at h
  case h_6 =>
    obtain ⟨x, hx, rfl⟩ := Option.map_eq_some_iff.1 h
    simp only [opening?_of_append hT hx hr, Option.map_some]
  case h_7 => exact class?_of_append hT h hr
  case h_8 => exact quantifier?_of_append hT (Nat.zero_le _) h
  case h_9 => exact quantifier?_of_append hT (Nat.zero_le _) h
  case h_10 => exact quantifier?_of_append hT (Nat.zero_le _) h
  case h_11 =>
    simp only [bracedBounds?_append cs hT] at h ⊢
    cases hb : bracedBounds? cs with
    | none =>
      rw [hb] at h
      exact h
    | some b =>
      rw [hb] at h
      exact quantifier?_of_append hT (bracedBounds?_length hb) h
  case h_14 => exact escape?_of_append hT h hr
  all_goals exact h

/-! ## 5. Whole texts -/

theorem length_le_of_mem_landmarks : ∀ (t : Text) (s : Spot) (u : Text), u ∈ landmarks s t →
    u.length ≤ t.length
  | [], _, _, h => by cases h
  | c :: t, s, u, h => by
      rw [landmarks_cons, List.mem_append] at h
      rcases h with h | h
      · split at h
        · rw [List.mem_singleton.1 h]
        · cases h
      · have := length_le_of_mem_landmarks t _ u h
        simp only [List.length_cons]
        omega

/-- What stands after a text that ends outside of classes and escapes is a landmark, if it begins
with what is noticed there. -/
theorem mem_landmarks_append {u : Text} (hu : isLandmark u = true) : ∀ (t : Text) (s : Spot),
    s.after t = .outside → u ∈ landmarks s (t ++ u)
  | [], s, h => by
      cases u with
      | nil => cases hu
      | cons c u =>
        rw [List.nil_append, landmarks_cons, if_pos ⟨h, hu⟩]
        exact List.mem_append_left _ (List.mem_singleton_self _)
  | c :: t, s, h => List.mem_append_right _ (mem_landmarks_append hu t _ h)

/-- A lexeme that begins before a landmark ends before it. -/
theorem lexeme?_le {c : Char} {cs T : Text} {r : Lexeme × Nat}
    (h : lexeme? strict named c (cs ++ T) = some r) (hT : isLandmark T = true)
    (hspot : Spot.outside.after (c :: cs) = .outside) : r.2 ≤ cs.length := by
  have hmem := mem_landmarks_append hT cs _ hspot
  rw [scans_landmarks.lexeme? h] at hmem
  have hle := length_le_of_mem_landmarks _ _ _ hmem
  have hpos : 0 < T.length := by
    cases T with
    | nil => cases hT
    | cons => exact Nat.succ_pos _
  rw [List.length_drop, List.length_append] at hle
  omega

/-- After a lexeme the spot is outside again. -/
theorem after_drop_lexeme? {c : Char} {cs : Text} {r : Lexeme × Nat}
    (h : lexeme? strict named c cs = some r) :
    Spot.outside.after (cs.drop r.2) = Spot.outside.after (c :: cs) :=
  (scans_after.lexeme? h).symm

theorem lexAll?_skip : ∀ (skip : Nat) (t : Text) (read : List Lexeme),
    lexAll? strict named skip t read = lexAll? strict named 0 (t.drop skip) read
  | 0, _, _ => rfl
  | skip + 1, [], _ => by simp [lexAll?]
  | skip + 1, _ :: t, read => lexAll?_skip skip t read

theorem classAtoms?_skip : ∀ (skip : Nat) (cs : Text) (taken : Nat) (atoms : List ClassAtom),
    classAtoms? strict named skip cs taken atoms =
      classAtoms? strict named 0 (cs.drop skip) (taken + skip) atoms
  | 0, _, _, _ => rfl
  | _ + 1, [], _, _ => by simp [classAtoms?]
  | skip + 1, _ :: cs, taken, atoms => by
      rw [classAtoms?, classAtoms?_skip skip cs (taken + 1) atoms, List.drop_succ_cons,
        Nat.add_assoc, Nat.add_comm 1]

/-- **A well-formed text ends outside of classes and escapes.** -/
theorem after_of_lexAll? : ∀ (limit : Nat) (t : Text) (read ls : List Lexeme), t.length ≤ limit →
    lexAll? strict named 0 t read = some ls → Spot.outside.after t = .outside
  | _, [], _, _, _, _ => rfl
  | 0, _ :: _, _, _, h, _ => absurd h (Nat.not_succ_le_zero _)
  | limit + 1, c :: t, read, ls, hlen, h => by
      simp only [lexAll?] at h
      cases hl : lexeme? strict named c t with
      | none => rw [hl] at h; cases h
      | some r =>
        rw [hl] at h
        simp only at h
        rw [lexAll?_skip] at h
        rw [← after_drop_lexeme? hl]
        refine after_of_lexAll? limit _ _ ls ?_ h
        rw [List.length_drop]
        simp only [List.length_cons] at hlen
        omega

/-- Every lexeme that begins before a text, outside of classes and escapes, ends before it. -/
def Cuts (strict named : Bool) (T : Text) : Prop := ∀ (c : Char) (cs : Text) (r : Lexeme × Nat),
  lexeme? strict named c (cs ++ T) = some r → Spot.outside.after (c :: cs) = .outside →
    r.2 ≤ cs.length

theorem cuts_of_isLandmark {T : Text} (h : isLandmark T = true) : Cuts strict named T :=
  fun _ _ _ hl => lexeme?_le hl h

theorem lexAll?_of_append {T : Text} (hT : Inert T) (hcuts : Cuts strict named T) :
    ∀ (limit : Nat) (t : Text) (read ls : List Lexeme), t.length ≤ limit →
      Spot.outside.after t = .outside → lexAll? strict named 0 (t ++ T) read = some ls →
      (lexAll? strict named 0 t read).isSome = true
  | _, [], _, _, _, _, _ => rfl
  | 0, _ :: _, _, _, h, _, _ => absurd h (Nat.not_succ_le_zero _)
  | limit + 1, c :: t, read, ls, hlen, hspot, h => by
      simp only [lexAll?, List.cons_append] at h ⊢
      cases hl : lexeme? strict named c (t ++ T) with
      | none => rw [hl] at h; cases h
      | some r =>
        rw [hl] at h
        simp only at h
        have hle := hcuts c t r hl hspot
        have hcut := lexeme?_of_append hT hl hle
        rw [hcut]
        simp only
        rw [lexAll?_skip] at h ⊢
        rw [List.drop_append_of_le_length hle] at h
        refine lexAll?_of_append hT hcuts limit _ _ ls ?_ ?_ h
        · rw [List.length_drop]
          simp only [List.length_cons] at hlen
          omega
        · rw [after_drop_lexeme? hcut]
          exact hspot

/-- **A text is cut where every lexeme ends**: what stands before is cut by itself. -/
theorem lexAll?_split_of_cuts {t T : Text} (hspot : Spot.outside.after t = .outside)
    (hT : Inert T) (hcuts : Cuts strict named T) (read : List Lexeme) :
    lexAll? strict named 0 (t ++ T) read =
      (lexAll? strict named 0 t read).bind fun ls => lexAll? strict named 0 T ls.reverse := by
  cases ht : lexAll? strict named 0 t read with
  | some ls =>
    rw [lexAll?_append hT 0 t read ls (Nat.zero_le _) ht]
    rfl
  | none =>
    rw [Option.bind_none]
    cases h : lexAll? strict named 0 (t ++ T) read with
    | none => rfl
    | some ls =>
      have := lexAll?_of_append hT hcuts t.length t read ls (Nat.le_refl _) hspot h
      rw [ht] at this
      cases this

/-- **A text is cut at its landmarks**: what stands before one is cut by itself. -/
theorem lexAll?_split {t T : Text} (hspot : Spot.outside.after t = .outside) (hT : Inert T)
    (hmark : isLandmark T = true) (read : List Lexeme) :
    lexAll? strict named 0 (t ++ T) read =
      (lexAll? strict named 0 t read).bind fun ls => lexAll? strict named 0 T ls.reverse :=
  lexAll?_split_of_cuts hspot hT (cuts_of_isLandmark hmark) read

/-- A class is a landmark that the lexeme before it does not look into. -/
theorem inert_bracket (t : Text) : Inert ('[' :: t) ∧ isLandmark ('[' :: t) = true :=
  ⟨⟨by decide, fun h => absurd h (by decide)⟩, rfl⟩

end ExtensibleRegex.Native
