import ExtensibleRegex.Proofs.Native.Cutting
import Mathlib.Tactic

/-!
# Cutting at a dollar

A dollar may stand in the name of a group, so it is no landmark. But no lexeme ends in one, apart from
the anchor itself and the dollar that is escaped (`spares_lexeme?`). So a dollar at the end of a
pattern is cut by itself, as a landmark is (`lexAll?_dollar`).
-/

namespace ExtensibleRegex.Native

variable {strict named : Bool}

/-! ## 1. What a lexeme ends in -/

/-- The first `n` characters of a text do not end in a dollar. -/
def Spares (t : Text) (n : Nat) : Prop := ∀ k, n = k + 1 → t[k]? ≠ some '$'

theorem spares_zero (t : Text) : Spares t 0 := nofun

/-- The last one of the characters is another one. -/
theorem spares_of_getElem? {t : Text} {n : Nat} {c : Char} (h : t[n]? = some c) (hc : c ≠ '$') :
    Spares t (n + 1) := by
  rintro k hk
  obtain rfl := Nat.succ.inj hk
  rw [h]
  exact fun heq => hc (Option.some.inj heq)

theorem Spares.cons {t : Text} {n : Nat} (h : Spares t n) (hpos : 0 < n) (c : Char) :
    Spares (c :: t) (n + 1) := by
  obtain ⟨m, rfl⟩ := Nat.exists_eq_succ_of_ne_zero (Nat.ne_of_gt hpos)
  rintro k hk
  obtain rfl := Nat.succ.inj hk
  exact h m rfl

theorem Spares.cons_ne {t : Text} {n : Nat} (h : Spares t n) {c : Char} (hc : c ≠ '$') :
    Spares (c :: t) (n + 1) := by
  cases n with
  | zero => exact spares_of_getElem? (n := 0) rfl hc
  | succ n => exact h.cons (Nat.succ_pos n) c

/-- Characters of a kind that a dollar is not of. -/
theorem spares_takeWhile {q : Char → Bool} (hq : q '$' = false) {t u : Text} {n : Nat}
    (h : t.take n = u.takeWhile q) : Spares t n := by
  rintro k rfl hk
  have hmem : '$' ∈ t.take (k + 1) := by
    refine List.mem_of_getElem? (i := k) ?_
    rw [List.getElem?_take_of_lt (Nat.lt_succ_self k)]
    exact hk
  rw [h] at hmem
  have hall := List.all_eq_true.1 List.all_takeWhile _ hmem
  rw [hq] at hall
  cases hall

/-- What is taken with the character that stands behind it. -/
theorem spares_of_head?_drop {t : Text} {n : Nat} {c : Char} (h : (t.drop n).head? = some c)
    (hc : c ≠ '$') : Spares t (n + 1) := by
  rw [List.head?_drop] at h
  exact spares_of_getElem? h hc

/-! ## 2. Escapes -/

theorem spares_fourHex? {cs : Text} {n : Nat} (h : fourHex? cs = some n) : Spares cs 4 := by
  unfold fourHex? at h
  split at h
  · rename_i a b c d rest
    split at h
    · rename_i hhex
      simp only [Bool.and_eq_true] at hhex
      refine spares_of_getElem? (n := 3) rfl ?_
      rintro rfl
      exact absurd hhex.2 (by decide)
    · cases h
  · cases h

theorem spares_unicodeEscape? {cs : Text} {r : Nat × Nat} (h : unicodeEscape? strict cs = some r) :
    Spares cs r.2 := by
  unfold unicodeEscape? at h
  split at h
  · rename_i high hhigh
    have hfour := spares_fourHex? hhigh
    split at h
    · split at h
      · rename_i low hlow
        rw [← Option.some.inj h]
        unfold lowSurrogate? at hlow
        split at hlow
        · rename_i rest hdrop
          split at hlow
          · rename_i n hn
            intro k hk
            obtain rfl : k = 4 + (3 + 2) := by
              simp only at hk
              omega
            rw [← List.getElem?_drop, hdrop]
            exact spares_fourHex? hn 3 rfl
          · cases hlow
        · cases hlow
      · cases h
        exact hfour
    · cases h
      exact hfour
  · split at h
    · split at h
      · simp only at h
        split at h
        · rename_i hclosed
          cases h
          exact (spares_of_head?_drop hclosed.2.1 (by decide)).cons_ne (by decide)
        · cases h
      · cases h
    · cases h
      exact spares_zero cs

theorem spares_charEscape? {c : Char} {cs : Text} {r : Nat × Nat}
    (h : charEscape? strict c cs = some r) : Spares cs r.2 := by
  unfold charEscape? at h
  split at h
  case h_6 =>
    split at h
    · rename_i a b rest
      split at h
      · rename_i hhex
        cases h
        simp only [Bool.and_eq_true] at hhex
        refine spares_of_getElem? (n := 1) rfl ?_
        rintro rfl
        exact absurd hhex.2 (by decide)
      · split at h <;> cases h
        exact spares_zero _
    · split at h <;> cases h
      exact spares_zero _
  case h_7 => exact spares_unicodeEscape? h
  case h_8 =>
    split at h <;> cases h
    exact spares_zero _
  all_goals
    cases h
    exact spares_zero _

theorem spares_setEscape? {c : Char} {cs : Text} {r : CodeSet × Nat}
    (h : setEscape? strict c cs = some (some r)) (hone : r.2 ≠ 1) : Spares (c :: cs) r.2 := by
  unfold setEscape? at h
  split at h
  · have hproperty := Option.some.inj h
    unfold propertyEscape? at hproperty
    split at hproperty
    · simp only at hproperty
      split at hproperty
      · rename_i hclosed
        obtain ⟨x, -, rfl⟩ := Option.map_eq_some_iff.1 hproperty
        exact ((spares_of_head?_drop hclosed (by decide)).cons_ne (by decide)).cons
          (Nat.succ_pos _) c
      · cases hproperty
    · cases hproperty
  · obtain ⟨x, -, hx⟩ := Option.map_eq_some_iff.1 h
    cases hx
    exact absurd rfl hone

theorem spares_octalLength (c : Char) (cs : Text) (hc : c ≠ '$') :
    Spares (c :: cs) (octalLength c cs) := by
  unfold octalLength
  generalize (if c.toNat ≤ '3'.toNat then 2 else 1) = most
  have hprefix : (cs.take most).takeWhile isOctalDigit <+: cs :=
    (List.takeWhile_prefix _).trans (List.take_prefix _ _)
  rw [Nat.add_comm]
  refine (spares_takeWhile (q := isOctalDigit) (u := cs.take most) rfl ?_).cons_ne hc
  exact (List.prefix_iff_eq_take.1 hprefix).symm

/-! ## 3. Classes, names and quantifiers -/

/-- The atoms of a class are read up to its bracket. -/
theorem getElem?_of_classAtoms? : ∀ (skip : Nat) (cs : Text) (taken : Nat)
    (atoms : List ClassAtom) (r : List ClassAtom × Nat),
    classAtoms? strict named skip cs taken atoms = some r →
    ∃ k, r.2 = taken + k + 1 ∧ cs[k]? = some ']'
  | _, [], _, _, _, h => by simp [classAtoms?] at h
  | skip + 1, _ :: cs, taken, atoms, r, h => by
      obtain ⟨k, hk, hc⟩ := getElem?_of_classAtoms? skip cs (taken + 1) atoms r h
      exact ⟨k + 1, by omega, hc⟩
  | 0, c :: cs, taken, atoms, r, h => by
      have hlater {skip : Nat} {atoms : List ClassAtom}
          (h : classAtoms? strict named skip cs (taken + 1) atoms = some r) :
          ∃ k, r.2 = taken + k + 1 ∧ (c :: cs)[k]? = some ']' := by
        obtain ⟨k, hk, hc⟩ := getElem?_of_classAtoms? skip cs (taken + 1) atoms r h
        exact ⟨k + 1, by omega, hc⟩
      simp only [classAtoms?] at h
      split_ifs at h with hclose
      · cases h
        exact ⟨0, rfl, congrArg some hclose⟩
      · split at h
        · exact hlater h
        · cases h
      · exact hlater h
      · exact hlater h

theorem spares_class? {cs : Text} {r : Lexeme × Nat} (h : class? strict named cs = some r) :
    Spares cs r.2 := by
  obtain ⟨negated, body, a, sets, hbody, ha, -, rfl⟩ := class?_eq_some_iff.1 h
  obtain ⟨k, hk, hc⟩ := getElem?_of_classAtoms? _ _ _ _ _ ha
  rcases hbody with ⟨rfl, rfl, -⟩ | ⟨rfl, rfl⟩
  · rw [hk, if_neg Bool.false_ne_true, Nat.zero_add]
    exact spares_of_getElem? hc (by decide)
  · rw [hk, if_pos rfl, Nat.add_comm 1]
    exact spares_of_getElem? (n := k + 1) hc (by decide)

/-- A name is read up to its angle bracket. -/
theorem getElem?_of_groupNameFrom? : ∀ (skip taken : Nat) (name cs : Text) (r : Text × Nat),
    groupNameFrom? skip taken name cs = some r → ∃ k, r.2 = taken + k + 1 ∧ cs[k]? = some '>'
  | _, _, _, [], _, h => by simp [groupNameFrom?] at h
  | skip + 1, taken, name, _ :: cs, r, h => by
      obtain ⟨k, hk, hc⟩ := getElem?_of_groupNameFrom? skip (taken + 1) name cs r h
      exact ⟨k + 1, by omega, hc⟩
  | 0, taken, name, c :: cs, r, h => by
      unfold groupNameFrom? at h
      split at h
      · rename_i hclose
        split at h
        · cases h
        · cases h
          exact ⟨0, rfl, congrArg some hclose⟩
      · split at h
        · rename_i d n _
          by_cases hd : (if name.isEmpty then startsIdentifier d else extendsIdentifier d) = true
          · rw [if_pos hd] at h
            obtain ⟨k, hk, hc⟩ := getElem?_of_groupNameFrom? n (taken + 1) _ cs r h
            exact ⟨k + 1, by omega, hc⟩
          · rw [if_neg hd] at h
            cases h
        · cases h

theorem spares_groupName? {cs : Text} {r : Text × Nat} (h : groupName? cs = some r) :
    Spares cs r.2 ∧ 0 < r.2 := by
  obtain ⟨k, hk, hc⟩ := getElem?_of_groupNameFrom? _ _ _ _ _ h
  rw [hk, Nat.zero_add]
  exact ⟨spares_of_getElem? hc (by decide), Nat.succ_pos k⟩

theorem spares_modifiers? {cs : Text} {r : Opening × Nat} (h : modifiers? cs = some r) :
    Spares cs r.2 ∧ 0 < r.2 := by
  unfold modifiers? at h
  simp only at h
  split at h
  · rename_i rest hdrop
    split at h
    · cases h
      exact ⟨spares_of_head?_drop (by rw [hdrop]; rfl) (by decide), Nat.succ_pos _⟩
    · cases h
  · rename_i rest hdrop
    split at h
    · rename_i hclosed
      cases h
      refine ⟨spares_of_head?_drop (c := ':') ?_ (by decide), Nat.succ_pos _⟩
      have hcolon := hclosed.1
      rw [List.head?_drop] at hcolon ⊢
      rw [List.length_append, Nat.add_assoc, ← List.getElem?_drop, hdrop]
      exact hcolon
    · cases h
  · cases h

theorem spares_opening? {cs : Text} {r : Opening × Nat} (h : opening? cs = some r) :
    Spares cs r.2 := by
  unfold opening? at h
  split at h
  · cases h
    exact spares_of_getElem? (n := 1) rfl (by decide)
  · cases h
    exact spares_of_getElem? (n := 1) rfl (by decide)
  · cases h
    exact spares_of_getElem? (n := 2) rfl (by decide)
  · cases h
    exact spares_of_getElem? (n := 2) rfl (by decide)
  · obtain ⟨x, hx, rfl⟩ := Option.map_eq_some_iff.1 h
    obtain ⟨hname, hpos⟩ := spares_groupName? hx
    exact (hname.cons hpos '<').cons_ne (by decide)
  · obtain ⟨x, hx, rfl⟩ := Option.map_eq_some_iff.1 h
    exact (spares_modifiers? hx).1.cons_ne (by decide)
  · cases h
    exact spares_zero cs

theorem spares_bracedBounds? {cs : Text} {min : Nat} {max : Option Nat} {n : Nat}
    (h : bracedBounds? cs = some (min, max, n)) : Spares cs n := by
  unfold bracedBounds? at h
  simp only at h
  split at h
  · cases h
  · split at h
    · rename_i rest hdrop
      cases h
      exact spares_of_head?_drop (by rw [hdrop]; rfl) (by decide)
    · rename_i rest hdrop
      split at h
      · rename_i hclosed
        cases h
        refine spares_of_head?_drop (c := '\x7d') ?_ (by decide)
        rw [List.head?_drop] at hclosed ⊢
        rw [Nat.add_assoc, ← List.getElem?_drop, hdrop]
        exact hclosed
      · cases h
    · cases h

theorem spares_quantifier? {min : Nat} {max : Option Nat} {cs : Text} {n : Nat}
    {r : Lexeme × Nat} (h : quantifier? min max cs n = some r) (hn : Spares cs n) :
    Spares cs r.2 := by
  unfold quantifier? at h
  split at h
  · split at h
    · rename_i hlazy
      cases h
      exact spares_of_head?_drop hlazy (by decide)
    · cases h
      exact hn
  · cases h

/-! ## 4. All lexemes -/

theorem spares_escape? {cs : Text} {r : Lexeme × Nat} (h : escape? strict named cs = some r)
    (hone : r.2 ≠ 1) : Spares cs r.2 := by
  cases cs with
  | nil => cases h
  | cons c cs =>
    simp only [escape?] at h
    split at h
    · rename_i found hset
      obtain ⟨s, hs, rfl⟩ := Option.map_eq_some_iff.1 h
      subst hs
      exact spares_setEscape? hset hone
    split at h
    · cases h
      exact absurd rfl hone
    split at h
    · cases h
      exact absurd rfl hone
    split at h
    · split at h
      · rename_i l rest
        split at h
        · rename_i halpha
          cases h
          refine spares_of_getElem? (n := 1) rfl ?_
          rintro rfl
          exact absurd halpha (by decide)
        · split at h <;> cases h
          exact spares_zero _
      · split at h <;> cases h
        exact spares_zero _
    split at h
    · split at h
      · obtain ⟨x, hx, rfl⟩ := Option.map_eq_some_iff.1 h
        obtain ⟨hname, hpos⟩ := spares_groupName? hx
        exact (hname.cons hpos '<').cons (Nat.succ_pos _) c
      · cases h
    split at h
    · rename_i hzero
      split at h
      · split at h <;> cases h
        exact absurd rfl hone
      · cases h
        exact spares_octalLength c cs (by rw [hzero]; decide)
    split at h
    · rename_i hdigit
      cases h
      rw [List.length_cons]
      refine (spares_takeWhile (q := Char.isDigit) (u := cs) rfl ?_).cons_ne ?_
      · exact (List.prefix_iff_eq_take.1 (List.takeWhile_prefix _)).symm
      · rintro rfl
        exact absurd hdigit (by decide)
    · obtain ⟨x, hx, rfl⟩ := Option.map_eq_some_iff.1 h
      have hpos : 0 < x.2 := Nat.pos_of_ne_zero fun hzero => hone (by rw [hzero])
      exact (spares_charEscape? hx).cons hpos c

/-- **No lexeme ends in a dollar** that stands behind its first character, unless it is the dollar that
a backslash escapes. -/
theorem spares_lexeme? {c : Char} {cs : Text} {r : Lexeme × Nat}
    (h : lexeme? strict named c cs = some r) (hone : c = '\\' → r.2 ≠ 1) : Spares cs r.2 := by
  unfold lexeme? at h
  split at h
  case h_6 =>
    obtain ⟨x, hx, rfl⟩ := Option.map_eq_some_iff.1 h
    exact spares_opening? hx
  case h_7 => exact spares_class? h
  case h_8 => exact spares_quantifier? h (spares_zero cs)
  case h_9 => exact spares_quantifier? h (spares_zero cs)
  case h_10 => exact spares_quantifier? h (spares_zero cs)
  case h_11 =>
    split at h
    · rename_i hbounds
      exact spares_quantifier? h (spares_bracedBounds? hbounds)
    · split at h <;> cases h
      exact spares_zero cs
  case h_14 => exact spares_escape? h (hone rfl)
  all_goals
    first
      | (cases h; exact spares_zero cs)
      | (split at h <;> cases h; exact spares_zero cs)

/-- **A dollar at the end is cut off** from what stands before it. -/
theorem cuts_dollar : Cuts strict named ['$'] := by
  intro c cs r h hspot
  have hle : r.2 ≤ cs.length + 1 := by
    have hlexeme := (lexeme?_append (T := []) trivial h).2
    rwa [List.length_append] at hlexeme
  refine Nat.le_of_lt_succ (Nat.lt_of_le_of_ne hle fun heq => ?_)
  refine spares_lexeme? h ?_ cs.length heq List.getElem?_concat_length
  rintro rfl hone
  obtain rfl := List.length_eq_zero_iff.1 (Nat.succ.inj (heq.symm.trans hone))
  cases hspot

/-- A pattern and the anchor behind it. -/
theorem lexAll?_dollar {t : Text} (h : Spot.outside.after t = .outside) :
    lexAll? strict named 0 (t ++ ['$']) [] =
      (lexAll? strict named 0 t []).map (· ++ [.lineEnd]) := by
  have hinert : Inert ['$'] := ⟨rfl, nofun⟩
  rw [lexAll?_split_of_cuts h hinert cuts_dollar]
  cases lexAll? strict named 0 t [] with
  | none => rfl
  | some ls =>
    show some (Lexeme.lineEnd :: ls.reverse).reverse = _
    rw [List.reverse_cons, List.reverse_reverse]
    rfl

end ExtensibleRegex.Native
