import ExtensibleRegex.Combine.Piece
import ExtensibleRegex.Proofs.Expansion.Tidy
import ExtensibleRegex.Proofs.Native.Classes
import ExtensibleRegex.Proofs.Native.Words
import Mathlib.Tactic

/-!
# The forms of words

What a word looks like is settled by a few of its characters: a parenthesis, a bracket or a
backslash at its front, and plain characters behind that. `Word.Fits.form` lists the forms, in the
lenient grammar and without named groups. A class ends where a plain search for its bracket ends
(`classLengthFrom_of_class?`), and an escape is followed by plain characters or, in a pair of
surrogates, by another escape (`Trail`).
-/

namespace ExtensibleRegex

open Native

/-! ## 1. What follows an escaped character -/

/-- The characters of an escape behind the first one: plain ones, or four hexadecimal digits and
another escape with four of them. -/
def Trail (w : Text) : Prop :=
  (∀ d ∈ w, isPlain d = true) ∨
    ∃ high low, w = high ++ '\\' :: 'u' :: low ∧ high.length = 4 ∧ low.length = 4 ∧
      (∀ d ∈ high, isHexDigit d = true) ∧ ∀ d ∈ low, isHexDigit d = true

theorem trail_nil : Trail [] := .inl nofun

theorem fourHex?_eq_some {cs : Text} {n : Nat} (h : fourHex? cs = some n) :
    4 ≤ leadingHexDigits cs ∧ ∃ rest, cs = cs.take 4 ++ rest ∧ (cs.take 4).length = 4 ∧
      ∀ d ∈ cs.take 4, isHexDigit d = true := by
  unfold fourHex? at h
  split at h
  · rename_i a b c d rest
    split at h
    · rename_i hhex
      simp only [Bool.and_eq_true] at hhex
      obtain ⟨⟨⟨ha, hb⟩, hc⟩, hd⟩ := hhex
      refine ⟨by simp [leadingHexDigits, ha, hb, hc, hd], rest, rfl, rfl, ?_⟩
      simp [ha, hb, hc, hd]
    · cases h
  · cases h

theorem fourHex?_eq_none {cs : Text} (h : fourHex? cs = none) : leadingHexDigits cs < 4 := by
  unfold fourHex? at h
  split at h
  · rename_i a b c d rest
    split at h
    · cases h
    · rename_i hhex
      by_contra hlen
      have hall : ∀ e ∈ [a, b, c, d], isHexDigit e = true := fun e he =>
        mem_take_of_takeWhile (Nat.le_of_not_lt hlen) he
      simp [hall a (by simp), hall b (by simp), hall c (by simp), hall d (by simp)] at hhex
  · rename_i hshort
    refine Nat.lt_of_le_of_lt (length_takeWhile_le isHexDigit cs) ?_
    rcases cs with _ | ⟨a, _ | ⟨b, _ | ⟨c, _ | ⟨d, cs⟩⟩⟩⟩
    · exact Nat.zero_lt_succ _
    · exact Nat.succ_lt_succ (Nat.zero_lt_succ _)
    · exact Nat.succ_lt_succ (Nat.succ_lt_succ (Nat.zero_lt_succ _))
    · exact Nat.lt_succ_self _
    · exact absurd rfl (hshort a b c d cs)

theorem lowSurrogate?_eq_some {cs : Text} {n : Nat} (h : lowSurrogate? cs = some n) :
    ∃ low rest, cs = '\\' :: 'u' :: (low ++ rest) ∧ low.length = 4 ∧
      ∀ d ∈ low, isHexDigit d = true := by
  unfold lowSurrogate? at h
  split at h
  · rename_i rest
    cases hfour : fourHex? rest with
    | none => rw [hfour] at h; cases h
    | some low =>
      obtain ⟨-, rest', hrest, hlength, hhex⟩ := fourHex?_eq_some hfour
      exact ⟨rest.take 4, rest', by rw [← hrest], hlength, hhex⟩
  · cases h

/-- What an escape takes behind its first character. The digits that it needs are among that. -/
theorem charEscape?_trail {c : Char} {cs : Text} {v n : Nat}
    (h : charEscape? false c cs = some (v, n)) :
    n ≤ cs.length ∧ Trail (cs.take n) ∧
      (c = 'u' → 4 ≤ leadingHexDigits cs → 4 ≤ leadingHexDigits (cs.take n)) ∧
      (c = 'x' → 2 ≤ leadingHexDigits cs → 2 ≤ leadingHexDigits (cs.take n)) := by
  have hlength := charEscape?_length h
  refine ⟨hlength, ?_⟩
  have htake {m : Nat} (hm : m ≤ leadingHexDigits cs) : m ≤ leadingHexDigits (cs.take m) := by
    simpa using le_leadingHexDigits_take hm []
  unfold charEscape? at h
  split at h
  case h_6 =>
    refine (fun hx : _ ∧ (2 ≤ _ → _) => ⟨hx.1, nofun, fun _ => hx.2⟩) ?_
    split at h
    · rename_i a b rest
      split at h
      · rename_i hhex
        cases h
        rw [Bool.and_eq_true] at hhex
        refine ⟨.inl ?_, htake⟩
        intro d hd
        simp only [List.take_succ_cons, List.take_zero, List.mem_cons, List.not_mem_nil,
          or_false] at hd
        rcases hd with rfl | rfl
        · exact isPlain_of_isHexDigit hhex.1
        · exact isPlain_of_isHexDigit hhex.2
      · rename_i hhex
        cases h
        refine ⟨trail_nil, fun htwo => absurd ?_ hhex⟩
        have hall : ∀ e ∈ [a, b], isHexDigit e = true := fun e he => mem_take_of_takeWhile htwo he
        simp [hall a (by simp), hall b (by simp)]
    · rename_i hshort
      cases h
      refine ⟨trail_nil, fun htwo => ?_⟩
      have hle := htwo.trans (length_takeWhile_le isHexDigit cs)
      rcases cs with _ | ⟨a, _ | ⟨b, cs⟩⟩
      · exact absurd hle (Nat.not_succ_le_zero 1)
      · exact absurd (Nat.le_of_succ_le_succ hle) (Nat.not_succ_le_zero 0)
      · exact (hshort a b cs rfl).elim
  case h_7 =>
    refine (fun hu : _ ∧ (4 ≤ _ → _) => ⟨hu.1, fun _ => hu.2, nofun⟩) ?_
    unfold unicodeEscape? at h
    cases hfour : fourHex? cs with
    | none =>
      rw [hfour] at h
      cases h
      exact ⟨trail_nil, fun hle => absurd (fourHex?_eq_none hfour) (Nat.not_lt_of_le hle)⟩
    | some high =>
      rw [hfour] at h
      obtain ⟨-, rest, hrest, hfourLength, hdigits⟩ := fourHex?_eq_some hfour
      have hone : Trail (cs.take 4) ∧ (4 ≤ leadingHexDigits cs → 4 ≤ leadingHexDigits (cs.take 4)) :=
        ⟨.inl fun d hd => isPlain_of_isHexDigit (hdigits d hd), htake⟩
      simp only at h
      split at h
      · split at h
        · rename_i low hlow
          obtain rfl := (Prod.mk.inj (Option.some.inj h)).2
          obtain ⟨low', rest', hcs, hlowLength, hlowDigits⟩ := lowSurrogate?_eq_some hlow
          have hten : cs.take 10 = cs.take 4 ++ '\\' :: 'u' :: low' := by
            have hsix : (cs.drop 4).take 6 = '\\' :: 'u' :: low' := by
              rw [hcs, List.take_succ_cons, List.take_succ_cons, ← hlowLength, List.take_left]
            have hsum : cs.take (4 + 6) = cs.take 4 ++ (cs.drop 4).take 6 := List.take_add
            rw [hsix] at hsum
            exact hsum
          refine ⟨.inr ⟨cs.take 4, low', hten, hfourLength, hlowLength, hdigits, hlowDigits⟩, ?_⟩
          intro hle
          have := le_leadingHexDigits_take hle ('\\' :: 'u' :: low')
          rwa [← hten] at this
        · cases h
          exact hone
      · cases h
        exact hone
  case h_8 =>
    rename_i hx hu
    cases h
    exact ⟨trail_nil, fun hc => absurd hc hu, fun hc => absurd hc hx⟩
  all_goals
    cases h
    exact ⟨trail_nil, nofun, nofun⟩

/-! ## 2. Classes -/

theorem classLengthFrom_close (taken : Nat) (cs : Text) :
    classLengthFrom taken (']' :: cs) = some (taken + 1) := by
  unfold classLengthFrom
  rfl

theorem classLengthFrom_other {c : Char} (hclose : c ≠ ']') (hback : c ≠ '\\') (taken : Nat)
    (cs : Text) : classLengthFrom taken (c :: cs) = classLengthFrom (taken + 1) cs := by
  conv_lhs => unfold classLengthFrom
  rw [if_neg hclose, if_neg hback]

theorem classLengthFrom_plain {c : Char} (hc : isPlain c = true) (taken : Nat) (cs : Text) :
    classLengthFrom taken (c :: cs) = classLengthFrom (taken + 1) cs :=
  classLengthFrom_other (by rintro rfl; cases hc) (by rintro rfl; cases hc) taken cs

theorem classLengthFrom_append (cs : Text) : ∀ {w : Text} (taken : Nat),
    (∀ d ∈ w, isPlain d = true) →
    classLengthFrom taken (w ++ cs) = classLengthFrom (taken + w.length) cs
  | [], _, _ => rfl
  | d :: w, taken, h => by
      rw [List.cons_append, classLengthFrom_plain (h d List.mem_cons_self),
        classLengthFrom_append cs (taken + 1) fun e he => h e (List.mem_cons_of_mem d he),
        List.length_cons, Nat.add_assoc, Nat.add_comm 1]

theorem classLengthFrom_escape (taken : Nat) (c : Char) (cs : Text) :
    classLengthFrom taken ('\\' :: c :: cs) = classLengthFrom (taken + 2) cs := by
  conv_lhs => unfold classLengthFrom
  rfl

theorem classLengthFrom_trail {w : Text} (h : Trail w) (taken : Nat) (cs : Text) :
    classLengthFrom taken (w ++ cs) = classLengthFrom (taken + w.length) cs := by
  rcases h with hplain | ⟨high, low, rfl, -, -, hhigh, hlow⟩
  · exact classLengthFrom_append cs taken hplain
  · rw [List.append_assoc, classLengthFrom_append _ taken fun d hd =>
      isPlain_of_isHexDigit (hhigh d hd)]
    show classLengthFrom _ ('\\' :: 'u' :: (low ++ cs)) = _
    rw [classLengthFrom_escape, classLengthFrom_append _ _ fun d hd =>
      isPlain_of_isHexDigit (hlow d hd)]
    simp only [List.length_append, List.length_cons]
    congr 1
    omega

/-- The search for the bracket ends with the class. -/
theorem ClassBody.length {body : Text} (h : ClassBody body) (next : Text) : ∀ taken : Nat,
    classLengthFrom taken (body ++ next) = some (taken + body.length) := by
  induction h with
  | close => exact fun taken => classLengthFrom_close taken next
  | @escape c cs _ ih =>
    intro taken
    show classLengthFrom taken ('\\' :: c :: (cs ++ next)) = _
    rw [classLengthFrom_escape, ih, List.length_cons, List.length_cons]
    congr 1
    omega
  | @other c cs hclose hback _ ih =>
    intro taken
    show classLengthFrom taken (c :: (cs ++ next)) = _
    rw [classLengthFrom_other hclose hback, ih, List.length_cons]
    congr 1
    omega

theorem classBody_of_length : ∀ (limit : Nat) (t : Text) (taken n : Nat), t.length ≤ limit →
    classLengthFrom taken t = some n →
    ∃ body rest, t = body ++ rest ∧ n = taken + body.length ∧ ClassBody body
  | _, [], _, _, _, h => by cases h
  | 0, _ :: _, _, _, hlimit, _ => absurd hlimit (Nat.not_succ_le_zero _)
  | limit + 1, c :: t, taken, n, hlimit, h => by
      have hlength : t.length ≤ limit := Nat.le_of_succ_le_succ hlimit
      by_cases hclose : c = ']'
      · subst hclose
        rw [classLengthFrom_close] at h
        cases h
        exact ⟨[']'], t, rfl, rfl, .close⟩
      by_cases hback : c = '\\'
      · subst hback
        cases t with
        | nil => cases h
        | cons d t =>
          rw [classLengthFrom_escape] at h
          obtain ⟨body, rest, rfl, rfl, hbody⟩ :=
            classBody_of_length limit t (taken + 2) n (Nat.le_of_succ_le hlength) h
          refine ⟨'\\' :: d :: body, rest, rfl, ?_, hbody.escape d⟩
          simp only [List.length_cons]
          omega
      · rw [classLengthFrom_other hclose hback] at h
        obtain ⟨body, rest, rfl, rfl, hbody⟩ :=
          classBody_of_length limit t (taken + 1) n hlength h
        refine ⟨c :: body, rest, rfl, ?_, hbody.other hclose hback⟩
        simp only [List.length_cons]
        omega

theorem trail_octal (c : Char) (cs : Text) : Trail (cs.take (octalLength c cs - 1)) := by
  refine .inl fun d hd => isPlain_of_isOctalDigit ?_
  have hlength : octalLength c cs - 1 = leadingOctalDigits (if c.toNat ≤ '3'.toNat then 2 else 1) cs :=
    Nat.add_sub_cancel_left 1 _
  rw [hlength] at hd
  exact mem_take_of_takeWhile (leadingOctalDigits_le _ cs) hd

/-- What an escape in a class takes: nothing, before a `c`, or a character and what may follow. -/
theorem classEscape?_trail {c : Char} {cs : Text} {a : ClassAtom} {n : Nat}
    (h : classEscape? false false (c :: cs) = some (a, n)) :
    (n = 0 ∧ c = 'c') ∨ ∃ k, n = k + 1 ∧ k ≤ cs.length ∧ Trail (cs.take k) := by
  have hone : ∃ k, 1 = k + 1 ∧ k ≤ cs.length ∧ Trail (cs.take k) :=
    ⟨0, rfl, Nat.zero_le _, trail_nil⟩
  unfold classEscape? at h
  simp only [setEscape?, Bool.false_and, Bool.false_eq_true, if_false] at h
  cases hs : shorthand? c with
  | some s =>
    rw [hs] at h
    cases h
    exact .inr hone
  | none =>
    rw [hs] at h
    simp only [Option.map_none, Bool.and_false, Bool.false_eq_true, if_false] at h
    split_ifs at h with hb hc hdigit hoctal
    · cases h
      exact .inr hone
    · split at h
      · rename_i l ls
        split_ifs at h with hl
        · cases h
          refine .inr ⟨1, rfl, Nat.succ_le_succ (Nat.zero_le _), .inl fun d hd => ?_⟩
          obtain rfl : d = l := by simpa using hd
          have hne (e : Char) (he : e.isAlpha = false) (he' : e.isDigit = false) (he'' : e ≠ '_') :
              d ≠ e := by
            rintro rfl
            simp [he, he', he''] at hl
          simp [isPlain, hne '\\' rfl rfl (by decide), hne '[' rfl rfl (by decide),
            hne ']' rfl rfl (by decide), hne '(' rfl rfl (by decide)]
        · cases h
          exact .inl ⟨rfl, hc⟩
      · cases h
        exact .inl ⟨rfl, hc⟩
    · cases h
      have hpos := octalLength_pos c cs
      have hle := octalLength_le c cs
      exact .inr ⟨octalLength c cs - 1, by omega, by omega, trail_octal c cs⟩
    · cases h
      exact .inr hone
    · obtain ⟨r, hr, hrn⟩ := Option.map_eq_some_iff.1 h
      cases hrn
      obtain ⟨hle, htrail, -⟩ := charEscape?_trail hr
      exact .inr ⟨r.2, rfl, hle, htrail⟩

/-- **A class ends where the search for its bracket ends.** -/
theorem classLengthFrom_of_classAtoms? : ∀ (limit : Nat) (cs : Text) (taken : Nat)
    (atoms : List ClassAtom) (r : List ClassAtom × Nat), cs.length ≤ limit →
    classAtoms? false false 0 cs taken atoms = some r → classLengthFrom taken cs = some r.2
  | _, [], _, _, _, _, h => by simp [classAtoms?] at h
  | 0, _ :: _, _, _, _, hlimit, _ => absurd hlimit (Nat.not_succ_le_zero _)
  | limit + 1, c :: cs, taken, atoms, r, hlimit, h => by
      have hlength : cs.length ≤ limit := Nat.le_of_succ_le_succ hlimit
      have hnext (atom : ClassAtom) (hclose : c ≠ ']') (hback : c ≠ '\\')
          (h : classAtoms? false false 0 cs (taken + 1) (atom :: atoms) = some r) :
          classLengthFrom taken (c :: cs) = some r.2 := by
        rw [classLengthFrom_other hclose hback]
        exact classLengthFrom_of_classAtoms? limit cs _ _ r hlength h
      simp only [classAtoms?] at h
      by_cases hclose : c = ']'
      · rw [if_pos hclose] at h
        cases h
        rw [hclose, classLengthFrom_close]
      rw [if_neg hclose] at h
      by_cases hback : c = '\\'
      · rw [if_pos hback] at h
        cases cs with
        | nil => cases h
        | cons d ds =>
          cases he : classEscape? false false (d :: ds) with
          | none => rw [he] at h; cases h
          | some a =>
            obtain ⟨atom, n⟩ := a
            rw [he] at h
            simp only at h
            rw [hback, classLengthFrom_escape]
            rw [classAtoms?_skip] at h
            have hshort : ds.length ≤ limit := Nat.le_of_succ_le hlength
            rcases classEscape?_trail he with ⟨rfl, rfl⟩ | ⟨k, rfl, hk, htrail⟩
            · -- the backslash stands for itself, and a letter follows
              have hd := classLengthFrom_of_classAtoms? limit _ _ _ r hlength h
              rw [classLengthFrom_plain (by decide)] at hd
              exact hd
            · have hd := classLengthFrom_of_classAtoms? limit _ _ _ r (by
                simp only [List.drop_succ_cons, List.length_drop]
                omega) h
              rw [List.drop_succ_cons] at hd
              conv_lhs => rw [← List.take_append_drop k ds]
              rw [classLengthFrom_trail htrail, List.length_take, Nat.min_eq_left hk, ← hd]
              congr 1
              omega
      rw [if_neg hback] at h
      by_cases hdash : c = '-'
      · rw [if_pos hdash] at h
        exact hnext _ hclose hback h
      · rw [if_neg hdash] at h
        exact hnext _ hclose hback h

theorem classLengthFrom_of_class? {cs : Text} {l : Lexeme} {n : Nat}
    (h : class? false false cs = some (l, n)) : classLengthFrom 0 cs = some n := by
  obtain ⟨negated, body, a, sets, hbody, ha, -, hr⟩ := class?_eq_some_iff.1 h
  obtain ⟨-, rfl⟩ := Prod.mk.inj hr
  rcases hbody with ⟨rfl, rfl, -⟩ | ⟨rfl, rfl⟩
  · exact classLengthFrom_of_classAtoms? _ cs 0 [] a (Nat.le_refl _) ha
  · rw [classLengthFrom_plain (by decide)]
    exact classLengthFrom_of_classAtoms? _ body 1 [] a (Nat.le_refl _) ha

/-! ## 3. Groups that do not capture -/

theorem takeWhile_append_cons {q : Char → Bool} {w : Text} (hw : ∀ d ∈ w, q d = true) {c : Char}
    (hc : q c = false) (cs : Text) : (w ++ c :: cs).takeWhile q = w := by
  rw [List.takeWhile_append_of_pos hw, List.takeWhile_cons, hc]
  exact List.append_nil w

/-- What is read as an opening of a group, but not as that of a named one, without what follows. -/
structure Opens (kind : Opening) (cs : Text) : Prop where
  kind_ne : ∀ name, kind ≠ .capture name
  plain : ∀ d ∈ cs, isPlain d = true
  opening : ∀ t, opening? ('?' :: (cs ++ t)) = some (kind, cs.length + 1)

theorem opens_of_modifiers? {cs : Text} {kind : Opening} {n : Nat}
    (h : modifiers? cs = some (kind, n)) (hless : cs.head? ≠ some '<') (heq : cs.head? ≠ some '=')
    (hnot : cs.head? ≠ some '!') :
    ∃ w rest, cs = w ++ rest ∧ w.length = n ∧ Opens kind w := by
  have hplain (q : Char → Bool) (hq : q = fun c => c == 'i' || c == 'm' || c == 's') (t : Text) :
      ∀ d ∈ t.takeWhile q, isPlain d = true ∧ q d = true := by
    intro d hd
    have hqd := List.all_eq_true.1 List.all_takeWhile d hd
    refine ⟨?_, hqd⟩
    rw [hq] at hqd
    simp only [Bool.or_eq_true, beq_iff_eq] at hqd
    rcases hqd with (rfl | rfl) | rfl <;> rfl
  have hopen {w : Text} (hw : ∀ t, modifiers? (w ++ t) = some (kind, w.length))
      (hne : w ≠ []) (hless : w.head? ≠ some '<') (heq : w.head? ≠ some '=')
      (hnot : w.head? ≠ some '!') (t : Text) : opening? ('?' :: (w ++ t)) =
        some (kind, w.length + 1) := by
    obtain ⟨c, w, rfl⟩ := List.exists_cons_of_ne_nil hne
    have hless' : c ≠ '<' := fun hc => hless (by rw [hc]; rfl)
    have heq' : c ≠ '=' := fun hc => heq (by rw [hc]; rfl)
    have hnot' : c ≠ '!' := fun hc => hnot (by rw [hc]; rfl)
    have hmodifiers := hw t
    rw [List.cons_append] at hmodifiers ⊢
    simp [opening?, hless', heq', hnot', hmodifiers]
  have hhead {w rest : Text} (hne : w ≠ []) : w.head? = (w ++ rest).head? := by
    obtain ⟨c, w, rfl⟩ := List.exists_cons_of_ne_nil hne
    rfl
  unfold modifiers? at h
  simp only at h
  generalize hq : (fun c : Char => c == 'i' || c == 'm' || c == 's') = q at h
  have hsplit := takeWhile_append_drop q cs
  have hadd := hplain q hq.symm cs
  generalize cs.takeWhile q = add at h hsplit hadd
  have hcolon : q ':' = false := by rw [← hq]; rfl
  have hdash : q '-' = false := by rw [← hq]; rfl
  split at h
  · rename_i rest hdrop
    split at h
    · rename_i hdistinct
      cases h
      rw [hdrop] at hsplit
      have hcs : cs = (add ++ [':']) ++ rest := by rw [hsplit]; simp
      have hne : add ++ [':'] ≠ [] := by simp
      rw [hcs, ← hhead hne] at hless heq hnot
      refine ⟨add ++ [':'], rest, hcs, by simp, by simp, ?_, hopen (fun t => ?_) hne hless heq hnot⟩
      · intro d hd
        rcases List.mem_append.1 hd with hd | hd
        · exact (hadd d hd).1
        · rw [List.mem_singleton.1 hd]
          rfl
      · have htake := takeWhile_append_cons (fun d hd => (hadd d hd).2) hcolon t
        unfold modifiers?
        simp only [hq, List.append_assoc, List.singleton_append, htake, List.drop_left]
        rw [if_pos hdistinct]
        simp
    · cases h
  · rename_i rest hdrop
    have hrest := takeWhile_append_drop q rest
    have hremove := hplain q hq.symm rest
    generalize rest.takeWhile q = remove at h hrest hremove
    split at h
    · rename_i hcond
      cases h
      obtain ⟨hclose, hall, hdistinct⟩ := hcond
      obtain ⟨tail, htail⟩ := List.head?_eq_some_iff.1 hclose
      rw [htail] at hrest
      rw [hdrop, hrest] at hsplit
      have hcs : cs = (add ++ '-' :: (remove ++ [':'])) ++ tail := by rw [hsplit]; simp
      have hne : add ++ '-' :: (remove ++ [':']) ≠ [] := by simp
      rw [hcs, ← hhead hne] at hless heq hnot
      refine ⟨add ++ '-' :: (remove ++ [':']), tail, hcs, ?_, by simp, ?_,
        hopen (fun t => ?_) hne hless heq hnot⟩
      · simp only [List.length_append, List.length_cons, List.length_nil]
        omega
      · intro d hd
        simp only [List.mem_append, List.mem_cons, List.not_mem_nil, or_false] at hd
        rcases hd with hd | rfl | hd | rfl
        · exact (hadd d hd).1
        · rfl
        · exact (hremove d hd).1
        · rfl
      · have htake := takeWhile_append_cons (fun d hd => (hadd d hd).2) hdash (remove ++ ':' :: t)
        have htake' := takeWhile_append_cons (fun d hd => (hremove d hd).2) hcolon t
        unfold modifiers?
        simp only [hq, List.append_assoc, List.cons_append, List.nil_append, htake, List.drop_left,
          htake', List.head?_cons, true_and]
        rw [if_pos ⟨hall, hdistinct⟩]
        simp only [List.length_append, List.length_cons, List.length_nil]
        congr 2
    · cases h
  · cases h

/-- What a parenthesis opens: a capturing group before anything but a question mark, a named one, or
a group that does not capture. -/
theorem opening?_form {cs : Text} {kind : Opening} {n : Nat} (h : opening? cs = some (kind, n)) :
    (kind = .capture none ∧ n = 0 ∧ cs.head? ≠ some '?') ∨ (∃ name, kind = .capture (some name)) ∨
      ∃ w rest, cs = '?' :: (w ++ rest) ∧ n = w.length + 1 ∧ Opens kind w := by
  unfold opening? at h
  split at h
  · rename_i rest
    cases h
    exact .inr (.inr ⟨['='], rest, rfl, rfl, nofun, List.all_eq_true.1 rfl, fun t => rfl⟩)
  · rename_i rest
    cases h
    exact .inr (.inr ⟨['!'], rest, rfl, rfl, nofun, List.all_eq_true.1 rfl, fun t => rfl⟩)
  · rename_i rest
    cases h
    exact .inr (.inr ⟨['<', '='], rest, rfl, rfl, nofun, List.all_eq_true.1 rfl, fun t => rfl⟩)
  · rename_i rest
    cases h
    exact .inr (.inr ⟨['<', '!'], rest, rfl, rfl, nofun, List.all_eq_true.1 rfl, fun t => rfl⟩)
  · obtain ⟨r, -, hr⟩ := Option.map_eq_some_iff.1 h
    cases hr
    exact .inr (.inl ⟨_, rfl⟩)
  · rename_i rest heq hnot hbehind hnotBehind hless
    obtain ⟨r, hr, hkind⟩ := Option.map_eq_some_iff.1 h
    obtain ⟨rfl, rfl⟩ := Prod.mk.inj hkind
    have hhead {c : Char} (hc : ∀ t, rest = c :: t → False) : rest.head? ≠ some c := by
      intro hc'
      obtain ⟨t, ht⟩ := List.head?_eq_some_iff.1 hc'
      exact hc t ht
    obtain ⟨w, tail, hw, hlength, hopens⟩ :=
      opens_of_modifiers? hr (hhead hless) (hhead heq) (hhead hnot)
    exact .inr (.inr ⟨w, tail, by rw [hw], by rw [hlength], hopens⟩)
  · rename_i hquestion
    cases h
    refine .inl ⟨rfl, rfl, fun hq => ?_⟩
    obtain ⟨t, ht⟩ := List.head?_eq_some_iff.1 hq
    exact hquestion t ht

/-! ## 4. Words -/

/-- A lexeme that is neither a number nor the opening of a capturing group. -/
def Still (l : Lexeme) : Prop :=
  (∀ digits, l ≠ .decimal digits) ∧ ∀ name, l ≠ .opening (.capture name)

/-- The forms of words before a text. -/
inductive Form (next : Text) : Word → Prop where
  /-- The parenthesis of a capturing group. -/
  | capture (head : next.head? ≠ some '?') : Form next ⟨['('], .opening (.capture none)⟩
  /-- A backslash and a number that does not begin with zero. -/
  | number {digits : Text} (ne_nil : digits ≠ []) (isDigit : ∀ d ∈ digits, d.isDigit = true)
      (not_zero : digits.head? ≠ some '0') (head : next.head?.any Char.isDigit = false) :
      Form next (numberWord digits)
  /-- Plain characters, or a closing bracket. -/
  | plain {c : Char} {cs : Text} {l : Lexeme} (still : Still l)
      (first : isPlain c = true ∨ c = ']') (plain : ∀ d ∈ cs, isPlain d = true) :
      Form next ⟨c :: cs, l⟩
  /-- The opening of a group that does not capture. -/
  | opens {kind : Opening} {cs : Text} (opens : Opens kind cs) :
      Form next ⟨'(' :: '?' :: cs, .opening kind⟩
  /-- An escape. Digits that it needs are its own. -/
  | escape {c : Char} {cs : Text} {l : Lexeme} (still : Still l) (digit : c.isDigit = true → c = '0')
      (trail : Trail cs) (kept : isKept false c (cs ++ next) = true → isKept false c cs = true) :
      Form next ⟨'\\' :: c :: cs, l⟩
  /-- A backslash before a `c` that escapes no letter. -/
  | lone {l : Lexeme} (still : Still l) {cs : Text} (next_eq : next = 'c' :: cs)
      (head : cs.head?.any Char.isAlpha = false) : Form next ⟨['\\'], l⟩
  /-- A class. -/
  | set {body : Text} {l : Lexeme} (still : Still l) (closes : ClassBody body) :
      Form next ⟨'[' :: body, l⟩

theorem still_quantifier {min : Nat} {max : Option Nat} {cs : Text} {n m : Nat} {l : Lexeme}
    (h : quantifier? min max cs n = some (l, m)) : Still l := by
  unfold quantifier? at h
  split at h
  · split at h
    · cases h
      exact ⟨nofun, nofun⟩
    · cases h
      exact ⟨nofun, nofun⟩
  · cases h

/-- What a quantifier takes is plain if its bounds are. -/
theorem plain_quantifier {min : Nat} {max : Option Nat} {cs : Text} {n m : Nat} {l : Lexeme}
    (h : quantifier? min max cs n = some (l, m)) (hplain : ∀ d ∈ cs.take n, isPlain d = true) :
    ∀ d ∈ cs.take m, isPlain d = true := by
  unfold quantifier? at h
  split at h
  · split at h
    · rename_i hquestion
      cases h
      intro d hd
      rw [List.take_add_one, List.mem_append] at hd
      rcases hd with hd | hd
      · exact hplain d hd
      · rw [← List.head?_drop, hquestion] at hd
        obtain rfl : d = '?' := by simpa using hd
        rfl
    · cases h
      exact hplain
  · cases h

/-- The escapes outside of classes. -/
theorem escape?_form {c : Char} {cs : Text} {l : Lexeme} {n : Nat}
    (h : escape? false false (c :: cs) = some (l, n)) :
    (∃ digits, l = .decimal digits) ∨ (Still l ∧ n = 0 ∧ c = 'c' ∧
      cs.head?.any Char.isAlpha = false) ∨
      ∃ k, n = k + 1 ∧ k ≤ cs.length ∧ Still l ∧ (c.isDigit = true → c = '0') ∧
        Trail (cs.take k) ∧ (isKept false c cs = true → isKept false c (cs.take k) = true) := by
  have hone {l : Lexeme} (hl : Still l) (hc : c.isDigit = true → c = '0')
      (hkept : isKept false c cs = true → isKept false c [] = true) :
      ∃ k, 1 = k + 1 ∧ k ≤ cs.length ∧ Still l ∧ (c.isDigit = true → c = '0') ∧
        Trail (cs.take k) ∧ (isKept false c cs = true → isKept false c (cs.take k) = true) :=
    ⟨0, rfl, Nat.zero_le _, hl, hc, trail_nil, hkept⟩
  unfold escape? at h
  simp only [setEscape?, Bool.false_and, Bool.false_eq_true, if_false] at h
  cases hs : shorthand? c with
  | some s =>
    rw [hs] at h
    cases h
    refine .inr (.inr (hone ⟨by simp, by simp⟩ (fun hc => ?_) fun _ => ?_))
    · unfold shorthand? at hs
      split at hs
      all_goals first | cases hc | cases hs
    · unfold shorthand? at hs
      split at hs
      all_goals first | rfl | cases hs
  | none =>
    rw [hs] at h
    simp only [Option.map_none, Bool.or_self, Bool.and_false, Bool.false_eq_true, if_false] at h
    by_cases hb : c = 'b'
    · rw [if_pos hb] at h
      cases h
      subst hb
      exact .inr (.inr (hone ⟨by simp, by simp⟩ (by decide) id))
    rw [if_neg hb] at h
    by_cases hB : c = 'B'
    · rw [if_pos hB] at h
      cases h
      subst hB
      exact .inr (.inr (hone ⟨by simp, by simp⟩ (by decide) id))
    rw [if_neg hB] at h
    by_cases hc : c = 'c'
    · rw [if_pos hc] at h
      split at h
      · rename_i a as
        split at h
        · rename_i halpha
          cases h
          subst hc
          refine .inr (.inr ⟨1, rfl, Nat.succ_le_succ (Nat.zero_le _), ⟨by simp, by simp⟩, by decide,
            .inl fun d hd => ?_, id⟩)
          obtain rfl : d = a := by simpa using hd
          have hne (e : Char) (he : e.isAlpha = false) : d ≠ e := by
            rintro rfl
            rw [he] at halpha
            cases halpha
          simp [isPlain, hne '\\' rfl, hne '[' rfl, hne ']' rfl, hne '(' rfl]
        · rename_i halpha
          cases h
          exact .inr (.inl ⟨⟨by simp, by simp⟩, rfl, hc, by simpa using halpha⟩)
      · cases h
        exact .inr (.inl ⟨⟨by simp, by simp⟩, rfl, hc, rfl⟩)
    rw [if_neg hc] at h
    by_cases h0 : c = '0'
    · rw [if_pos h0] at h
      cases h
      have hpos := octalLength_pos c cs
      have hle := octalLength_le c cs
      subst h0
      exact .inr (.inr ⟨octalLength '0' cs - 1, by omega, by omega, ⟨by simp, by simp⟩, fun _ => rfl,
        trail_octal '0' cs, fun _ => rfl⟩)
    rw [if_neg h0] at h
    by_cases hdigit : c.isDigit = true
    · rw [if_pos hdigit] at h
      cases h
      exact .inl ⟨_, rfl⟩
    rw [if_neg hdigit] at h
    obtain ⟨r, hr, hrn⟩ := Option.map_eq_some_iff.1 h
    cases hrn
    obtain ⟨hle, htrail, hu, hx⟩ := charEscape?_trail hr
    refine .inr (.inr ⟨r.2, rfl, hle, ⟨by simp, by simp⟩, fun h => absurd h hdigit, htrail, ?_⟩)
    unfold isKept
    rw [if_neg hdigit, if_neg hdigit]
    by_cases hcu : c = 'u'
    · rw [if_pos hcu, if_pos hcu, decide_eq_true_eq, decide_eq_true_eq]
      exact hu hcu
    rw [if_neg hcu, if_neg hcu]
    by_cases hcx : c = 'x'
    · rw [if_pos hcx, if_pos hcx, decide_eq_true_eq, decide_eq_true_eq]
      exact hx hcx
    rw [if_neg hcx, if_neg hcx, if_neg hc, if_neg hc]
    exact id

/-- **A word has one of the forms**, unless it opens a named group. -/
theorem Form.of_fits {w : Word} {next : Text} (h : w.Fits next)
    (hname : ∀ name, w.lexeme ≠ .opening (.capture (some name))) : Form next w := by
  obtain ⟨c, cs, htext, hl⟩ := h.text_eq
  obtain ⟨text, l⟩ := w
  simp only at htext hl hname
  subst htext
  have htake : (cs ++ next).take cs.length = cs := List.take_left
  have hzero (hcs : 0 = cs.length) : cs = [] := List.length_eq_zero_iff.1 hcs.symm
  have hsingle (hl : Still l) (hc : isPlain c = true ∨ c = ']') (hcs : 0 = cs.length) :
      Form next ⟨c :: cs, l⟩ := .plain hl hc (by rw [hzero hcs]; nofun)
  have hquantifier {min : Nat} {max : Option Nat} {n : Nat} (hc : isPlain c = true)
      (hbounds : ∀ d ∈ (cs ++ next).take n, isPlain d = true)
      (hq : quantifier? min max (cs ++ next) n = some (l, cs.length)) : Form next ⟨c :: cs, l⟩ := by
    refine .plain (still_quantifier hq) (.inl hc) fun d hd => plain_quantifier hq hbounds d ?_
    rw [htake]
    exact hd
  unfold lexeme? at hl
  split at hl
  · obtain ⟨rfl, hcs⟩ := Prod.mk.inj (Option.some.inj hl)
    exact hsingle ⟨nofun, nofun⟩ (.inl rfl) hcs
  · obtain ⟨rfl, hcs⟩ := Prod.mk.inj (Option.some.inj hl)
    exact hsingle ⟨nofun, nofun⟩ (.inl rfl) hcs
  · obtain ⟨rfl, hcs⟩ := Prod.mk.inj (Option.some.inj hl)
    exact hsingle ⟨nofun, nofun⟩ (.inl rfl) hcs
  · obtain ⟨rfl, hcs⟩ := Prod.mk.inj (Option.some.inj hl)
    exact hsingle ⟨nofun, nofun⟩ (.inl rfl) hcs
  · obtain ⟨rfl, hcs⟩ := Prod.mk.inj (Option.some.inj hl)
    exact hsingle ⟨nofun, nofun⟩ (.inl rfl) hcs
  · obtain ⟨⟨kind, n⟩, hkind, hn⟩ := Option.map_eq_some_iff.1 hl
    obtain ⟨rfl, rfl⟩ := Prod.mk.inj hn
    rcases opening?_form hkind with ⟨hcapture, hcs, hhead⟩ | ⟨name, hnamed⟩ | ⟨w, rest, hcs, hw, hopens⟩
    · obtain rfl := hzero hcs.symm
      subst hcapture
      exact .capture hhead
    · exact absurd (congrArg Lexeme.opening hnamed) (hname name)
    · have hbody : cs = '?' :: w := by
        rw [← htake, hcs, hw, List.take_succ_cons, List.take_left]
      rw [hbody]
      exact .opens hopens
  · have hstill : Still l := by
      obtain ⟨negated, body, a, sets, -, -, -, hr⟩ := class?_eq_some_iff.1 hl
      obtain ⟨rfl, -⟩ := Prod.mk.inj hr
      exact ⟨nofun, nofun⟩
    refine .set hstill ?_
    obtain ⟨body, rest, hsplit, hn, hbody⟩ :=
      classBody_of_length _ _ 0 _ (Nat.le_refl _) (classLengthFrom_of_class? hl)
    rw [Nat.zero_add] at hn
    have hcs : body = cs := by rw [← htake, hn, hsplit, List.take_left]
    exact hcs ▸ hbody
  · exact hquantifier rfl (fun d hd => by simp at hd) hl
  · exact hquantifier rfl (fun d hd => by simp at hd) hl
  · exact hquantifier rfl (fun d hd => by simp at hd) hl
  · split at hl
    · rename_i min max n hbounds
      exact hquantifier rfl (plain_bracedBounds hbounds).2 hl
    · simp only [Bool.false_eq_true, if_false, Option.some.injEq, Prod.mk.injEq] at hl
      obtain ⟨rfl, hcs⟩ := hl
      exact hsingle ⟨nofun, nofun⟩ (.inl rfl) hcs
  · simp only [Bool.false_eq_true, if_false, Option.some.injEq, Prod.mk.injEq] at hl
    obtain ⟨rfl, hcs⟩ := hl
    exact hsingle ⟨nofun, nofun⟩ (.inl rfl) hcs
  · simp only [Bool.false_eq_true, if_false, Option.some.injEq, Prod.mk.injEq] at hl
    obtain ⟨rfl, hcs⟩ := hl
    exact hsingle ⟨nofun, nofun⟩ (.inr rfl) hcs
  · cases hrest : cs ++ next with
    | nil => rw [hrest] at hl; cases hl
    | cons d ds =>
      rw [hrest] at hl
      rcases escape?_form hl with ⟨digits, rfl⟩ | ⟨hstill, hn, rfl, halpha⟩ |
        ⟨k, hk, hle, hstill, hdigit, htrail, hkept⟩
      · obtain ⟨hword, hne, hdigits, hnot, hhead⟩ := h.of_decimal rfl
        rw [hword]
        exact .number hne hdigits hnot hhead
      · obtain rfl := List.length_eq_zero_iff.1 hn
        exact .lone hstill hrest halpha
      · cases cs with
        | nil => cases hk
        | cons e es =>
          rw [List.cons_append, List.cons.injEq] at hrest
          obtain ⟨rfl, hes⟩ := hrest
          have hlen : k = es.length := Nat.succ.inj hk.symm
          have htake : ds.take k = es := by rw [← hes, hlen, List.take_left]
          rw [htake] at htrail hkept
          refine .escape hstill hdigit htrail ?_
          rw [hes]
          exact hkept
  · rename_i h1 h2 h3 h4 h5 h6 h7 h8 h9 h10 h11 h12 h13 h14
    obtain ⟨rfl, hcs⟩ := Prod.mk.inj (Option.some.inj hl)
    refine hsingle ⟨nofun, nofun⟩ (.inl ?_) hcs
    simp only [isPlain, Bool.and_eq_true, bne_iff_ne]
    exact ⟨⟨⟨h14, h7⟩, h13⟩, h6⟩

end ExtensibleRegex
