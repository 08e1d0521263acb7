import ExtensibleRegex.Proofs.Expansion.Fixed
import Mathlib.Tactic

/-!
# What is written for a pattern is fixed

What the built-in tokens write for a pattern is a text that they would leave as it is. This holds of
patterns without comments and blanks, for which a token may write nothing at all, and without a
named group whose parenthesis comes to stand before a question mark:

* `Writes` lists what a token writes, and `Reads.front` says that nothing else comes to the front of
  what is written than was at the front of the pattern;
* so each piece is fixed before what is written for the others (`Writes.fixed`, `fixed_of_copied`),
  and all of them together are (`Reads.fixed`).
-/

namespace ExtensibleRegex

open Native

/-- How an inline comment begins. -/
def commentOpener : Text := ['(', '?', '#']

namespace Reader

variable {r : Reader} {scope : Scope} {ledger : Ledger} {behind t next : Text} {piece : Segment}
  {n : Nat} {pieces : List Segment}

/-! ## 1. Groups that stay groups -/

/-- Behind the parenthesis of no named group a question mark comes to stand. -/
def OpensApart : List Segment → Prop
  | [] => True
  | .opens (some _) :: pieces => (render pieces).head? ≠ some '?' ∧ OpensApart pieces
  | _ :: pieces => OpensApart pieces

instance decidableOpensApart : DecidablePred OpensApart
  | [] => inferInstanceAs (Decidable True)
  | .opens (some _) :: pieces =>
    have := decidableOpensApart pieces
    inferInstanceAs (Decidable (_ ∧ _))
  | .opens none :: pieces => decidableOpensApart pieces
  | .copied _ :: pieces => decidableOpensApart pieces
  | .written _ :: pieces => decidableOpensApart pieces

theorem OpensApart.tail (h : OpensApart (piece :: pieces)) : OpensApart pieces := by
  cases piece with
  | opens name =>
    cases name with
    | none => exact h
    | some name => exact h.2
  | copied w => exact h
  | written w => exact h

/-! ## 2. What tokens write -/

/-- What a token writes for the text before it, if it does not take a comment or blanks. -/
inductive Writes (r : Reader) (scope : Scope) (ledger : Ledger) (t : Text) : Segment → Nat → Prop where
  | escape {piece : Segment} {n : Nat} (answer : r.escape scope ledger t = .ok (some (piece, n))) :
      Writes r scope ledger t piece n
  | named {name : Text} {n : Nat} (scope_eq : scope = .pattern) :
      Writes r scope ledger t (.opens (some name)) n
  | capture {cs : Text} (scope_eq : scope = .pattern) (read : t = '(' :: cs)
      (head : cs.head? ≠ some '?') : Writes r scope ledger t (.opens none) 1
  | uncaptured {n : Nat} (scope_eq : scope = .pattern) :
      Writes r scope ledger t (.written ['(', '?', ':']) n
  | boundaries {n : Nat} (scope_eq : scope = .pattern) :
      Writes r scope ledger t (.written "\\b\\B".toList) n
  | anyCharacter {n : Nat} (scope_eq : scope = .pattern) :
      Writes r scope ledger t (.written "[\\s\\S]".toList) n

theorem writes_of_parenthesis (hcomment : ¬commentOpener <+: t)
    (h : r.parenthesis ledger behind t = .ok (some (piece, n))) :
    r.Writes .pattern ledger t piece n := by
  unfold parenthesis at h
  split at h
  · rename_i e he
    obtain ⟨cs, rfl, hhead, rfl⟩ := Trigger.of_openPlain he
    split at h
    · cases h
      exact .uncaptured rfl
    · cases h
      exact .capture rfl rfl hhead
  split at h
  · simp only at h
    split at h
    · cases h
    split at h
    · cases h
    split at h
    · cases h
    · cases h
      exact .named rfl
  split at h
  · rename_i e he
    obtain ⟨w, rest, -, rfl, -⟩ := Trigger.of_comment he
    exact absurd (List.prefix_append _ _) hcomment
  split at h
  · cases h
  · cases h

/-- **What a token writes**, where no comment opens and blanks are kept. -/
theorem writes_of_token? (hx : r.flags.contains 'x' = false) (hcomment : ¬commentOpener <:+: t)
    (h : r.token? scope ledger behind t = .ok (some (piece, n))) : r.Writes scope ledger t piece n := by
  unfold token? at h
  split at h
  · exact .escape h
  split at h
  · cases h
  split at h
  · exact writes_of_parenthesis (fun hbegins => hcomment hbegins.isInfix) h
  split at h
  · unfold bareClass at h
    split at h
    · cases h
      split
      · exact .boundaries rfl
      · exact .anyCharacter rfl
    · cases h
  split at h
  · unfold dot at h
    split at h
    · cases h
      exact .anyCharacter rfl
    · cases h
  · unfold blank at h
    rw [hx] at h
    cases h

/-- What a token writes begins with a backslash, a bracket or a parenthesis. -/
theorem Writes.head (h : r.Writes scope ledger t piece n) :
    ∃ c cs, piece.text = c :: cs ∧ ¬Mild [c] := by
  cases h with
  | escape answer =>
    cases of_escape answer with
    | number => exact ⟨_, _, rfl, by decide⟩
    | name => exact ⟨_, _, rfl, by decide⟩
    | unit => exact ⟨_, _, rfl, by decide⟩
    | point => exact ⟨_, _, rfl, by decide⟩
    | inside => exact ⟨_, _, rfl, by decide⟩
  | named => exact ⟨_, _, rfl, by decide⟩
  | capture => exact ⟨_, _, rfl, by decide⟩
  | uncaptured => exact ⟨_, _, rfl, by decide⟩
  | boundaries => exact ⟨_, _, rfl, by decide⟩
  | anyCharacter => exact ⟨_, _, rfl, by decide⟩

/-- **What is written begins as the text does**, as far as it is mild. -/
theorem Reads.front (hx : r.flags.contains 'x' = false)
    (h : r.Reads scope ledger behind t pieces) (hcomment : ¬commentOpener <:+: t) :
    Front (render pieces) t := by
  induction h with
  | nil => exact .refl []
  | @cons scope ledger behind t piece n pieces hne hpos hfirst hrest ih =>
    have hlater := ih fun hopener => hcomment (hopener.trans (List.drop_suffix n t).isInfix)
    rcases segment_eq_ok hfirst with htoken | ⟨-, rfl, rfl⟩
    · obtain ⟨c, cs, htext, hmild⟩ := (writes_of_token? hx hcomment htoken).head
      intro v hv hbegins
      cases v with
      | nil => exact List.nil_prefix
      | cons d v =>
        have hbegins' : d :: v <+: piece.text ++ render pieces := hbegins
        rw [htext, List.cons_append] at hbegins'
        obtain ⟨rfl, -⟩ := List.cons_prefix_cons.1 hbegins'
        have hd : Mild [d] := fun e he => by
          rw [List.mem_singleton.1 he]
          exact hv d List.mem_cons_self
        exact absurd hd hmild
    · have hcopied := hlater.append (t.take (verbatimLength scope t))
      rwa [List.take_append_drop] at hcopied

/-! ## 3. Pieces before what is written for the others -/

/-- What the tokens for escapes write is fixed. -/
theorem fixed_of_escape (h : r.escape scope ledger t = .ok (some (piece, n)))
    (hfront : Front next (t.drop n))
    (rest : Fixed (r.flags.contains 'u') scope ledger.groupCount next) :
    Fixed (r.flags.contains 'u') scope ledger.groupCount (piece.text ++ next) := by
  have hwhile {ds x : Text} (hds : ∀ c ∈ ds, c.isDigit = true)
      (hx : x.head?.any Char.isDigit = false) : (ds ++ x).takeWhile Char.isDigit = ds := by
    cases x with
    | nil => rw [List.append_nil, List.takeWhile_eq_self_iff.2 hds]
    | cons c x => exact takeWhile_append_stop hds hx x
  have hplain {ds : Text} (hds : ∀ c ∈ ds, c.isDigit = true) : ∀ c ∈ ds, isPlain c = true :=
    fun c hc => isPlain_of_isDigit (hds c hc)
  cases of_escape h with
  | @number w u ne_nil isDigit ends stands read =>
    obtain ⟨d, ds, rfl⟩ := List.exists_cons_of_ne_nil ne_nil
    have hd := isDigit d List.mem_cons_self
    have hds : ∀ c ∈ ds, c.isDigit = true := fun c hc => isDigit c (List.mem_cons_of_mem _ hc)
    have hdrop : t.drop ((d :: ds).length + 1) = u := by
      rw [read]
      exact List.drop_left
    rw [hdrop] at hfront
    have hnext := hfront.not_digit ends
    show Fixed _ scope _ ('\\' :: d :: (ds ++ next))
    cases scope with
    | pattern => exact .number hd (by rwa [hwhile hds hnext]) (rest.append (hplain hds))
    | charClass =>
      rcases stands with ⟨hscope, -⟩ | hzero
      · cases hscope
      · cases hzero
        exact .escape (fun _ => rfl) (by simp [isKept, hnext]) rest
  | @name w u m isNameChar scope_eq refers read =>
    subst scope_eq
    obtain ⟨hpos, hle⟩ := referredGroup?_le refers
    obtain ⟨d, ds, hds⟩ := List.exists_cons_of_ne_nil (decimalText_ne_nil m)
    have hdigits : ∀ c ∈ d :: ds, c.isDigit = true := fun c hc =>
      isDigit_of_mem_decimalText (n := m) (by rw [hds]; exact hc)
    have htail : ∀ c ∈ ds, c.isDigit = true := fun c hc => hdigits c (List.mem_cons_of_mem _ hc)
    have hdrop : t.drop (3 + w.length + 1) = u := by
      have hcut : t = (['\\', 'k', '<'] ++ w ++ ['>']) ++ u := by rw [read]; simp
      rw [hcut]
      exact List.drop_left' (by simp; omega)
    rw [hdrop] at hfront
    have hstands : numberStands .pattern ledger.groupCount (d :: ds) := by
      rw [← hds]
      exact .inl ⟨rfl, head?_decimalText hpos, by rwa [readDigits_decimalText]⟩
    -- the empty group keeps the number apart from a digit, and without one there is no digit
    obtain ⟨apart, hapart, hfixed, hnext⟩ : ∃ apart : Text,
        apart = (if u.head?.any Char.isDigit = true then emptyGroup else []) ∧
        Fixed (r.flags.contains 'u') .pattern ledger.groupCount (apart ++ next) ∧
        (apart ++ next).head?.any Char.isDigit = false := by
      cases hu : u.head?.any Char.isDigit with
      | true => exact ⟨emptyGroup, rfl, rest.emptyGroup, rfl⟩
      | false => exact ⟨[], rfl, rest, hfront.not_digit hu⟩
    have hassoc : Segment.text (.written ('\\' :: decimalText m ++
        if u.head?.any Char.isDigit = true then emptyGroup else [])) ++ next =
        '\\' :: d :: (ds ++ (apart ++ next)) := by
      rw [← hapart, hds]
      simp [Segment.text]
    rw [hassoc]
    exact .number (hdigits d List.mem_cons_self) (by rwa [hwhile htail hnext])
      (hfixed.append (hplain htail))
  | @unit w u isHexDigit small read =>
    have hlength : (hexText 4 (readDigits 16 w)).length = 4 :=
      length_hexText (by decide) (Nat.lt_succ_of_le small)
    have hhex : 4 ≤ leadingHexDigits (hexText 4 (readDigits 16 w) ++ next) := by
      unfold leadingHexDigits
      rw [List.takeWhile_append_of_pos fun c hc => isHexDigit_of_mem_hexText hc,
        List.length_append, hlength]
      exact Nat.le_add_right 4 _
    exact .escape_append (fun hu => absurd hu (by decide)) (by simp [isKept, hhex])
      (fun c hc => isPlain_of_isHexDigit (isHexDigit_of_mem_hexText hc)) rest
  | @point w u isHexDigit unicode read =>
    rw [read, List.cons_append, List.cons_append, List.cons_append, List.nil_append] at h
    have hw : w ≠ [] := by
      rintro rfl
      have hrefused : r.escape scope ledger ('\\' :: 'u' :: '\x7b' :: ([] ++ '\x7d' :: u)) =
          .error (.invalidEscape ['\\', 'u']) := by cases scope <;> rfl
      rw [hrefused] at h
      cases h
    rw [escape_codePoint hw isHexDigit] at h
    split at h
    · cases h
    · rename_i hlarge
      split at h
      · -- a small code point would have been written with digits and no brace
        have hwritten := Segment.written.inj (Prod.mk.inj (Option.some.inj (Except.ok.inj h))).1
        have hdigits := (List.cons.inj (List.cons.inj hwritten).2).2
        have hbrace : '\x7b' ∈ hexText 4 (readDigits 16 w) := by
          rw [hdigits]
          exact List.mem_cons_self
        exact absurd (isHexDigit_of_mem_hexText hbrace) (by decide)
      · rename_i hsmall
        have hpoint := Fixed.point unicode hw isHexDigit (Nat.not_le.1 hsmall) (Nat.not_lt.1 hlarge)
          rest
        simpa [Segment.text] using hpoint
  | inside scope_eq read =>
    subst scope_eq
    exact .escape (fun hB => absurd hB (by decide)) rfl rest

/-- **What a token writes is fixed.** -/
theorem Writes.fixed (h : r.Writes scope ledger t piece n) (hfront : Front next (t.drop n))
    (hnamed : ∀ name, piece = .opens (some name) → next.head? ≠ some '?')
    (rest : Fixed (r.flags.contains 'u') (piece.scopeAfter scope) (piece.enter ledger).groupCount
      next) :
    Fixed (r.flags.contains 'u') scope ledger.groupCount (piece.text ++ next) := by
  cases h with
  | escape answer =>
    have hwritten : piece.scopeAfter scope = scope ∧ piece.enter ledger = ledger := by
      cases of_escape answer <;> exact ⟨rfl, rfl⟩
    rw [hwritten.1, hwritten.2] at rest
    exact fixed_of_escape answer hfront rest
  | @named name n scope_eq =>
    subst scope_eq
    have hcount : (ledger.push (some name)).groupCount = ledger.groupCount + 1 :=
      Mark.groupCount_push _ _
    exact .capture (hnamed name rfl) (hcount ▸ rest)
  | capture scope_eq read head =>
    subst scope_eq read
    have hcount : (ledger.push none).groupCount = ledger.groupCount + 1 := Mark.groupCount_push _ _
    exact .capture (hfront.head?_ne (by decide) head) (hcount ▸ rest)
  | uncaptured scope_eq =>
    subst scope_eq
    have hplain : Fixed (r.flags.contains 'u') .pattern ledger.groupCount (['?', ':'] ++ next) :=
      Fixed.append (by simp [isPlain]) rest
    exact .group rfl rfl (by simp) hplain
  | boundaries scope_eq =>
    subst scope_eq
    exact .escape (fun h => absurd h (by decide)) rfl
      (.escape (fun h => absurd h (by decide)) rfl rest)
  | anyCharacter scope_eq =>
    subst scope_eq
    exact .set rfl (.escape (fun h => absurd h (by decide)) rfl
      (.escape (fun h => absurd h (by decide)) rfl (.close rest)))

/-- What is written for a text with a question mark in front has one in front. -/
theorem Reads.head?_question (hx : r.flags.contains 'x' = false)
    (h : r.Reads .pattern ledger behind t pieces) (ht : t.head? = some '?') :
    (render pieces).head? = some '?' := by
  obtain ⟨cs, rfl⟩ := List.head?_eq_some_iff.1 ht
  cases h with
  | @cons _ _ _ _ piece n pieces hne hpos hfirst hrest =>
    have hblank : r.blank behind ('?' :: cs) = .ok none := by
      unfold blank
      rw [hx]
      rfl
    have hnone : r.token? .pattern ledger behind ('?' :: cs) = .ok none := by
      simp [token?, hblank]
    rw [segment_of_none hnone] at hfirst
    cases hfirst
    obtain ⟨w, hw, -⟩ := plain_verbatim '?' cs (by decide)
    show (List.take _ ('?' :: cs) ++ render pieces).head? = _
    rw [hw]
    rfl

/-- Where no token takes a parenthesis, a question mark follows, and not the name of a group. -/
theorem of_parenthesis_none {cs : Text} (h : r.parenthesis ledger behind ('(' :: cs) = .ok none) :
    cs.head? = some '?' ∧ Trigger.openNamed ('(' :: cs) = none := by
  unfold parenthesis at h
  split at h
  · split at h <;> cases h
  rename_i hplain
  have hhead : cs.head? = some '?' := by
    by_contra hhead
    have hfound : Trigger.openPlain ('(' :: cs) = some ⟨1, none⟩ := if_neg hhead
    rw [hfound] at hplain
    cases hplain
  split at h
  · simp only at h
    split at h
    · cases h
    split at h
    · cases h
    split at h <;> cases h
  · rename_i hnamed
    exact ⟨hhead, hnamed⟩

/-- **What is copied is fixed.** -/
theorem fixed_of_copied (hx : r.flags.contains 'x' = false) (hcomment : ¬commentOpener <:+: t)
    (hne : t ≠ []) (hnone : r.token? scope ledger behind t = .ok none)
    (hrest : r.Reads (Run.scopeAfter scope (t.take (verbatimLength scope t))) ledger
      ((t.take (verbatimLength scope t)).reverse ++ behind) (t.drop (verbatimLength scope t)) pieces)
    (hfront : Front (render pieces) (t.drop (verbatimLength scope t)))
    (rest : Fixed (r.flags.contains 'u') (Run.scopeAfter scope (t.take (verbatimLength scope t)))
      ledger.groupCount (render pieces)) :
    Fixed (r.flags.contains 'u') scope ledger.groupCount
      (t.take (verbatimLength scope t) ++ render pieces) := by
  obtain ⟨c, cs, rfl⟩ := List.exists_cons_of_ne_nil hne
  by_cases hescape : c = '\\'
  · subst hescape
    have hlength : verbatimLength scope ('\\' :: cs) = escapeLength scope cs + 1 := by
      cases scope <;> simp [verbatimLength, Nat.add_comm]
    have hscope (w : Text) : Run.scopeAfter scope ('\\' :: w) = scope := by
      cases scope <;> simp [Run.scopeAfter]
    rw [hlength, List.take_succ_cons, hscope] at rest
    rw [hlength, List.take_succ_cons]
    cases cs with
    | nil =>
      have hdrop : ['\\'].drop (verbatimLength scope ['\\']) = [] := by cases scope <;> rfl
      rw [hdrop] at hrest
      cases hrest with
      | nil => exact .lone
      | cons hne' => exact absurd rfl hne'
    | cons d ds =>
      have hescaped : r.escape scope ledger ('\\' :: d :: ds) = .ok none := by
        simpa [token?] using hnone
      obtain ⟨hdigit, hpoint, hrefused⟩ := of_escape_none hescaped
      obtain ⟨k, hk, hplain, hkept⟩ := isKept_copied scope hdigit hpoint hrefused (render pieces)
      rw [hk, List.take_succ_cons]
      exact .escape_append (fun hd => absurd hd (by simp [hdigit])) (hkept _) hplain rest
  · cases scope with
    | charClass =>
      have hlength : verbatimLength .charClass (c :: cs) = 1 := by simp [verbatimLength]
      rw [hlength] at rest ⊢
      by_cases hclose : c = ']'
      · subst hclose
        exact .close rest
      · have hscope : Run.scopeAfter .charClass [c] = .charClass := by
          simp [Run.scopeAfter, hclose]
        exact .inner hescape hclose (hscope ▸ rest)
    | pattern =>
      obtain ⟨w, hw, hplain, hmore⟩ := plain_verbatim c cs hescape
      have hsplit : cs = w ++ (c :: cs).drop (verbatimLength .pattern (c :: cs)) := by
        have hparts := List.take_append_drop (verbatimLength .pattern (c :: cs)) (c :: cs)
        rw [hw] at hparts
        exact (List.cons.inj hparts).2.symm
      rw [hw] at rest hrest ⊢
      have hfronts : Front (w ++ render pieces) cs := by
        have hafter := hfront.append w
        rwa [← hsplit] at hafter
      by_cases hopen : c = '['
      · subst hopen
        have hnil : w = [] := by
          by_contra hne'
          exact (hmore hne').1 rfl
        subst hnil
        exact .set (hfronts.isBare (isBare_of_bareClass (by simpa [token?] using hnone))) rest
      have hscope : Run.scopeAfter .pattern (c :: w) = .pattern := by
        cases w <;> simp [Run.scopeAfter, hopen]
      rw [hscope] at rest hrest
      have hlater : Fixed (r.flags.contains 'u') .pattern ledger.groupCount (w ++ render pieces) :=
        rest.append hplain
      by_cases hparen : c = '('
      · -- no group of the dialect opens here, so a question mark follows, and no name or comment
        subst hparen
        have hnone' : r.parenthesis ledger behind ('(' :: cs) = .ok none := by
          simpa [token?] using hnone
        obtain ⟨hhead, hnamed⟩ := of_parenthesis_none hnone'
        have hquestion : (w ++ render pieces).head? = some '?' := by
          cases w with
          | nil =>
            rw [List.nil_append] at hsplit ⊢
            exact hrest.head?_question hx (hsplit ▸ hhead)
          | cons d w =>
            rw [hsplit] at hhead
            exact hhead
        have hapart : ¬['?', '#'] <+: w ++ render pieces := fun hbegins =>
          hcomment (List.cons_prefix_cons.2 ⟨rfl, hfronts _ (by decide) hbegins⟩).isInfix
        exact .group hquestion (hfronts.openNamed hnamed) hapart hlater
      · by_cases hclose : c = ']'
        · subst hclose
          exact .close hlater
        · have hc : isPlain c = true := by simp [isPlain, hescape, hopen, hclose, hparen]
          exact .plain hc hlater

/-! ## 4. Whole patterns -/

/-- **What is written for a pattern is fixed**, if it has no comment or blanks and no named group
comes to stand before a question mark. -/
theorem Reads.fixed (hx : r.flags.contains 'x' = false)
    (h : r.Reads scope ledger behind t pieces) (hcomment : ¬commentOpener <:+: t)
    (hapart : OpensApart pieces) :
    Fixed (r.flags.contains 'u') scope ledger.groupCount (render pieces) := by
  induction h with
  | nil => exact .nil
  | @cons scope ledger behind t piece n pieces hne hpos hfirst hrest ih =>
    have hlater : ¬commentOpener <:+: t.drop n := fun hopener =>
      hcomment (hopener.trans (List.drop_suffix n t).isInfix)
    have hfront := hrest.front hx hlater
    have hfixed := ih hlater hapart.tail
    show Fixed _ scope _ (piece.text ++ render pieces)
    rcases segment_eq_ok hfirst with htoken | ⟨hnone, rfl, rfl⟩
    · refine (writes_of_token? hx hcomment htoken).fixed hfront (fun name hpiece => ?_) hfixed
      subst hpiece
      exact hapart.1
    · exact fixed_of_copied hx hcomment hne hnone hrest hfront hfixed

end Reader

end ExtensibleRegex
