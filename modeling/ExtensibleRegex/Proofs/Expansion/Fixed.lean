import ExtensibleRegex.Proofs.Combine.Rereading
import ExtensibleRegex.Proofs.Expansion.Items
import Mathlib.Tactic

/-!
# Texts that are read as they stand

A native pattern can be handed to a dialect once more. This file says of which texts the built-in
tokens, without flags of their own, change nothing:

* a text is `Fixed` when its escapes are kept, its numbers refer to groups that have opened, and a
  parenthesis before a question mark opens neither a named group nor a comment;
* a fixed text is read as pieces that make it up again, and no group of it is named (`Reader.reads_of_fixed`);
* leaving out repeated empty groups keeps a text fixed (`fixed_merged`).

What one text may go on with behind such a place is compared with another text by its `Front`.
-/

namespace ExtensibleRegex

open Native

/-! ## 1. Fronts -/

/-- A text with no character that tokens write by themselves. -/
def Mild (v : Text) : Prop := ∀ c ∈ v, c ≠ '\\' ∧ c ≠ '[' ∧ c ≠ '('

instance : DecidablePred Mild := fun v => List.decidableBAll _ v

theorem Mild.of_isPlain {v : Text} (h : ∀ c ∈ v, isPlain c = true) : Mild v := by
  intro c hc
  have hplain := h c hc
  simp only [isPlain, Bool.and_eq_true, bne_iff_ne] at hplain
  exact ⟨hplain.1.1.1, hplain.1.1.2, hplain.2⟩

/-- Whatever mild text the first one begins with, the second one does too. -/
def Front (a b : Text) : Prop := ∀ v, Mild v → v <+: a → v <+: b

theorem prefix_singleton {c : Char} {t : Text} : [c] <+: t ↔ t.head? = some c := by
  cases t with
  | nil => simp
  | cons d t => simp [eq_comm]

namespace Front

variable {a b : Text}

theorem refl (a : Text) : Front a a := fun _ _ h => h

/-- The same text may stand before both. -/
theorem append (h : Front a b) : ∀ w : Text, Front (w ++ a) (w ++ b)
  | [] => h
  | c :: w => fun v hv hbegins => by
      cases v with
      | nil => exact List.nil_prefix
      | cons d v =>
        obtain ⟨rfl, hrest⟩ := List.cons_prefix_cons.1 hbegins
        exact List.cons_prefix_cons.2
          ⟨rfl, h.append w v (fun e he => hv e (List.mem_cons_of_mem _ he)) hrest⟩

theorem head?_ne (h : Front a b) {c : Char} (hc : Mild [c]) (hne : b.head? ≠ some c) :
    a.head? ≠ some c :=
  fun ha => hne (prefix_singleton.1 (h [c] hc (prefix_singleton.2 ha)))

theorem not_digit (h : Front a b) (hb : b.head?.any Char.isDigit = false) :
    a.head?.any Char.isDigit = false := by
  cases a with
  | nil => rfl
  | cons c a =>
    rw [List.head?_cons, Option.any_some]
    by_contra hc
    rw [Bool.not_eq_false] at hc
    have hmild : Mild [c] := .of_isPlain fun d hd => by
      rw [List.mem_singleton.1 hd]
      exact isPlain_of_isDigit hc
    rw [prefix_singleton.1 (h [c] hmild (prefix_singleton.2 rfl)), Option.any_some, hc] at hb
    cases hb

/-- A class is bare only if the other one is. -/
theorem isBare (h : Front a b) (hb : isBare b = false) : isBare a = false := by
  have hbare (t : Text) : ExtensibleRegex.isBare t = true ↔ [']'] <+: t ∨ ['^', ']'] <+: t := by
    rw [prefix_singleton, List.prefix_iff_eq_take, eq_comm (a := ['^', ']'])]
    simp [ExtensibleRegex.isBare]
  rw [← Bool.not_eq_true, hbare] at hb ⊢
  exact fun ha => hb (ha.imp (h _ (by decide)) (h _ (by decide)))

/-- Behind a parenthesis a name stands only if it does in the other text. -/
theorem openNamed (h : Front a b) (hb : Trigger.openNamed ('(' :: b) = none) :
    Trigger.openNamed ('(' :: a) = none := by
  cases hfound : Trigger.openNamed ('(' :: a) with
  | none => rfl
  | some e =>
    obtain ⟨before, w, rest, hbefore, hne, hname, heq, -⟩ := Trigger.of_openNamed hfound
    have hwhile (next : Text) : (w ++ '>' :: next).takeWhile isNameChar = w :=
      Reader.takeWhile_append_stop hname rfl next
    have hpos : 0 < w.length := List.length_pos_iff.2 hne
    have hmild (opener : Text) (hopener : Mild opener) : Mild (opener ++ w ++ ['>']) := by
      intro c hc
      rcases List.mem_append.1 hc with hc | hc
      · rcases List.mem_append.1 hc with hc | hc
        · exact hopener c hc
        · exact Mild.of_isPlain (v := w) (fun d hd => isPlain_of_isNameChar (hname d hd)) c hc
      · exact (by decide : Mild ['>']) c hc
    -- the opening, the name and the bracket are mild, so the other text begins with them
    rcases hbefore with rfl | rfl
    · have ha : a = ['?', '<'] ++ w ++ ['>'] ++ rest := by simpa using heq
      obtain ⟨next, hnext⟩ := h _ (hmild ['?', '<'] (by decide)) (ha ▸ List.prefix_append _ rest)
      have hb' : b = '?' :: '<' :: (w ++ '>' :: next) := by simpa using hnext.symm
      rw [hb'] at hb
      simp [Trigger.openNamed, Extent.enclosed, hwhile, hpos] at hb
    · have ha : a = ['?', 'P', '<'] ++ w ++ ['>'] ++ rest := by simpa using heq
      obtain ⟨next, hnext⟩ := h _ (hmild ['?', 'P', '<'] (by decide)) (ha ▸ List.prefix_append _ rest)
      have hb' : b = '?' :: 'P' :: '<' :: (w ++ '>' :: next) := by simpa using hnext.symm
      rw [hb'] at hb
      simp [Trigger.openNamed, Extent.enclosed, hwhile, hpos] at hb

end Front

/-! ## 2. Fixed texts -/

/-- A text that is read as it stands in a scope, after some groups have opened. Escapes of large code
points stand under flag `u` only. -/
inductive Fixed (unicode : Bool) : Scope → (opened : Nat) → Text → Prop where
  | nil {scope : Scope} {n : Nat} : Fixed unicode scope n []
  /-- A backslash at the end. -/
  | lone {scope : Scope} {n : Nat} : Fixed unicode scope n ['\\']
  | plain {scope : Scope} {n : Nat} {c : Char} {t : Text} (plain : isPlain c = true)
      (rest : Fixed unicode scope n t) : Fixed unicode scope n (c :: t)
  | close {scope : Scope} {n : Nat} {t : Text} (rest : Fixed unicode .pattern n t) :
      Fixed unicode scope n (']' :: t)
  | set {n : Nat} {t : Text} (bare : isBare t = false) (rest : Fixed unicode .charClass n t) :
      Fixed unicode .pattern n ('[' :: t)
  /-- A parenthesis or an opening bracket in a class. -/
  | inner {n : Nat} {c : Char} {t : Text} (ne_escape : c ≠ '\\') (ne_close : c ≠ ']')
      (rest : Fixed unicode .charClass n t) : Fixed unicode .charClass n (c :: t)
  /-- An escape that is kept. Digits stand behind a backslash in classes only. -/
  | escape {scope : Scope} {n : Nat} {c : Char} {t : Text}
      (digit : c.isDigit = true → scope = .charClass) (kept : isKept (scope = .charClass) c t = true)
      (rest : Fixed unicode scope n t) : Fixed unicode scope n ('\\' :: c :: t)
  | number {n : Nat} {d : Char} {t : Text} (digit : d.isDigit = true)
      (stands : Reader.numberStands .pattern n (d :: t.takeWhile Char.isDigit))
      (rest : Fixed unicode .pattern n t) : Fixed unicode .pattern n ('\\' :: d :: t)
  /-- A code point that four digits are not enough for. -/
  | point {scope : Scope} {n : Nat} {w t : Text} (allowed : unicode = true) (ne_nil : w ≠ [])
      (isHexDigit : ∀ c ∈ w, isHexDigit c = true) (large : 0xFFFF < readDigits 16 w)
      (inRange : readDigits 16 w ≤ 0x10FFFF) (rest : Fixed unicode scope n t) :
      Fixed unicode scope n ('\\' :: 'u' :: '\x7b' :: (w ++ '\x7d' :: t))
  /-- The parenthesis of a group that captures. -/
  | capture {n : Nat} {t : Text} (head : t.head? ≠ some '?') (rest : Fixed unicode .pattern (n + 1) t) :
      Fixed unicode .pattern n ('(' :: t)
  /-- Another parenthesis. What follows is no name that the tokens take, and no comment. -/
  | group {n : Nat} {t : Text} (head : t.head? = some '?')
      (unnamed : Trigger.openNamed ('(' :: t) = none) (apart : ¬['?', '#'] <+: t)
      (rest : Fixed unicode .pattern n t) : Fixed unicode .pattern n ('(' :: t)

namespace Fixed

variable {unicode : Bool} {scope : Scope} {n : Nat} {t : Text}

theorem append : ∀ {w : Text}, (∀ d ∈ w, isPlain d = true) → Fixed unicode scope n t →
    Fixed unicode scope n (w ++ t)
  | [], _, h => h
  | d :: _, hw, h => .plain (hw d List.mem_cons_self)
      (append (fun e he => hw e (List.mem_cons_of_mem d he)) h)

/-- Behind plain characters a text is fixed still. -/
theorem of_append : ∀ {w : Text}, (∀ d ∈ w, isPlain d = true) → Fixed unicode scope n (w ++ t) →
    Fixed unicode scope n t
  | [], _, h => h
  | d :: w, hw, h => by
      have hd := hw d List.mem_cons_self
      have hrest : Fixed unicode scope n (w ++ t) := by
        rw [List.cons_append] at h
        generalize w ++ t = u at h ⊢
        cases h with
        | plain _ rest => exact rest
        | inner _ _ rest => exact rest
        | _ => exact absurd hd (by decide)
      exact of_append (fun e he => hw e (List.mem_cons_of_mem d he)) hrest

/-- An escape and plain characters after it. -/
theorem escape_append {c : Char} {w : Text} (digit : c.isDigit = true → scope = .charClass)
    (kept : isKept (scope = .charClass) c (w ++ t) = true) (hw : ∀ d ∈ w, isPlain d = true)
    (rest : Fixed unicode scope n t) : Fixed unicode scope n ('\\' :: c :: (w ++ t)) :=
  .escape digit kept (rest.append hw)

theorem emptyGroup (h : Fixed unicode scope n t) : Fixed unicode scope n (emptyGroup ++ t) := by
  have hplain : Fixed unicode scope n (['?', ':', ')'] ++ t) := h.append (by simp [isPlain])
  cases scope with
  | pattern => exact .group rfl rfl (by simp) hplain
  | charClass => exact .inner (by decide) (by decide) hplain

theorem of_emptyGroup (h : Fixed unicode scope n (ExtensibleRegex.emptyGroup ++ t)) :
    Fixed unicode scope n t := by
  have hplain : ∀ d ∈ ['?', ':', ')'], isPlain d = true := by simp [isPlain]
  cases h with
  | capture head _ => exact absurd rfl head
  | group _ _ _ rest => exact of_append (w := ['?', ':', ')']) hplain rest
  | inner _ _ rest => exact of_append (w := ['?', ':', ')']) hplain rest
  | plain hparen _ => exact absurd hparen (by decide)

end Fixed

/-! ## 3. How a fixed text is read -/

namespace Reader

/-- A text begins with a piece that is what it is read from, names no group, and leaves a fixed
text. -/
def Resumes (r : Reader) (unicode : Bool) (scope : Scope) (ledger : Ledger) (behind t : Text) : Prop :=
  ∃ piece k, r.segment scope ledger behind t = .ok (piece, k) ∧ 0 < k ∧ piece.text = t.take k ∧
    (∀ name, piece ≠ .opens (some name)) ∧
    Fixed unicode (piece.scopeAfter scope) (piece.enter ledger).groupCount (t.drop k)

variable {r : Reader} {unicode : Bool} {scope : Scope} {ledger : Ledger} {behind t : Text}

/-- What a token writes as it was read. -/
theorem resumes_of_written {w : Text}
    (h : r.token? scope ledger behind (w ++ t) = .ok (some (.written w, w.length))) (hw : w ≠ [])
    (rest : Fixed unicode scope ledger.groupCount t) : r.Resumes unicode scope ledger behind (w ++ t) :=
  ⟨.written w, w.length, segment_of_some h, List.length_pos_iff.2 hw, List.take_left.symm,
    fun _ => by simp, by rw [List.drop_left]; exact rest⟩

/-- A character that no token takes, outside of classes. -/
theorem resumes_of_copied {c : Char} {scope' : Scope} (hescape : c ≠ '\\')
    (hnone : r.token? .pattern ledger behind (c :: t) = .ok none)
    (hscope : scope' = if c = '[' then .charClass else .pattern)
    (rest : Fixed unicode scope' ledger.groupCount t) :
    r.Resumes unicode .pattern ledger behind (c :: t) := by
  obtain ⟨w, htake, hplain, hopen⟩ := plain_verbatim c t hescape
  refine ⟨_, _, segment_of_none hnone, verbatimLength_pos .pattern c t, rfl, fun _ => by simp, ?_⟩
  have hafter : Run.scopeAfter .pattern (c :: w) = scope' := by
    rw [hscope]
    by_cases hc : c = '['
    · subst hc
      cases w with
      | nil => rfl
      | cons d w => exact absurd rfl (hopen (List.cons_ne_nil d w)).1
    · rw [if_neg hc]
      cases w <;> simp [Run.scopeAfter, hc]
  show Fixed unicode (Run.scopeAfter .pattern _) ledger.groupCount _
  rw [htake, hafter]
  have hsplit : t = w ++ (c :: t).drop (verbatimLength .pattern (c :: t)) := by
    have hparts := List.take_append_drop (verbatimLength .pattern (c :: t)) (c :: t)
    rw [htake] at hparts
    exact (List.cons.inj hparts).2.symm
  rw [hsplit] at rest
  exact rest.of_append hplain

/-- A character in a class that escapes nothing. -/
theorem resumes_inner {c : Char} {scope' : Scope} (hescape : c ≠ '\\')
    (hscope : scope' = if c = ']' then .pattern else .charClass)
    (rest : Fixed unicode scope' ledger.groupCount t) :
    r.Resumes unicode .charClass ledger behind (c :: t) := by
  have hlength : verbatimLength .charClass (c :: t) = 1 := by
    simp [verbatimLength]
  refine ⟨_, _, segment_of_none (token?_class hescape t), verbatimLength_pos .charClass c t, rfl,
    fun _ => by simp, ?_⟩
  have hafter : Run.scopeAfter .charClass [c] = scope' := by
    rw [hscope]
    by_cases hc : c = ']'
    · subst hc
      rfl
    · simp [Run.scopeAfter, hc]
  show Fixed unicode (Run.scopeAfter .charClass _) ledger.groupCount _
  rw [hlength]
  show Fixed unicode (Run.scopeAfter .charClass [c]) ledger.groupCount t
  rw [hafter]
  exact rest

/-- An escape of something other than a digit. -/
theorem resumes_escape {c : Char} (hc : c.isDigit = false)
    (hkept : isKept (scope = .charClass) c t = true)
    (rest : Fixed unicode scope ledger.groupCount t) :
    r.Resumes unicode scope ledger behind ('\\' :: c :: t) := by
  rcases r.token?_escape ledger hc hkept with hnone | hwritten
  · obtain ⟨k, hk, hplain⟩ := escapeLength_cons scope c t
    have hlength : verbatimLength scope ('\\' :: c :: t) = k + 2 := by
      show 1 + escapeLength scope (c :: t) = k + 2
      omega
    refine ⟨_, _, segment_of_none (hnone behind), verbatimLength_pos scope _ _, rfl,
      fun _ => by simp, ?_⟩
    have hscope : Run.scopeAfter scope (('\\' :: c :: t).take (k + 2)) = scope := by
      simp [Run.scopeAfter]
    show Fixed unicode (Run.scopeAfter scope _) ledger.groupCount _
    rw [hlength, hscope]
    show Fixed unicode scope ledger.groupCount (t.drop k)
    rw [← List.take_append_drop k t] at rest
    exact rest.of_append hplain
  · exact resumes_of_written (w := ['\\', c]) (hwritten behind) (List.cons_ne_nil _ _) rest

/-- A backslash and all the digits behind it, when they may stand. -/
theorem resumes_digits {d : Char} (hd : d.isDigit = true)
    (hstands : numberStands scope ledger.groupCount (d :: t.takeWhile Char.isDigit))
    (rest : Fixed unicode scope ledger.groupCount t) :
    r.Resumes unicode scope ledger behind ('\\' :: d :: t) := by
  have hfound : r.token? scope ledger behind ('\\' :: d :: t) = _ :=
    (token?_number hd t).trans (if_pos hstands)
  have hsplit : t = t.takeWhile Char.isDigit ++ t.drop (t.takeWhile Char.isDigit).length :=
    takeWhile_append_drop Char.isDigit t
  have hdigits : ∀ c ∈ t.takeWhile Char.isDigit, isPlain c = true := fun c hc =>
    isPlain_of_isDigit (List.all_eq_true.1 List.all_takeWhile c hc)
  generalize t.takeWhile Char.isDigit = ds at hfound hsplit hdigits
  generalize t.drop ds.length = next at hsplit
  subst hsplit
  exact resumes_of_written (w := '\\' :: d :: ds) hfound (List.cons_ne_nil _ _)
    (rest.of_append hdigits)

/-- **What an escape of a code point in braces is answered.** -/
theorem escape_codePoint {w : Text} (hw : w ≠ []) (hhex : ∀ c ∈ w, isHexDigit c = true) (t : Text) :
    r.escape scope ledger ('\\' :: 'u' :: '\x7b' :: (w ++ '\x7d' :: t)) =
      if readDigits 16 w > 0x10FFFF then
        .error (.codePointTooLarge ('\\' :: 'u' :: '\x7b' :: (w ++ ['\x7d'])))
      else if readDigits 16 w ≤ 0xFFFF then
        .ok (some (.written ('\\' :: 'u' :: hexText 4 (readDigits 16 w)), 3 + w.length + 1))
      else if r.flags.contains 'u' then
        .ok (some (.written ('\\' :: 'u' :: '\x7b' :: (w ++ ['\x7d'])), 3 + w.length + 1))
      else .error .codePointNeedsUnicode := by
  have hwhile := takeWhile_append_stop hhex (c := '\x7d') rfl t
  have hpos : 0 < w.length := List.length_pos_iff.2 hw
  have hnumbered : Trigger.numbered ('\\' :: 'u' :: '\x7b' :: (w ++ '\x7d' :: t)) = none := rfl
  have hnamed : (if scope = .pattern then
      Trigger.namedRef ('\\' :: 'u' :: '\x7b' :: (w ++ '\x7d' :: t)) else none) = none := by
    have hnone : Trigger.namedRef ('\\' :: 'u' :: '\x7b' :: (w ++ '\x7d' :: t)) = none := rfl
    rw [hnone, ite_self]
  have hfound : Trigger.codePoint ('\\' :: 'u' :: '\x7b' :: (w ++ '\x7d' :: t)) =
      some ⟨3 + w.length + 1, some (3, 3 + w.length)⟩ := by
    simp [Trigger.codePoint, Extent.enclosed, hwhile, hpos]
  have hcaptured : (⟨3 + w.length + 1, some (3, 3 + w.length)⟩ : Extent).captured
      ('\\' :: 'u' :: '\x7b' :: (w ++ '\x7d' :: t)) = w := by
    simp [Extent.captured]
  have htext : (⟨3 + w.length + 1, some (3, 3 + w.length)⟩ : Extent).text
      ('\\' :: 'u' :: '\x7b' :: (w ++ '\x7d' :: t)) = '\\' :: 'u' :: '\x7b' :: (w ++ ['\x7d']) := by
    have hassoc : '\\' :: 'u' :: '\x7b' :: (w ++ '\x7d' :: t) =
        ('\\' :: 'u' :: '\x7b' :: (w ++ ['\x7d'])) ++ t := by simp
    rw [Extent.text, hassoc]
    exact List.take_left' (by simp; omega)
  unfold escape
  rw [hnumbered, hnamed, hfound]
  simp only [hcaptured, htext, write]

/-- A parenthesis that no token takes. -/
theorem token?_paren (hhead : t.head? = some '?') (hnamed : Trigger.openNamed ('(' :: t) = none)
    (hcomment : ¬['?', '#'] <+: t) : r.token? .pattern ledger behind ('(' :: t) = .ok none := by
  have hplain : Trigger.openPlain ('(' :: t) = none := if_pos hhead
  have hne (rest : Text) : t ≠ '?' :: '#' :: rest := fun h => hcomment ⟨rest, h.symm⟩
  have hclosed : Trigger.comment ('(' :: t) = none := by
    unfold Trigger.comment
    split
    · rename_i rest heq
      exact absurd (List.cons.inj heq).2 (hne rest)
    · rfl
  have hopen : Trigger.openComment ('(' :: t) = none := by
    unfold Trigger.openComment
    split
    · rename_i rest heq
      exact absurd (List.cons.inj heq).2 (hne rest)
    · rfl
  show r.parenthesis ledger behind ('(' :: t) = _
  unfold parenthesis
  rw [hplain, hnamed, hclosed, hopen]

/-- **A fixed text begins with a piece that is written as it was read.** -/
theorem resumes_of_fixed (hr : r.Bland) (hunicode : r.flags.contains 'u' = unicode)
    (h : Fixed unicode scope ledger.groupCount t) (hne : t ≠ []) (behind : Text) :
    r.Resumes unicode scope ledger behind t := by
  cases h with
  | nil => exact absurd rfl hne
  | lone =>
    have hnone : r.token? scope ledger behind ['\\'] = .ok none := by cases scope <;> rfl
    exact ⟨_, _, segment_of_none hnone, verbatimLength_pos scope _ _, rfl, fun _ => by simp, by
      cases scope <;> exact .nil⟩
  | @plain _ _ c t hc rest =>
    have hne : c ≠ '\\' ∧ c ≠ '(' ∧ c ≠ '[' ∧ c ≠ ']' := by
      simp only [isPlain, Bool.and_eq_true, bne_iff_ne] at hc
      exact ⟨hc.1.1.1, hc.2, hc.1.1.2, hc.1.2⟩
    cases scope with
    | pattern =>
      exact resumes_of_copied hne.1 (token?_other hr hne.1 hne.2.1 hne.2.2.1 t) (if_neg hne.2.2.1).symm
        rest
    | charClass => exact resumes_inner hne.1 (if_neg hne.2.2.2).symm rest
  | @close _ _ t rest =>
    cases scope with
    | pattern =>
      exact resumes_of_copied (by decide) (token?_other hr (by decide) (by decide) (by decide) t) rfl
        rest
    | charClass => exact resumes_inner (by decide) rfl rest
  | set bare rest => exact resumes_of_copied (by decide) (token?_set bare) rfl rest
  | inner hescape hclose rest => exact resumes_inner hescape (if_neg hclose).symm rest
  | @escape _ _ c t digit kept rest =>
    cases hc : c.isDigit with
    | false => exact resumes_escape hc kept rest
    | true =>
      -- in a class a digit is kept only if it is a zero without another digit behind it
      obtain rfl := digit hc
      have hzero : c = '0' ∧ t.head?.any Char.isDigit = false := by
        simpa [isKept, hc] using kept
      have hnone : t.takeWhile Char.isDigit = [] := by
        cases t with
        | nil => rfl
        | cons e t => simp [show e.isDigit = false from hzero.2]
      exact resumes_digits hc (.inr (by rw [hnone, hzero.1])) rest
  | number digit stands rest => exact resumes_digits digit stands rest
  | @point _ _ w t allowed ne_nil isHexDigit large inRange rest =>
    have hassoc : '\\' :: 'u' :: '\x7b' :: (w ++ '\x7d' :: t) =
        ('\\' :: 'u' :: '\x7b' :: (w ++ ['\x7d'])) ++ t := by simp
    have hlength : ('\\' :: 'u' :: '\x7b' :: (w ++ ['\x7d'])).length = 3 + w.length + 1 := by
      simp
      omega
    rw [hassoc]
    refine resumes_of_written ?_ (List.cons_ne_nil _ _) rest
    rw [← hassoc, hlength]
    show r.escape scope ledger ('\\' :: 'u' :: '\x7b' :: (w ++ '\x7d' :: t)) = _
    rw [escape_codePoint ne_nil isHexDigit, if_neg (Nat.not_lt.2 inRange), if_neg (Nat.not_le.2 large),
      hunicode, if_pos allowed]
  | @capture _ t head rest =>
    refine ⟨.opens none, 1, segment_of_some (token?_capture hr.capture head), Nat.one_pos, rfl,
      fun _ => by simp, ?_⟩
    show Fixed unicode .pattern (ledger.push none).groupCount t
    rw [Mark.groupCount_push]
    exact rest
  | group head unnamed apart rest =>
    exact resumes_of_copied (by decide) (token?_paren head unnamed apart) rfl rest

/-- **A fixed text is read as it stands**: its pieces make it up, and none of them names a group. -/
theorem reads_of_fixed (hr : r.Bland) (hunicode : r.flags.contains 'u' = unicode) :
    ∀ (limit : Nat) {scope : Scope} {ledger : Ledger} {t : Text}, t.length ≤ limit →
      Fixed unicode scope ledger.groupCount t → ∀ behind, ∃ pieces,
        r.Reads scope ledger behind t pieces ∧ render pieces = t ∧ ∀ name ∈ names pieces, name = none
  | _, _, _, [], _, _, _ => ⟨[], .nil, rfl, nofun⟩
  | 0, _, _, _ :: _, hlimit, _, _ => absurd hlimit (Nat.not_succ_le_zero _)
  | limit + 1, scope, ledger, c :: t, hlimit, h, behind => by
      obtain ⟨piece, k, hfirst, hpos, htext, hunnamed, hrest⟩ :=
        resumes_of_fixed hr hunicode h (List.cons_ne_nil c t) behind
      have hshort : ((c :: t).drop k).length ≤ limit := by
        rw [List.length_drop]
        omega
      obtain ⟨pieces, hreads, hrender, hnames⟩ :=
        reads_of_fixed hr hunicode limit hshort hrest (((c :: t).take k).reverse ++ behind)
      refine ⟨piece :: pieces, .cons (List.cons_ne_nil c t) hpos hfirst hreads, ?_, ?_⟩
      · show piece.text ++ render pieces = c :: t
        rw [htext, hrender, List.take_append_drop]
      · intro name hname
        cases piece with
        | opens other =>
          rcases List.mem_cons.1 hname with rfl | hname
          · cases name with
            | none => rfl
            | some name => exact absurd rfl (hunnamed name)
          · exact hnames name hname
        | copied w => exact hnames name hname
        | written w => exact hnames name hname

end Reader

/-! ## 4. Repeated empty groups -/

/-- What is left of a text begins as the text does. -/
theorem front_merged : ∀ t : Text, Front (merged t) t
  | [] => .refl []
  | c :: t => fun v hv hbegins => by
      cases v with
      | nil => exact List.nil_prefix
      | cons d v =>
        cases hempty : emptyGroup.isPrefixOf (c :: t) with
        | false =>
          rw [merged_cons hempty] at hbegins
          obtain ⟨rfl, hrest⟩ := List.cons_prefix_cons.1 hbegins
          exact List.cons_prefix_cons.2
            ⟨rfl, front_merged t v (fun e he => hv e (List.mem_cons_of_mem _ he)) hrest⟩
        | true =>
          -- an empty group begins with a parenthesis, which is not mild
          obtain ⟨u, hu⟩ := List.isPrefixOf_iff_prefix.1 hempty
          rw [← hu, merged_emptyGroup] at hbegins
          obtain ⟨rfl, -⟩ := List.cons_prefix_cons.1 (show d :: v <+: '(' :: _ from hbegins)
          exact absurd rfl (hv '(' List.mem_cons_self).2.2

theorem merged_append_mild {t : Text} : ∀ {w : Text}, Mild w → merged (w ++ t) = w ++ merged t
  | [], _ => rfl
  | c :: w, hw => by
      have hc : c ≠ '(' := (hw c List.mem_cons_self).2.2
      rw [List.cons_append, merged_cons (isPrefixOf_emptyGroup_of_ne hc _),
        merged_append_mild fun d hd => hw d (List.mem_cons_of_mem _ hd)]
      rfl

/-- **Leaving out repeated empty groups keeps a text fixed.** -/
theorem fixed_merged {unicode : Bool} : ∀ (limit : Nat) (t : Text), t.length ≤ limit →
    ∀ scope n, Fixed unicode scope n t →
      Fixed unicode scope n (merged t) ∧ Fixed unicode scope n (mergedAfter t)
  | _, [], _, _, _, _ => ⟨.nil, .nil⟩
  | 0, _ :: _, hlimit, _, _, _ => absurd hlimit (Nat.not_succ_le_zero _)
  | limit + 1, c :: t, hlimit, scope, n, h => by
      have hlen : t.length ≤ limit := Nat.le_of_succ_le_succ hlimit
      cases hempty : emptyGroup.isPrefixOf (c :: t) with
      | true =>
        obtain ⟨rest, hrest⟩ := List.isPrefixOf_iff_prefix.1 hempty
        have hshort : rest.length ≤ limit := by
          have := congrArg List.length hrest
          simp [emptyGroup] at this hlen
          omega
        rw [← hrest] at h ⊢
        have ih := fixed_merged limit rest hshort scope n h.of_emptyGroup
        rw [merged_emptyGroup, mergedAfter_emptyGroup]
        exact ⟨ih.2.emptyGroup, ih.2⟩
      | false =>
        have ih {scope : Scope} {n : Nat} {u : Text} (hu : u.length ≤ limit)
            (h : Fixed unicode scope n u) : Fixed unicode scope n (merged u) :=
          (fixed_merged limit u hu scope n h).1
        suffices hcons : Fixed unicode scope n (c :: merged t) by
          rw [merged_cons hempty, mergedAfter_cons hempty]
          exact ⟨hcons, hcons⟩
        cases h with
        | lone => exact .lone
        | plain plain rest => exact .plain plain (ih hlen rest)
        | close rest => exact .close (ih hlen rest)
        | set bare rest => exact .set ((isBare_merged t).trans bare) (ih hlen rest)
        | inner hescape hclose rest => exact .inner hescape hclose (ih hlen rest)
        | @escape _ _ d u digit kept rest =>
          have hshort : u.length ≤ limit := Nat.le_of_succ_le hlen
          cases hd : emptyGroup.isPrefixOf (d :: u) with
          | false =>
            rw [merged_cons hd]
            exact .escape digit ((isKept_merged _ _ _).trans kept) (ih hshort rest)
          | true =>
            -- a parenthesis that is escaped may be that of an empty group
            obtain ⟨next, hnext⟩ := List.isPrefixOf_iff_prefix.1 hd
            obtain ⟨rfl, rfl⟩ := List.cons.inj
              (show '(' :: (['?', ':', ')'] ++ next) = d :: u from hnext)
            have hplain : ∀ d ∈ ['?', ':', ')'], isPlain d = true := by simp [isPlain]
            have hnextShort : next.length ≤ limit := by
              rw [List.length_append] at hshort
              exact Nat.le_of_add_left_le hshort
            have hlater : Fixed unicode scope n (mergedAfter next) :=
              (fixed_merged limit next hnextShort scope n (rest.of_append hplain)).2
            rw [show '(' :: (['?', ':', ')'] ++ next) = emptyGroup ++ next from rfl, merged_emptyGroup]
            exact .escape_append (w := ['?', ':', ')']) digit rfl hplain hlater
        | @number _ d u digit stands rest =>
          have hd : d ≠ '(' := by
            rintro rfl
            cases digit
          rw [merged_cons (isPrefixOf_emptyGroup_of_ne hd u)]
          exact .number digit (by rwa [takeWhile_isDigit_merged]) (ih (Nat.le_of_succ_le hlen) rest)
        | @point _ _ w u allowed ne_nil isHexDigit large inRange rest =>
          have hmild : Mild ('u' :: '\x7b' :: (w ++ ['\x7d'])) :=
            .of_isPlain (List.forall_mem_cons.2 ⟨rfl, isPlain_of_braced isHexDigit⟩)
          have hassoc : 'u' :: '\x7b' :: (w ++ '\x7d' :: u) =
              ('u' :: '\x7b' :: (w ++ ['\x7d'])) ++ u := by simp
          have hshort : u.length ≤ limit := by
            rw [hassoc, List.length_append] at hlen
            exact Nat.le_of_add_left_le hlen
          rw [hassoc, merged_append_mild hmild]
          have hpoint := Fixed.point allowed ne_nil isHexDigit large inRange (ih hshort rest)
          simpa using hpoint
        | capture head rest => exact .capture (by rwa [head?_merged]) (ih hlen rest)
        | group head unnamed apart rest =>
          have hapart : ¬['?', '#'] <+: merged t := fun h => apart (front_merged t _ (by decide) h)
          exact .group (by rwa [head?_merged]) ((front_merged t).openNamed unnamed) hapart (ih hlen rest)

end ExtensibleRegex
