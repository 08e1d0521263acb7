import ExtensibleRegex.Proofs.Combine.Pieces
import ExtensibleRegex.Proofs.Expansion.Tidy
import Mathlib.Tactic

/-!
# Reading again what has been written

A union hands native patterns to its dialect once more: each part by itself, and then all of them
together, with names for their groups. This file says how such a text is read.

* `Mark`s are the groups and the numbers of a text that the dialect minds, and `Stand` says that it
  accepts them: names are new and numbers refer to groups that have opened.
* `Rereads` relates a text, character by character, to what is written for it, and to its marks.
* `Rereads.understood` says that the dialect reads such a text if its marks stand, and only then.
-/

namespace ExtensibleRegex

open Native

/-! ## 1. Marks -/

/-- What a dialect minds in a native pattern. -/
inductive Mark where
  /-- A capturing group, with the name that it is written with. -/
  | opens (name : Option Text)
  /-- A backslash and digits, all that there are. -/
  | number (digits : Text)
  deriving DecidableEq, Repr

namespace Mark

/-- The names of the groups among marks. -/
def names (ms : List Mark) : List (Option Text) :=
  ms.filterMap fun
    | opens name => some name
    | number _ => none

/-- A name that a group may be given. -/
structure Named (name : Text) : Prop where
  ne_nil : name ≠ []
  isNameChar : ∀ c ∈ name, isNameChar c = true
  not_digits : name.all Char.isDigit = false
  not_guarded : Builtin.guardedNames.contains name = false

/-- Whether numbers among marks refer to groups that have opened, of which there are `opened`
before. -/
def NumbersStand : (opened : Nat) → List Mark → Prop
  | _, [] => True
  | n, opens _ :: ms => NumbersStand (n + 1) ms
  | n, number digits :: ms => Reader.numberStands .pattern n digits ∧ NumbersStand n ms

instance decidableNumbersStand : ∀ (n : Nat) (ms : List Mark), Decidable (NumbersStand n ms)
  | _, [] => inferInstanceAs (Decidable True)
  | n, opens _ :: ms => decidableNumbersStand (n + 1) ms
  | n, number _ :: ms =>
    have := decidableNumbersStand n ms
    inferInstanceAs (Decidable (_ ∧ _))

/-- Whether a dialect accepts marks after the groups of a ledger. -/
def Stand : Ledger → List Mark → Prop
  | _, [] => True
  | ledger, opens none :: ms => Stand (ledger.push none) ms
  | ledger, opens (some name) :: ms =>
    ledger.index? name = none ∧ Stand (ledger.push (some name)) ms
  | ledger, number digits :: ms =>
    Reader.numberStands .pattern ledger.groupCount digits ∧ Stand ledger ms

theorem groupCount_push (ledger : Ledger) (name : Option Text) :
    (ledger.push name).groupCount = ledger.groupCount + 1 := Array.size_push _

theorem Stand.numbersStand : ∀ {ms : List Mark} {ledger : Ledger}, Stand ledger ms →
    NumbersStand ledger.groupCount ms
  | [], _, _ => trivial
  | opens none :: ms, ledger, h => by
      have ih : NumbersStand (ledger.push none).groupCount ms := Stand.numbersStand h
      rwa [groupCount_push] at ih
  | opens (some name) :: ms, ledger, h => by
      have ih : NumbersStand (ledger.push (some name)).groupCount ms := Stand.numbersStand h.2
      rwa [groupCount_push] at ih
  | number digits :: ms, ledger, h => ⟨h.1, h.2.numbersStand⟩

theorem index?_eq_none {ledger : Ledger} {name : Text} (h : some name ∉ ledger.names.toList) :
    ledger.index? name = none := by
  have hfind : ledger.names.findIdx? (· == some name) = none := by
    rw [Array.findIdx?_eq_none_iff]
    intro other hother
    rw [beq_eq_false_iff_ne]
    rintro rfl
    exact h (Array.mem_toList_iff.2 hother)
  unfold Ledger.index?
  rw [hfind]
  rfl

/-- **Marks stand** if their numbers do and no name occurs twice. -/
theorem NumbersStand.stand : ∀ {ms : List Mark} {ledger : Ledger},
    NumbersStand ledger.groupCount ms →
    ((ledger.names.toList ++ names ms).filterMap id).Nodup → Stand ledger ms
  | [], _, _, _ => trivial
  | opens name :: ms, ledger, h, hnames => by
      have hpush : (ledger.push name).names.toList ++ names ms =
          ledger.names.toList ++ names (opens name :: ms) := by
        simp [Ledger.push, names]
      have ih : Stand (ledger.push name) ms := NumbersStand.stand
        (by rw [groupCount_push]; exact h) (by rw [hpush]; exact hnames)
      cases name with
      | none => exact ih
      | some name =>
        refine ⟨index?_eq_none fun hmem => ?_, ih⟩
        have hsplit : names (opens (some name) :: ms) = some name :: names ms := rfl
        rw [hsplit, List.filterMap_append, List.nodup_append] at hnames
        exact hnames.2.2 name (List.mem_filterMap.2 ⟨_, hmem, rfl⟩) name (by simp) rfl
  | number digits :: ms, ledger, h, hnames => ⟨h.1, h.2.stand hnames⟩

end Mark

/-! ## 2. Texts that are read again -/

/-- A text that is read in a scope, what is written for it, and its marks. -/
inductive Rereads : Scope → Text → Text → List Mark → Prop where
  | nil {scope : Scope} : Rereads scope [] [] []
  | plain {scope : Scope} {c : Char} {t t' : Text} {ms : List Mark} (plain : isPlain c = true)
      (rest : Rereads scope t t' ms) : Rereads scope (c :: t) (c :: t') ms
  | close {scope : Scope} {t t' : Text} {ms : List Mark} (rest : Rereads .pattern t t' ms) :
      Rereads scope (']' :: t) (']' :: t') ms
  | set {t t' : Text} {ms : List Mark} (bare : isBare t = false) (rest : Rereads .charClass t t' ms) :
      Rereads .pattern ('[' :: t) ('[' :: t') ms
  /-- A parenthesis or an opening bracket in a class. -/
  | inner {c : Char} {t t' : Text} {ms : List Mark} (ne_escape : c ≠ '\\') (ne_close : c ≠ ']')
      (rest : Rereads .charClass t t' ms) : Rereads .charClass (c :: t) (c :: t') ms
  /-- An escape that is kept. Digits stand behind a backslash in classes only. -/
  | escape {scope : Scope} {c : Char} {t t' : Text} {ms : List Mark}
      (digit : c.isDigit = true → scope = .charClass) (kept : isKept (scope = .charClass) c t = true)
      (rest : Rereads scope t t' ms) : Rereads scope ('\\' :: c :: t) ('\\' :: c :: t') ms
  | number {d : Char} {t t' : Text} {ms : List Mark} (digit : d.isDigit = true)
      (rest : Rereads .pattern t t' ms) :
      Rereads .pattern ('\\' :: d :: t) ('\\' :: d :: t')
        (.number (d :: t.takeWhile Char.isDigit) :: ms)
  /-- The parenthesis of a group that captures. -/
  | capture {t t' : Text} {ms : List Mark} (head : t.head? ≠ some '?')
      (rest : Rereads .pattern t t' ms) : Rereads .pattern ('(' :: t) ('(' :: t') (.opens none :: ms)
  | named {name t t' : Text} {ms : List Mark} (named : Mark.Named name)
      (rest : Rereads .pattern t t' ms) :
      Rereads .pattern (openCapture (some name) ++ t) ('(' :: t') (.opens (some name) :: ms)
  /-- The parenthesis of a group that does not capture. -/
  | group {kind : Opening} {w t t' : Text} {ms : List Mark} (opens : Opens kind w)
      (rest : Rereads .pattern ('?' :: (w ++ t)) t' ms) :
      Rereads .pattern ('(' :: '?' :: (w ++ t)) ('(' :: t') ms

namespace Rereads

variable {scope : Scope} {t u : Text} {ms : List Mark}

theorem append : ∀ {w : Text}, (∀ d ∈ w, isPlain d = true) → ∀ {t'}, Rereads scope t t' ms →
    Rereads scope (w ++ t) (w ++ t') ms
  | [], _, _, h => h
  | d :: _, hw, _, h => .plain (hw d List.mem_cons_self)
      (append (fun e he => hw e (List.mem_cons_of_mem d he)) h)

/-- Plain characters are written as they are. -/
theorem of_append : ∀ {w : Text}, (∀ d ∈ w, isPlain d = true) → ∀ {u}, Rereads scope (w ++ t) u ms →
    ∃ t', u = w ++ t' ∧ Rereads scope t t' ms
  | [], _, u, h => ⟨u, rfl, h⟩
  | d :: w, hw, u, h => by
      have hd := hw d List.mem_cons_self
      have hnot {e : Char} (he : isPlain e = false) : d ≠ e := by
        rintro rfl
        rw [hd] at he
        cases he
      have hrest {v : Text} (hv : Rereads scope (w ++ t) v ms) :
          ∃ t', d :: v = d :: w ++ t' ∧ Rereads scope t t' ms := by
        obtain ⟨t', rfl, ht'⟩ := of_append (fun e he => hw e (List.mem_cons_of_mem d he)) hv
        exact ⟨t', rfl, ht'⟩
      rw [List.cons_append] at h
      generalize hv : d :: (w ++ t) = v at h
      have hhead (e : Char) (v' : Text) (heq : d :: (w ++ t) = e :: v') : d = e ∧ w ++ t = v' :=
        List.cons.inj heq
      cases h with
      | nil => cases hv
      | plain _ rest =>
        obtain ⟨rfl, rfl⟩ := hhead _ _ hv
        exact hrest rest
      | inner _ _ rest =>
        obtain ⟨rfl, rfl⟩ := hhead _ _ hv
        exact hrest rest
      | close _ => exact absurd (hhead _ _ hv).1 (hnot rfl)
      | set _ _ => exact absurd (hhead _ _ hv).1 (hnot rfl)
      | escape _ _ _ => exact absurd (hhead _ _ hv).1 (hnot rfl)
      | number _ _ => exact absurd (hhead _ _ hv).1 (hnot rfl)
      | capture _ _ => exact absurd (hhead _ _ hv).1 (hnot rfl)
      | named _ _ => exact absurd (hhead _ _ hv).1 (hnot rfl)
      | group _ _ => exact absurd (hhead _ _ hv).1 (hnot rfl)

end Rereads

/-! ## 3. What is read first -/

/-- The flags that a union has: none of those with which the built-in tokens see more. -/
structure Reader.Bland (r : Reader) : Prop where
  dot : r.flags.contains 's' = false
  blank : r.flags.contains 'x' = false
  capture : r.flags.contains 'n' = false
  namespacing : r.namespacing = false

namespace Reader

variable {r : Reader} {scope : Scope} {ledger : Ledger} {behind : Text}

theorem segment_of_none {t : Text} (h : r.token? scope ledger behind t = .ok none) :
    r.segment scope ledger behind t =
      .ok (.copied (t.take (verbatimLength scope t)), verbatimLength scope t) := by
  unfold segment
  rw [h]

theorem segment_of_some {t : Text} {piece : Segment} {n : Nat}
    (h : r.token? scope ledger behind t = .ok (some (piece, n))) :
    r.segment scope ledger behind t = .ok (piece, n) := by
  unfold segment
  rw [h]

theorem token?_class {c : Char} (hc : c ≠ '\\') (t : Text) :
    r.token? .charClass ledger behind (c :: t) = .ok none := by
  simp [token?, hc]

/-- No token takes a character that opens nothing and escapes nothing. -/
theorem token?_other (hr : r.Bland) {c : Char} (hescape : c ≠ '\\') (hparen : c ≠ '(')
    (hopen : c ≠ '[') (t : Text) : r.token? .pattern ledger behind (c :: t) = .ok none := by
  have hdot : r.dot (c :: t) = .ok none := by
    unfold dot
    rw [hr.dot]
    rfl
  have hblank : r.blank behind (c :: t) = .ok none := by
    unfold blank
    rw [hr.blank]
    rfl
  simp [token?, hescape, hparen, hopen, hdot, hblank]

theorem token?_set {t : Text} (h : isBare t = false) :
    r.token? .pattern ledger behind ('[' :: t) = .ok none := by
  have hnone : Trigger.bareClass ('[' :: t) = none := by
    unfold Trigger.bareClass
    split
    · rename_i heq
      cases heq
      cases h
    · rename_i heq
      cases heq
      cases h
    · rfl
  show bareClass ('[' :: t) = .ok none
  unfold bareClass
  rw [hnone]

theorem token?_capture (hn : r.flags.contains 'n' = false) {t : Text} (h : t.head? ≠ some '?') :
    r.token? .pattern ledger behind ('(' :: t) = .ok (some (.opens none, 1)) := by
  have hplain : Trigger.openPlain ('(' :: t) = some ⟨1, none⟩ := if_neg h
  show r.parenthesis ledger behind ('(' :: t) = _
  unfold parenthesis
  rw [hplain, hn]
  rfl

/-- A group that does not capture is no named one, and no comment. -/
theorem token?_group {kind : Opening} {w : Text} (h : Opens kind w) (t : Text) :
    r.token? .pattern ledger behind ('(' :: '?' :: (w ++ t)) = .ok none := by
  have hopening := h.opening t
  have hnamed : Trigger.openNamed ('(' :: '?' :: (w ++ t)) = none := by
    cases hfound : Trigger.openNamed ('(' :: '?' :: (w ++ t)) with
    | none => rfl
    | some e =>
      obtain ⟨before, name, rest, hbefore, hne, hname, heq, -⟩ := Trigger.of_openNamed hfound
      obtain ⟨c, name, rfl⟩ := List.exists_cons_of_ne_nil hne
      have hc := hname c List.mem_cons_self
      rcases hbefore with rfl | rfl
      · have hw : w ++ t = '<' :: c :: (name ++ '>' :: rest) := by simpa using heq
        have hnot (d : Char) (hd : isNameChar d = false) :
            (c :: (name ++ '>' :: rest)).head? ≠ some d := fun heq => by
          rw [Option.some.inj heq, hd] at hc
          cases hc
        rw [hw, opening?_named (hnot '=' rfl) (hnot '!' rfl)] at hopening
        obtain ⟨r, -, hr⟩ := Option.map_eq_some_iff.1 hopening
        exact absurd (Prod.mk.inj hr).1.symm (h.kind_ne _)
      · have hw : w ++ t = 'P' :: '<' :: c :: (name ++ '>' :: rest) := by simpa using heq
        rw [hw, opening?_modifiers (by decide) (by decide) (by decide)] at hopening
        cases hopening
  have hcomment : ∀ rest, w ++ t ≠ '#' :: rest := by
    intro rest heq
    rw [heq, opening?_modifiers (by decide) (by decide) (by decide)] at hopening
    cases hopening
  have hnone : Trigger.comment ('(' :: '?' :: (w ++ t)) = none ∧
      Trigger.openComment ('(' :: '?' :: (w ++ t)) = none := by
    unfold Trigger.comment Trigger.openComment
    constructor
    · split
      · rename_i heq
        exact absurd (List.cons.inj (List.cons.inj heq).2).2 (hcomment _)
      · rfl
    · split
      · rename_i heq
        exact absurd (List.cons.inj (List.cons.inj heq).2).2 (hcomment _)
      · rfl
  show r.parenthesis ledger behind ('(' :: '?' :: (w ++ t)) = _
  unfold parenthesis
  rw [hnamed, hnone.1, hnone.2]
  rfl

theorem takeWhile_append_stop {q : Char → Bool} {w : Text} (hw : ∀ d ∈ w, q d = true) {c : Char}
    (hc : q c = false) (t : Text) : (w ++ c :: t).takeWhile q = w := by
  rw [List.takeWhile_append_of_pos hw]
  simp [hc]

/-- The opening of a named group. -/
theorem token?_openCapture {name : Text} (hne : name ≠ []) (hname : ∀ c ∈ name, isNameChar c = true)
    (t : Text) : r.token? .pattern ledger behind (openCapture (some name) ++ t) =
      if name.all Char.isDigit then .error (.integerName (openCapture (some name)))
      else if !r.namespacing && Builtin.guardedNames.contains name then
        .error (.reservedName (openCapture (some name)))
      else if (ledger.index? name).isSome then .error (.duplicateName (openCapture (some name)))
      else .ok (some (.opens (some name), (openCapture (some name)).length)) := by
  have htext : openCapture (some name) ++ t = '(' :: '?' :: '<' :: (name ++ '>' :: t) := by
    simp [openCapture]
  have hwhile := takeWhile_append_stop hname (c := '>') rfl t
  have hfound : Trigger.openNamed (openCapture (some name) ++ t) =
      some ⟨name.length + 4, some (3, 3 + name.length)⟩ := by
    rw [htext]
    have hpos : 0 < name.length := List.length_pos_iff.2 hne
    simp [Trigger.openNamed, Extent.enclosed, hwhile, hpos]
    omega
  have hcaptured : (⟨name.length + 4, some (3, 3 + name.length)⟩ : Extent).captured
      (openCapture (some name) ++ t) = name := by
    simp [htext, Extent.captured]
  have hlength : (openCapture (some name)).length = name.length + 4 := by
    simp [openCapture]
  have hmatch : (⟨name.length + 4, some (3, 3 + name.length)⟩ : Extent).text
      (openCapture (some name) ++ t) = openCapture (some name) := by
    rw [Extent.text, ← hlength, List.take_left]
  have hplain : Trigger.openPlain (openCapture (some name) ++ t) = none := rfl
  show r.parenthesis ledger behind (openCapture (some name) ++ t) = _
  unfold parenthesis
  rw [hplain, hfound]
  simp only [hcaptured, hmatch, hlength]

theorem token?_named (hr : r.Bland) {name : Text} (h : Mark.Named name) (t : Text) :
    r.token? .pattern ledger behind (openCapture (some name) ++ t) =
      if (ledger.index? name).isSome then .error (.duplicateName (openCapture (some name)))
      else .ok (some (.opens (some name), (openCapture (some name)).length)) := by
  rw [token?_openCapture h.ne_nil h.isNameChar]
  simp only [h.not_digits, h.not_guarded, hr.namespacing, Bool.false_eq_true, if_false, Bool.and_false]

theorem numbered_of_digit {d : Char} (hd : d.isDigit = true) (t : Text) :
    Trigger.numbered ('\\' :: d :: t) =
      some ⟨(t.takeWhile Char.isDigit).length + 2, some (1, (t.takeWhile Char.isDigit).length + 2)⟩ := by
  simp [Trigger.numbered, hd]

/-- A number is written as it is, if it may stand. -/
theorem token?_number {d : Char} (hd : d.isDigit = true) (t : Text) :
    r.token? scope ledger behind ('\\' :: d :: t) =
      if numberStands scope ledger.groupCount (d :: t.takeWhile Char.isDigit) then
        .ok (some (.written ('\\' :: d :: t.takeWhile Char.isDigit),
          (t.takeWhile Char.isDigit).length + 2))
      else .error (.octalOrUndefinedGroup ('\\' :: d :: t.takeWhile Char.isDigit)) := by
  have htake : t.take (t.takeWhile Char.isDigit).length = t.takeWhile Char.isDigit :=
    (List.prefix_iff_eq_take.1 (List.takeWhile_prefix _)).symm
  show r.escape scope ledger ('\\' :: d :: t) = _
  simp only [escape, numbered_of_digit hd, Extent.captured, Extent.text, write]
  simp only [List.take_succ_cons, List.drop_succ_cons, List.drop_zero, htake,
    show (t.takeWhile Char.isDigit).length + 2 - 1 = (t.takeWhile Char.isDigit).length + 1 from rfl]

/-- An escape that is kept is copied, or written as it is. -/
theorem token?_escape (r : Reader) (ledger : Ledger) {c : Char} (hc : c.isDigit = false) {t : Text}
    (h : isKept (scope = .charClass) c t = true) :
    (∀ behind, r.token? scope ledger behind ('\\' :: c :: t) = .ok none) ∨
      ∀ behind, r.token? scope ledger behind ('\\' :: c :: t) =
        .ok (some (.written ['\\', c], 2)) := by
  have hnumbered : Trigger.numbered ('\\' :: c :: t) = none := by
    simp [Trigger.numbered, hc]
  have hk : c ≠ 'k' := by
    rintro rfl
    have hnot (b : Bool) : isKept b 'k' t = false := by cases b <;> rfl
    rw [hnot] at h
    cases h
  have hnamed : (if scope = .pattern then Trigger.namedRef ('\\' :: c :: t) else none) = none := by
    have hnone : Trigger.namedRef ('\\' :: c :: t) = none := by
      unfold Trigger.namedRef
      split
      · rename_i heq
        exact absurd (List.cons.inj (List.cons.inj heq).2).1 hk
      · rfl
    rw [hnone, ite_self]
  have hhex {m : Nat} (hm : m ≤ leadingHexDigits t) (hpos : 0 < m) : ∀ rest, t ≠ '\x7b' :: rest := by
    rintro rest rfl
    simp [leadingHexDigits, show isHexDigit '\x7b' = false from rfl] at hm
    omega
  have hpoint : Trigger.codePoint ('\\' :: c :: t) = none := by
    unfold Trigger.codePoint
    split
    · rename_i cs heq
      obtain ⟨rfl, rfl⟩ := List.cons.inj (List.cons.inj heq).2
      have hu : decide (4 ≤ leadingHexDigits ('\x7b' :: cs)) = true := h
      exact absurd rfl (hhex (of_decide_eq_true hu) (by decide) cs)
    · rfl
  suffices h : r.escape scope ledger ('\\' :: c :: t) = .ok none ∨
      r.escape scope ledger ('\\' :: c :: t) = .ok (some (.written ['\\', c], 2)) from
    h.imp (fun h _ => h) fun h _ => h
  unfold escape
  rw [hnumbered, hnamed, hpoint]
  cases hrefused : Trigger.isRefused c t with
  | false =>
    left
    simp [Trigger.refuse, hrefused]
  | true =>
    right
    have hB : c = 'B' ∧ scope = .pattern := by
      unfold isKept at h
      rw [hc, if_neg Bool.false_ne_true] at h
      unfold Trigger.isRefused at hrefused
      by_cases hu : c = 'u'
      · subst hu
        have hhex : 4 ≤ (t.takeWhile isHexDigit).length := of_decide_eq_true h
        rw [decide_eq_true hhex] at hrefused
        cases hrefused
      rw [if_neg hu] at h
      by_cases hx : c = 'x'
      · subst hx
        have hhex : 2 ≤ (t.takeWhile isHexDigit).length := of_decide_eq_true h
        rw [decide_eq_true hhex] at hrefused
        cases hrefused
      rw [if_neg hx] at h
      by_cases hletter : c = 'c'
      · subst hletter
        rw [if_pos rfl] at h
        rw [h] at hrefused
        cases hrefused
      rw [if_neg hletter] at h
      simp only [beq_eq_false_iff_ne.2 hu, beq_eq_false_iff_ne.2 hx, beq_eq_false_iff_ne.2 hletter,
        Bool.false_and, Bool.or_false] at hrefused
      have hboth : c = 'B' ∧ ¬scope = .charClass := by simpa [hrefused] using h
      refine ⟨hboth.1, ?_⟩
      cases scope with
      | pattern => rfl
      | charClass => exact absurd rfl hboth.2
    obtain ⟨rfl, rfl⟩ := hB
    simp [Trigger.refuse, hrefused, Extent.captured, Extent.text, write]

/-! ## 4. What is read -/

/-- A text is read just when its marks stand, and then as what is written for it. -/
structure Understood (r : Reader) (scope : Scope) (ledger : Ledger) (t t' : Text) (ms : List Mark) :
    Prop where
  reads : Mark.Stand ledger ms → ∀ behind, ∃ pieces, r.Reads scope ledger behind t pieces ∧
    render pieces = t' ∧ names pieces = Mark.names ms
  stand : ∀ behind pieces, r.Reads scope ledger behind t pieces → Mark.Stand ledger ms

/-- All texts of less than `n` characters are read so. -/
def UnderstandsBelow (r : Reader) (n : Nat) : Prop :=
  ∀ scope ledger t t' ms, t.length < n → Rereads scope t t' ms → r.Understood scope ledger t t' ms

namespace Understood

variable {t t' u u' : Text} {ms ms' : List Mark}

theorem nil : r.Understood scope ledger [] [] [] where
  reads _ _ := ⟨[], .nil, rfl, rfl⟩
  stand _ _ _ := trivial

/-- A piece, and what is understood behind it. -/
theorem step {piece : Segment} {n : Nat} (hne : t ≠ []) (hpos : 0 < n)
    (hfirst : ∀ behind, r.segment scope ledger behind t = .ok (piece, n))
    (hrest : r.Understood (piece.scopeAfter scope) (piece.enter ledger) (t.drop n) u' ms')
    (hstand : Mark.Stand ledger ms ↔ Mark.Stand (piece.enter ledger) ms')
    (hnames : Mark.names ms = names [piece] ++ Mark.names ms') :
    r.Understood scope ledger t (piece.text ++ u') ms where
  reads h behind := by
    obtain ⟨pieces, hreads, hrender, hgroups⟩ :=
      hrest.reads (hstand.1 h) ((t.take n).reverse ++ behind)
    refine ⟨piece :: pieces, .cons hne hpos (hfirst behind) hreads, ?_, ?_⟩
    · rw [← hrender]
      rfl
    · rw [hnames, ← hgroups]
      exact List.filterMap_append (l := [piece])
  stand behind pieces h := by
    cases h with
    | nil => exact absurd rfl hne
    | cons _ _ first rest =>
      obtain ⟨rfl, rfl⟩ := Prod.mk.inj (Except.ok.inj ((hfirst behind).symm.trans first))
      exact hstand.2 (hrest.stand _ _ rest)

/-- What no token can read. -/
theorem of_error (hne : t ≠ [])
    (hfirst : ∀ behind, ∃ e, r.token? scope ledger behind t = .error e)
    (hstand : ¬Mark.Stand ledger ms) : r.Understood scope ledger t t' ms where
  reads h := absurd h hstand
  stand behind pieces h := by
    obtain ⟨e, he⟩ := hfirst behind
    cases h with
    | nil => exact absurd rfl hne
    | cons _ _ first _ =>
      unfold segment at first
      rw [he] at first
      cases first

/-- A piece of native text that begins with `v` and goes on with plain characters. -/
theorem copied {v w : Text} {scope' : Scope} (hv : v ≠ [])
    (hpos : 0 < verbatimLength scope (v ++ t))
    (hnone : ∀ behind, r.token? scope ledger behind (v ++ t) = .ok none)
    (htake : (v ++ t).take (verbatimLength scope (v ++ t)) = v ++ w)
    (hplain : ∀ d ∈ w, isPlain d = true) (hscope : Run.scopeAfter scope (v ++ w) = scope')
    (h : Rereads scope' t t' ms) (hbelow : r.UnderstandsBelow (v ++ t).length) :
    r.Understood scope ledger (v ++ t) (v ++ t') ms := by
  have hsplit : t = w ++ (v ++ t).drop (verbatimLength scope (v ++ t)) := by
    have hparts := List.take_append_drop (verbatimLength scope (v ++ t)) (v ++ t)
    rw [htake, List.append_assoc] at hparts
    exact (List.append_cancel_left hparts).symm
  rw [hsplit] at h
  obtain ⟨u, rfl, hu⟩ := h.of_append hplain
  have hne : v ++ t ≠ [] := by simp [hv]
  have hshort : ((v ++ t).drop (verbatimLength scope (v ++ t))).length < (v ++ t).length := by
    have hlength := List.length_pos_iff.2 hne
    rw [List.length_drop]
    omega
  have hfirst (behind : Text) : r.segment scope ledger behind (v ++ t) =
      .ok (.copied (v ++ w), verbatimLength scope (v ++ t)) := by
    rw [segment_of_none (hnone behind), htake]
  rw [← List.append_assoc]
  refine step hne hpos hfirst ?_ Iff.rfl rfl
  show r.Understood (Run.scopeAfter scope (v ++ w)) ledger _ u ms
  rw [hscope]
  exact hbelow _ _ _ u _ hshort hu

/-- A character that no token takes, outside of classes. -/
theorem single {c : Char} {scope' : Scope} (hescape : c ≠ '\\')
    (hnone : ∀ behind, r.token? .pattern ledger behind (c :: t) = .ok none)
    (hscope : scope' = if c = '[' then .charClass else .pattern) (h : Rereads scope' t t' ms)
    (hbelow : r.UnderstandsBelow (c :: t).length) :
    r.Understood .pattern ledger (c :: t) (c :: t') ms := by
  obtain ⟨w, htake, hplain, hopen⟩ := plain_verbatim c t hescape
  refine copied (v := [c]) (w := w) (List.cons_ne_nil _ _) (verbatimLength_pos .pattern c t) hnone htake
    hplain ?_ h hbelow
  rw [hscope]
  by_cases hc : c = '['
  · subst hc
    cases w with
    | nil => rfl
    | cons d w => exact absurd rfl (hopen (List.cons_ne_nil d w)).1
  · rw [if_neg hc]
    cases w <;> simp [Run.scopeAfter, hc]

/-- A character in a class that escapes nothing. -/
theorem inner {c : Char} {scope' : Scope} (hescape : c ≠ '\\')
    (hscope : scope' = if c = ']' then .pattern else .charClass) (h : Rereads scope' t t' ms)
    (hbelow : r.UnderstandsBelow (c :: t).length) :
    r.Understood .charClass ledger (c :: t) (c :: t') ms := by
  have hlength : verbatimLength .charClass (c :: t) = 1 := by
    unfold verbatimLength
    split
    · rename_i heq
      cases heq
    · rename_i heq
      exact absurd (List.cons.inj heq).1 hescape
    · rfl
  refine copied (v := [c]) (w := []) (List.cons_ne_nil _ _) (verbatimLength_pos .charClass c t)
    (fun _ => token?_class hescape t) (by rw [List.singleton_append, hlength]; rfl) nofun ?_ h hbelow
  rw [hscope]
  by_cases hc : c = ']'
  · subst hc
    rfl
  · rw [if_neg hc]
    simp [Run.scopeAfter, hc]

/-- An escape of something other than a digit. -/
theorem escape {c : Char} (hc : c.isDigit = false) (hkept : isKept (scope = .charClass) c t = true)
    (h : Rereads scope t t' ms) (hbelow : r.UnderstandsBelow ('\\' :: c :: t).length) :
    r.Understood scope ledger ('\\' :: c :: t) ('\\' :: c :: t') ms := by
  rcases r.token?_escape ledger hc hkept with hnone | hwritten
  · obtain ⟨k, hk, hplain⟩ := escapeLength_cons scope c t
    have hlength : verbatimLength scope ('\\' :: c :: t) = k + 2 := by
      show 1 + escapeLength scope (c :: t) = k + 2
      omega
    exact copied (v := ['\\', c]) (List.cons_ne_nil _ _) (verbatimLength_pos scope _ _) hnone
      (by rw [List.cons_append, List.singleton_append, hlength]; rfl) hplain
      (by simp [Run.scopeAfter]) h hbelow
  · exact step (List.cons_ne_nil _ _) Nat.two_pos (fun behind => segment_of_some (hwritten behind))
      (hbelow _ _ _ _ _ (Nat.lt_add_of_pos_right Nat.two_pos) h) Iff.rfl rfl

/-- A backslash and all the digits behind it, when they may stand. -/
theorem digits {d : Char} (hd : d.isDigit = true) (h : Rereads scope t t' ms')
    (hstands : numberStands scope ledger.groupCount (d :: t.takeWhile Char.isDigit))
    (hstand : Mark.Stand ledger ms ↔ Mark.Stand ledger ms') (hnames : Mark.names ms = Mark.names ms')
    (hbelow : r.UnderstandsBelow ('\\' :: d :: t).length) :
    r.Understood scope ledger ('\\' :: d :: t) ('\\' :: d :: t') ms := by
  have hsplit : t = t.takeWhile Char.isDigit ++ t.drop (t.takeWhile Char.isDigit).length :=
    takeWhile_append_drop Char.isDigit t
  have hdigits : ∀ c ∈ t.takeWhile Char.isDigit, c.isDigit = true :=
    List.all_eq_true.1 List.all_takeWhile
  have hrest := h
  rw [hsplit] at hrest
  obtain ⟨u, rfl, hu⟩ := hrest.of_append fun c hc => isPlain_of_isDigit (hdigits c hc)
  refine step (List.cons_ne_nil _ _) (Nat.succ_pos _) (fun behind =>
    segment_of_some ((token?_number hd t).trans (if_pos hstands))) (hbelow _ _ _ u ms' ?_ hu) hstand hnames
  simp only [List.drop_succ_cons, List.length_drop, List.length_cons]
  omega

theorem number {d : Char} (hd : d.isDigit = true) (h : Rereads .pattern t t' ms)
    (hbelow : r.UnderstandsBelow ('\\' :: d :: t).length) :
    r.Understood .pattern ledger ('\\' :: d :: t) ('\\' :: d :: t')
      (.number (d :: t.takeWhile Char.isDigit) :: ms) := by
  by_cases hstands : numberStands .pattern ledger.groupCount (d :: t.takeWhile Char.isDigit)
  · exact digits hd h hstands (and_iff_right hstands) rfl hbelow
  · exact of_error (List.cons_ne_nil _ _)
      (fun behind => ⟨_, (token?_number hd t).trans (if_neg hstands)⟩) fun h => hstands h.1

/-- A zero in a class. -/
theorem zero {d : Char} (hd : d.isDigit = true) (hkept : isKept true d t = true)
    (h : Rereads .charClass t t' ms) (hbelow : r.UnderstandsBelow ('\\' :: d :: t).length) :
    r.Understood .charClass ledger ('\\' :: d :: t) ('\\' :: d :: t') ms := by
  have hzero : d = '0' ∧ t.head?.any Char.isDigit = false := by
    simpa [isKept, hd] using hkept
  have hnone : t.takeWhile Char.isDigit = [] := by
    cases t with
    | nil => rfl
    | cons c t => simp [show c.isDigit = false from hzero.2]
  refine digits hd h (.inr ?_) Iff.rfl rfl hbelow
  rw [hnone, hzero.1]

theorem named (hr : r.Bland) {name : Text} (hname : Mark.Named name) (h : Rereads .pattern t t' ms)
    (hbelow : r.UnderstandsBelow (openCapture (some name) ++ t).length) :
    r.Understood .pattern ledger (openCapture (some name) ++ t) ('(' :: t')
      (.opens (some name) :: ms) := by
  have hne : openCapture (some name) ++ t ≠ [] := by simp [openCapture]
  cases hindex : ledger.index? name with
  | some i =>
    refine of_error hne (fun behind => ⟨.duplicateName (openCapture (some name)), ?_⟩) fun hstand => ?_
    · rw [token?_named hr hname t, hindex]
      rfl
    · rw [hstand.1] at hindex
      cases hindex
  | none =>
    have hdrop : (openCapture (some name) ++ t).drop (openCapture (some name)).length = t :=
      List.drop_left
    have hpos : 0 < (openCapture (some name)).length := by simp [openCapture]
    have hfirst (behind : Text) : r.segment .pattern ledger behind (openCapture (some name) ++ t) =
        .ok (.opens (some name), (openCapture (some name)).length) :=
      segment_of_some ((token?_named hr hname t).trans (by rw [hindex]; rfl))
    have hstand : Mark.Stand ledger (.opens (some name) :: ms) ↔
        Mark.Stand (ledger.push (some name)) ms := and_iff_right hindex
    refine step hne hpos hfirst ?_ hstand rfl
    rw [hdrop]
    exact hbelow _ (ledger.push (some name)) _ _ _ (by rw [List.length_append]; omega) h

end Understood

/-- **A text is read again just when its marks stand**, and then as what is written for it. -/
theorem understood_of_rereads (hr : r.Bland) : ∀ (limit : Nat), r.UnderstandsBelow limit
  | 0 => fun _ _ _ _ _ hlimit _ => absurd hlimit (Nat.not_lt_zero _)
  | limit + 1 => fun scope ledger t t' ms hlimit h => by
      have hbelow : r.UnderstandsBelow t.length := fun scope ledger s u ms hs hu =>
        understood_of_rereads hr limit scope ledger s u ms (by omega) hu
      cases h with
      | nil => exact .nil
      | @plain _ c _ _ _ hc rest =>
        have hne : c ≠ '\\' ∧ c ≠ '(' ∧ c ≠ '[' ∧ c ≠ ']' := by
          simp only [isPlain, Bool.and_eq_true, bne_iff_ne] at hc
          exact ⟨hc.1.1.1, hc.2, hc.1.1.2, hc.1.2⟩
        cases scope with
        | pattern =>
          exact .single hne.1 (fun _ => token?_other hr hne.1 hne.2.1 hne.2.2.1 _)
            (if_neg hne.2.2.1).symm rest hbelow
        | charClass => exact .inner hne.1 (if_neg hne.2.2.2).symm rest hbelow
      | close rest =>
        cases scope with
        | pattern =>
          exact .single (by decide) (fun _ => token?_other hr (by decide) (by decide) (by decide) _)
            rfl rest hbelow
        | charClass => exact .inner (by decide) rfl rest hbelow
      | set bare rest => exact .single (by decide) (fun _ => token?_set bare) rfl rest hbelow
      | inner hescape hclose rest => exact .inner hescape (if_neg hclose).symm rest hbelow
      | @escape _ c _ _ _ digit kept rest =>
        cases hc : c.isDigit with
        | false => exact .escape hc kept rest hbelow
        | true =>
          obtain rfl := digit hc
          exact .zero hc kept rest hbelow
      | number digit rest => exact .number digit rest hbelow
      | capture head rest =>
        exact .step (List.cons_ne_nil _ _) Nat.one_pos
          (fun _ => segment_of_some (token?_capture hr.capture head))
          (hbelow _ (ledger.push none) _ _ _ (Nat.lt_succ_self _) rest) Iff.rfl rfl
      | named named rest => exact .named hr named rest hbelow
      | group opens rest => exact .single (by decide) (fun _ => token?_group opens _) rfl rest hbelow

end Reader

/-! ## 5. Words -/

/-- The marks of a word before a text. -/
def NamedWord.marks (next : Text) (w : NamedWord) : List Mark :=
  if w.1.captures then [.opens w.2]
  else
    match w.1.text with
    | '\\' :: d :: ds =>
      if d.isDigit then [.number (d :: (ds ++ next).takeWhile Char.isDigit)] else []
    | _ => []

/-- The marks of words that are written one after another. -/
def marksOf : List NamedWord → List Mark
  | [] => []
  | w :: ws => w.marks (writeNamed ws) ++ marksOf ws

section Words

variable {next next' : Text} {ms : List Mark}

theorem isKept_append {c : Char} {cs : Text} (h : isKept false c cs = true) (next : Text) :
    isKept false c (cs ++ next) = true := by
  have hdigits {m : Nat} (hm : m ≤ leadingHexDigits cs) : m ≤ leadingHexDigits (cs ++ next) := by
    refine hm.trans ?_
    unfold leadingHexDigits
    rw [List.takeWhile_append]
    split
    · rename_i hall
      rw [List.length_append, hall]
      exact Nat.le_add_right _ _
    · exact Nat.le_refl _
  unfold isKept at h ⊢
  split_ifs at h ⊢
  · rfl
  · rw [decide_eq_true_eq] at h ⊢
    exact hdigits h
  · rw [decide_eq_true_eq] at h ⊢
    exact hdigits h
  · cases cs with
    | nil => cases h
    | cons d cs => exact h
  · exact h

theorem rereads_classBody {body : Text} (h : ClassBody body) (htidy : tidy true body = true)
    (hnext : Rereads .pattern next next' ms) :
    Rereads .charClass (body ++ next) (body ++ next') ms := by
  induction h with
  | close => exact .close hnext
  | @escape c cs rest ih =>
    rw [tidy_escape, Bool.and_eq_true, ← isKept_of_classBody rest] at htidy
    exact .escape (fun _ => rfl) htidy.1 (ih htidy.2)
  | other hclose hback rest ih =>
    rw [tidy_other hback (fun h => Bool.noConfusion h) (fun _ => hclose)] at htidy
    exact .inner hback hclose (ih htidy)

theorem rereads_trail {w : Text} (h : Trail w) (hnext : Rereads .pattern next next' ms) :
    Rereads .pattern (w ++ next) (w ++ next') ms := by
  rcases h with hplain | ⟨high, low, rfl, -, hlength, hhigh, hlow⟩
  · exact hnext.append hplain
  · have hkept : isKept false 'u' (low ++ next) = true := by
      refine isKept_append ?_ next
      have hall : low.takeWhile isHexDigit = low := List.takeWhile_eq_self_iff.2 hlow
      simp [isKept, leadingHexDigits, hall, hlength]
    have hescape : Rereads .pattern ('\\' :: 'u' :: (low ++ next)) ('\\' :: 'u' :: (low ++ next')) ms :=
      .escape (fun h => absurd h (by decide)) hkept
        (hnext.append fun d hd => isPlain_of_isHexDigit (hlow d hd))
    rw [List.append_assoc, List.append_assoc]
    exact hescape.append fun d hd => isPlain_of_isHexDigit (hhigh d hd)

theorem captures_of_still {w : Word} (h : Still w.lexeme) : w.captures = false := by
  unfold Word.captures
  split
  · rename_i name hl
    exact absurd hl (h.2 name)
  · rfl

theorem text_of_still {w : Word} (h : Still w.lexeme) (name : Option Text) :
    NamedWord.text (w, name) = w.text := by
  rw [NamedWord.text, captures_of_still h, if_neg Bool.false_ne_true]

theorem marks_of_still {c : Char} {cs : Text} {l : Lexeme} (h : Still l) (hc : c ≠ '\\')
    (name : Option Text) : NamedWord.marks next (⟨c :: cs, l⟩, name) = [] := by
  unfold NamedWord.marks
  rw [captures_of_still h, if_neg Bool.false_ne_true]
  split
  · rename_i heq
    exact absurd (List.cons.inj heq).1 hc
  · rfl

theorem marks_of_escape {c : Char} {cs : Text} {l : Lexeme} (h : Still l) (name : Option Text) :
    NamedWord.marks next (⟨'\\' :: c :: cs, l⟩, name) =
      if c.isDigit then [.number (c :: (cs ++ next).takeWhile Char.isDigit)] else [] := by
  unfold NamedWord.marks
  rw [captures_of_still h, if_neg Bool.false_ne_true]
  rfl

/-- A firm word is read again, with a name for its group, as it was written. -/
theorem Firm.rereads {w : Word} (h : Firm w) {name : Option Text}
    (hcapture : w.captures = true → next.head? ≠ some '?')
    (hname : ∀ n, name = some n → Mark.Named n) (hnext : Rereads .pattern next next' ms) :
    Rereads .pattern (NamedWord.text (w, name) ++ next) (w.text ++ next')
      (NamedWord.marks next (w, name) ++ ms) := by
  cases h with
  | capture =>
    cases name with
    | none => exact .capture (hcapture rfl) hnext
    | some n => exact .named (hname n rfl) hnext
  | number ne_nil isDigit not_zero =>
    obtain ⟨d, ds, rfl⟩ := List.exists_cons_of_ne_nil ne_nil
    have hd := isDigit d List.mem_cons_self
    have hmarks : NamedWord.marks next (numberWord (d :: ds), name) =
        [.number (d :: (ds ++ next).takeWhile Char.isDigit)] := if_pos hd
    rw [hmarks]
    exact .number hd (hnext.append fun c hc =>
      isPlain_of_isDigit (isDigit c (List.mem_cons_of_mem d hc)))
  | @plain c cs l still first plain =>
    have hne : c ≠ '\\' := by
      rcases first with hfirst | rfl
      · rintro rfl
        cases hfirst
      · decide
    rw [marks_of_still still hne, text_of_still still]
    rcases first with hfirst | rfl
    · exact .plain hfirst (hnext.append plain)
    · exact .close (hnext.append plain)
  | @opens kind cs opens =>
    have still : Still (.opening kind) :=
      ⟨nofun, fun n h => opens.kind_ne n (Lexeme.opening.inj h)⟩
    rw [marks_of_still still (by decide), text_of_still still]
    exact .group opens (.plain rfl (hnext.append opens.plain))
  | @escape c cs l still digit trail kept =>
    rw [marks_of_escape still, text_of_still still]
    cases hc : c.isDigit with
    | true => exact .number hc (rereads_trail trail hnext)
    | false =>
      exact .escape (fun h => absurd h (by simp [hc])) (isKept_append kept next)
        (rereads_trail trail hnext)
  | @set body l still closes bare tidy =>
    rw [marks_of_still still (by decide), text_of_still still]
    exact .set ((isBare_classBody closes next).trans bare) (rereads_classBody closes tidy hnext)

end Words

end ExtensibleRegex
