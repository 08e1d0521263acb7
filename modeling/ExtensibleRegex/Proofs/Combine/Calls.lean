import ExtensibleRegex.Proofs.Combine.Rereading
import ExtensibleRegex.Proofs.Expansion.Items
import Mathlib.Tactic

/-!
# Texts with groups and references, and how they are read

A build writes native text with parentheses, names and references between, and its dialect reads the
whole once more. This file says what is read, under all flags but `n` and `x`.

* `Calls` relates a text, character by character, to the groups that it opens and refers to, by number
  or by name.
* `Resolves` gives every reference the number of its group.
* `Reader.told_of_calls` says that these are the groups and references that are read, that every group
  opens as it is read, and that no digit follows a reference in what is written.
-/

namespace ExtensibleRegex

open Native

/-! ## 1. Calls -/

/-- A group that a text opens, or refers to. -/
inductive Call where
  | opens (name : Option Text)
  | number (n : Nat)
  | name (name : Text)
  deriving DecidableEq, Repr

/-- A text that is read in a scope, and its calls. Classes end in it, it opens no other groups, and no
token takes a reference in it for another one. -/
inductive Calls : Scope → Text → List Call → Prop where
  | nil : Calls .pattern [] []
  | plain {scope : Scope} {c : Char} {t : Text} {cs : List Call} (plain : isPlain c = true)
      (rest : Calls scope t cs) : Calls scope (c :: t) cs
  | close {scope : Scope} {t : Text} {cs : List Call} (rest : Calls .pattern t cs) :
      Calls scope (']' :: t) cs
  | set {t : Text} {cs : List Call} (rest : Calls .charClass t cs) : Calls .pattern ('[' :: t) cs
  /-- A parenthesis or an opening bracket in a class. -/
  | inner {c : Char} {t : Text} {cs : List Call} (ne_escape : c ≠ '\\') (ne_close : c ≠ ']')
      (rest : Calls .charClass t cs) : Calls .charClass (c :: t) cs
  | escape {scope : Scope} {c : Char} {t : Text} {cs : List Call}
      (digit : scope = .pattern → c.isDigit = true → c = '0')
      (unnamed : scope = .pattern → c = 'k' → t.head? ≠ some '<')
      (rest : Calls scope t cs) : Calls scope ('\\' :: c :: t) cs
  /-- A reference by number. -/
  | number {n : Nat} {t : Text} {cs : List Call} (pos : 0 < n)
      (head : t.head?.any Char.isDigit = false) (rest : Calls .pattern t cs) :
      Calls .pattern (numberReference n ++ t) (.number n :: cs)
  /-- A reference by name. -/
  | name {name t : Text} {cs : List Call} (ne_nil : name ≠ []) (isNameChar : ∀ c ∈ name, isNameChar c = true)
      (not_digits : name.all Char.isDigit = false) (head : t.head?.any Char.isDigit = false)
      (rest : Calls .pattern t cs) : Calls .pattern (nameReference name ++ t) (.name name :: cs)
  /-- The parenthesis of a group that captures. -/
  | capture {t : Text} {cs : List Call} (head : t.head? ≠ some '?') (rest : Calls .pattern t cs) :
      Calls .pattern ('(' :: t) (.opens none :: cs)
  | named {name t : Text} {cs : List Call} (ne_nil : name ≠ [])
      (isNameChar : ∀ c ∈ name, isNameChar c = true) (head : t.head? ≠ some '?')
      (rest : Calls .pattern t cs) :
      Calls .pattern (openCapture (some name) ++ t) (.opens (some name) :: cs)
  /-- The parenthesis of a group that does not capture. -/
  | group {kind : Opening} {w t : Text} {cs : List Call} (opens : Opens kind w)
      (rest : Calls .pattern ('?' :: (w ++ t)) cs) : Calls .pattern ('(' :: '?' :: (w ++ t)) cs

/-- What calls come to, behind the groups of a ledger. -/
inductive Resolves : Ledger → List Call → List Item → Prop where
  | nil {ledger : Ledger} : Resolves ledger [] []
  | opens {ledger : Ledger} {name : Option Text} {cs : List Call} {is : List Item}
      (rest : Resolves (ledger.push name) cs is) :
      Resolves ledger (.opens name :: cs) (.opens name :: is)
  | number {ledger : Ledger} {n : Nat} {cs : List Call} {is : List Item} (le : n ≤ ledger.groupCount)
      (rest : Resolves ledger cs is) : Resolves ledger (.number n :: cs) (.refers n :: is)
  | name {ledger : Ledger} {name : Text} {n : Nat} {cs : List Call} {is : List Item}
      (found : ledger.index? name = some n) (rest : Resolves ledger cs is) :
      Resolves ledger (.name name :: cs) (.refers n :: is)

namespace Calls

variable {scope : Scope} {t : Text} {cs : List Call}

theorem append : ∀ {w : Text}, (∀ d ∈ w, isPlain d = true) → Calls scope t cs →
    Calls scope (w ++ t) cs
  | [], _, h => h
  | d :: _, hw, h => .plain (hw d List.mem_cons_self)
      (append (fun e he => hw e (List.mem_cons_of_mem d he)) h)

/-- Plain characters call nothing. -/
theorem of_append : ∀ {w : Text}, (∀ d ∈ w, isPlain d = true) → Calls scope (w ++ t) cs →
    Calls scope t cs
  | [], _, h => h
  | d :: w, hw, h => by
      have hd := hw d List.mem_cons_self
      have hnot {e : Char} (he : isPlain e = false) : d ≠ e := by
        rintro rfl
        rw [hd] at he
        cases he
      have ih (hrest : Calls scope (w ++ t) cs) : Calls scope t cs :=
        of_append (fun e he => hw e (List.mem_cons_of_mem d he)) hrest
      have hhead (e : Char) (v : Text) (heq : d :: (w ++ t) = e :: v) : d = e ∧ w ++ t = v :=
        List.cons.inj heq
      rw [List.cons_append] at h
      generalize hv : d :: (w ++ t) = v at h
      cases h with
      | nil => cases hv
      | plain _ rest =>
        obtain ⟨rfl, rfl⟩ := hhead _ _ hv
        exact ih rest
      | inner _ _ rest =>
        obtain ⟨rfl, rfl⟩ := hhead _ _ hv
        exact ih rest
      | close _ => exact absurd (hhead _ _ hv).1 (hnot rfl)
      | set _ => exact absurd (hhead _ _ hv).1 (hnot rfl)
      | escape _ _ _ => exact absurd (hhead _ _ hv).1 (hnot rfl)
      | number _ _ _ => exact absurd (hhead _ _ hv).1 (hnot rfl)
      | name _ _ _ _ _ => exact absurd (hhead _ _ hv).1 (hnot rfl)
      | capture _ _ => exact absurd (hhead _ _ hv).1 (hnot rfl)
      | named _ _ _ _ => exact absurd (hhead _ _ hv).1 (hnot rfl)
      | group _ _ => exact absurd (hhead _ _ hv).1 (hnot rfl)

end Calls

/-! ## 2. Openings of groups that do not capture -/

theorem mem_of_modifiers? {w : Text} {kind : Opening} (h : modifiers? w = some (kind, w.length)) :
    ∀ d ∈ w, d ∈ [':', '-', 'i', 'm', 's'] := by
  unfold modifiers? at h
  simp only at h
  generalize hq : (fun c : Char => c == 'i' || c == 'm' || c == 's') = q at h
  have hmode {t : Text} {d : Char} (hd : d ∈ t.takeWhile q) : d ∈ [':', '-', 'i', 'm', 's'] := by
    have hqd := List.all_eq_true.1 List.all_takeWhile d hd
    rw [← hq] at hqd
    simp only [Bool.or_eq_true, beq_iff_eq] at hqd
    rcases hqd with (rfl | rfl) | rfl <;> decide
  have hsplit := takeWhile_append_drop q w
  split at h
  · rename_i rest hdrop
    split at h
    case isFalse => cases h
    obtain ⟨-, hlength⟩ := Prod.mk.inj (Option.some.inj h)
    rw [hdrop] at hsplit
    have hnil : rest = [] := by
      have hlen := congrArg List.length hsplit
      simp only [List.length_append, List.length_cons] at hlen
      exact List.length_eq_zero_iff.1 (by omega)
    intro d hd
    rw [hsplit, hnil] at hd
    rcases List.mem_append.1 hd with hd | hd
    · exact hmode hd
    · rw [List.mem_singleton.1 hd]
      decide
  · rename_i rest hdrop
    split at h
    case isFalse => cases h
    rename_i hcond
    obtain ⟨-, hlength⟩ := Prod.mk.inj (Option.some.inj h)
    have hrest := takeWhile_append_drop q rest
    obtain ⟨tail, htail⟩ := List.head?_eq_some_iff.1 hcond.1
    rw [htail] at hrest
    rw [hdrop] at hsplit
    have hnil : tail = [] := by
      have hlen := congrArg List.length hsplit
      have hlen' := congrArg List.length hrest
      simp only [List.length_append, List.length_cons] at hlen hlen' hlength
      exact List.length_eq_zero_iff.1 (by omega)
    intro d hd
    rw [hsplit, hrest, hnil] at hd
    simp only [List.mem_append, List.mem_cons, List.not_mem_nil, or_false] at hd
    rcases hd with hd | rfl | hd | rfl
    · exact hmode hd
    · decide
    · exact hmode hd
    · decide
  · cases h

/-- The openings of groups that do not capture. -/
theorem Opens.form {kind : Opening} {w : Text} (h : Opens kind w) :
    w ∈ [['='], ['!'], ['<', '='], ['<', '!']] ∨ ∀ d ∈ w, d ∈ [':', '-', 'i', 'm', 's'] := by
  have hopening := h.opening []
  have hlook {v rest : Text} (heq : '?' :: w = '?' :: (v ++ rest)) (hn : v.length + 1 = w.length + 1) :
      w = v := by
    have hw := (List.cons.inj heq).2
    have hlength := congrArg List.length hw
    rw [List.length_append] at hlength
    obtain rfl : rest = [] := List.length_eq_zero_iff.1 (by omega)
    rw [hw, List.append_nil]
  rw [List.append_nil] at hopening
  unfold opening? at hopening
  split at hopening
  · rename_i rest heq
    rw [hlook (v := ['=']) heq (Prod.mk.inj (Option.some.inj hopening)).2]
    exact .inl (by decide)
  · rename_i rest heq
    rw [hlook (v := ['!']) heq (Prod.mk.inj (Option.some.inj hopening)).2]
    exact .inl (by decide)
  · rename_i rest heq
    rw [hlook (v := ['<', '=']) heq (Prod.mk.inj (Option.some.inj hopening)).2]
    exact .inl (by decide)
  · rename_i rest heq
    rw [hlook (v := ['<', '!']) heq (Prod.mk.inj (Option.some.inj hopening)).2]
    exact .inl (by decide)
  · obtain ⟨r, -, hr⟩ := Option.map_eq_some_iff.1 hopening
    exact absurd (Prod.mk.inj hr).1.symm (h.kind_ne _)
  · rename_i rest _ _ _ _ _ heq
    obtain ⟨r, hr, hkind⟩ := Option.map_eq_some_iff.1 hopening
    obtain ⟨-, hn⟩ := Prod.mk.inj hkind
    obtain rfl := (List.cons.inj heq).2
    have hmodifiers : modifiers? w = some (r.1, w.length) := by
      rw [hr, ← Nat.succ.inj hn]
    exact .inr (mem_of_modifiers? hmodifiers)
  · rename_i hquestion
    exact absurd rfl (hquestion w)

theorem Opens.ne_nil {kind : Opening} {w : Text} (h : Opens kind w) : w ≠ [] := by
  rintro rfl
  have hopening := h.opening ['=']
  cases hopening

theorem opensCapture_question {t : Text} (h : t.head? ≠ some '<') : opensCapture ('?' :: t) = false := by
  unfold opensCapture
  split
  · rfl
  · rfl
  · rename_i heq
    cases heq
    exact absurd rfl h
  · rfl
  · rename_i hquestion
    exact absurd rfl (hquestion t)

/-! ## 3. What is read -/

namespace Reader

variable {r : Reader} {scope scope' : Scope} {ledger : Ledger} {behind t u : Text} {cs : List Call}
  {pieces : List Segment}

/-- What is known of the pieces of a text with calls. -/
structure Told (scope : Scope) (ledger : Ledger) (t : Text) (cs : List Call)
    (pieces : List Segment) : Prop where
  clear : Clear scope pieces
  delimited : Delimited pieces
  resolves : Resolves ledger cs (items pieces)
  head : ∀ c, (render pieces).head? = some c → t.head? = some c ∨ c ∈ ['\\', '[', '(']

/-- All texts of less than `n` characters are read so. -/
def TellsBelow (r : Reader) (n : Nat) : Prop :=
  ∀ scope ledger behind t cs pieces, t.length < n → Calls scope t cs →
    r.Reads scope ledger behind t pieces → Told scope ledger t cs pieces

theorem Told.not_digit (h : Told scope ledger t cs pieces) (ht : t.head?.any Char.isDigit = false) :
    (render pieces).head?.any Char.isDigit = false := by
  cases hhead : (render pieces).head? with
  | none => rfl
  | some c =>
    rcases h.head c hhead with hc | hc
    · rw [hc] at ht
      exact ht
    · simp only [List.mem_cons, List.not_mem_nil, or_false] at hc
      rcases hc with rfl | rfl | rfl <;> rfl

/-- What stays of a text begins as the text does. -/
theorem Told.copied {c : Char} {v : Text} (hreference : isReference (c :: v) = false)
    (hclear : (Segment.copied (c :: v)).Clear scope (render pieces))
    (hscope : Run.scopeAfter scope (c :: v) = scope') (h : Told scope' ledger u cs pieces) :
    Told scope ledger (c :: t) cs (.copied (c :: v) :: pieces) where
  clear := by
    subst hscope
    exact ⟨hclear, h.clear⟩
  delimited := by
    refine ⟨fun htrue => ?_, h.delimited⟩
    exact absurd (hreference.symm.trans htrue) Bool.false_ne_true
  resolves := h.resolves
  head d hd := .inl hd

/-- What a token writes, when it says nothing about groups. -/
theorem Told.written {c : Char} {w : Text} (hitem : (Segment.written (c :: w)).item? = none)
    (hdelimited : (Segment.written (c :: w)).Delimited (render pieces)) (hc : c ∈ ['\\', '[', '('])
    (h : Told scope ledger u cs pieces) :
    Told scope ledger t cs (.written (c :: w) :: pieces) where
  clear := ⟨trivial, h.clear⟩
  delimited := ⟨hdelimited, h.delimited⟩
  resolves := by
    have hitems : items (.written (c :: w) :: pieces) = items pieces := List.filterMap_cons_none hitem
    rw [hitems]
    exact h.resolves
  head d hd := by
    obtain rfl : c = d := Option.some.inj hd
    exact .inr hc

/-- A reference. -/
theorem Told.reference {n : Nat} {call : Call} (hn : 0 < n)
    (hnext : u.head?.any Char.isDigit = false)
    (hresolves : ∀ is, Resolves ledger cs is → Resolves ledger (call :: cs) (.refers n :: is))
    (h : Told .pattern ledger u cs pieces) :
    Told .pattern ledger t (call :: cs) (.written ('\\' :: decimalText n) :: pieces) where
  clear := ⟨trivial, h.clear⟩
  delimited := ⟨fun _ => h.not_digit hnext, h.delimited⟩
  resolves := by
    have hitem := item?_reference hn (.inl rfl)
    rw [List.append_nil] at hitem
    have hitems : items (.written ('\\' :: decimalText n) :: pieces) = .refers n :: items pieces :=
      List.filterMap_cons_some hitem
    rw [hitems]
    exact hresolves _ h.resolves
  head d hd := .inr (by
    obtain rfl : '\\' = d := Option.some.inj hd
    exact List.mem_cons_self)

/-- The opening of a group. -/
theorem Told.opens {name : Option Text} (hclear : (render pieces).head? ≠ some '?')
    (h : Told .pattern (ledger.push name) u cs pieces) :
    Told .pattern ledger t (.opens name :: cs) (.opens name :: pieces) where
  clear := ⟨hclear, h.clear⟩
  delimited := ⟨fun hreference => absurd hreference Bool.false_ne_true, h.delimited⟩
  resolves := .opens h.resolves
  head d hd := .inr (by
    obtain rfl : '(' = d := Option.some.inj hd
    decide)

/-! ## 4. Case by case -/

theorem isReference_other {c : Char} (hc : c ≠ '\\') (w : Text) : isReference (c :: w) = false := by
  unfold isReference
  split
  · rename_i heq
    exact absurd (List.cons.inj heq).1 hc
  · rfl

/-- A character that no token takes is copied, perhaps with plain ones. -/
theorem exists_copied {c : Char} (hescape : c ≠ '\\')
    (hnone : r.token? scope ledger behind (c :: t) = .ok none)
    (h : r.Reads scope ledger behind (c :: t) pieces) :
    ∃ v u rest, pieces = .copied (c :: v) :: rest ∧ t = v ++ u ∧ (∀ d ∈ v, isPlain d = true) ∧
      (c :: t).take (verbatimLength scope (c :: t)) = c :: v ∧
      Run.scopeAfter scope (c :: v) = Run.scopeAfter scope [c] ∧
      ∃ behind', r.Reads (Run.scopeAfter scope (c :: v)) ledger behind' u rest := by
  obtain ⟨piece, n, rest, rfl, hsegment, hreads⟩ := h.exists_cons (List.cons_ne_nil c t)
  rw [segment_of_none hnone] at hsegment
  obtain ⟨rfl, rfl⟩ := Prod.mk.inj (Except.ok.inj hsegment)
  have hsplit {v : Text} (htake : (c :: t).take (verbatimLength scope (c :: t)) = c :: v) :
      t = v ++ (c :: t).drop (verbatimLength scope (c :: t)) := by
    have hparts := List.take_append_drop (verbatimLength scope (c :: t)) (c :: t)
    rw [htake, List.cons_append] at hparts
    exact (List.cons.inj hparts).2.symm
  cases scope with
  | charClass =>
    have hlength : verbatimLength .charClass (c :: t) = 1 := by simp [verbatimLength]
    rw [hlength] at hreads ⊢
    exact ⟨[], t, rest, rfl, rfl, List.forall_mem_nil _, rfl, rfl, _, hreads⟩
  | pattern =>
    obtain ⟨v, htake, hplain, hmore⟩ := plain_verbatim c t hescape
    rw [htake] at hreads ⊢
    refine ⟨v, _, rest, rfl, hsplit htake, hplain, rfl, ?_, _, hreads⟩
    cases v with
    | nil => rfl
    | cons d v =>
      have hopen : c ≠ '[' := (hmore (List.cons_ne_nil d v)).1
      simp [Run.scopeAfter, hopen]

/-- A character that no token takes, and that opens no group. -/
theorem told_of_none {c : Char} (hescape : c ≠ '\\') (hparen : scope = .pattern → c ≠ '(')
    (hnone : r.token? scope ledger behind (c :: t) = .ok none)
    (hcalls : Calls (Run.scopeAfter scope [c]) t cs) (hbelow : r.TellsBelow (c :: t).length)
    (h : r.Reads scope ledger behind (c :: t) pieces) : Told scope ledger (c :: t) cs pieces := by
  obtain ⟨v, u, rest, rfl, rfl, hplain, -, hscope, behind', hreads⟩ := exists_copied hescape hnone h
  rw [hscope] at hreads
  have hrest := hbelow _ _ _ _ _ _ (by simp only [List.length_cons, List.length_append]; omega)
    (hcalls.of_append hplain) hreads
  refine hrest.copied (isReference_other hescape v) ?_ hscope
  rintro ⟨hpattern, heq⟩
  exact absurd (List.cons.inj heq).1 (hparen hpattern)

/-- In a class, no token takes a character that escapes nothing. -/
theorem told_of_class {c : Char} (hescape : c ≠ '\\')
    (hcalls : Calls (Run.scopeAfter .charClass [c]) t cs) (hbelow : r.TellsBelow (c :: t).length)
    (h : r.Reads .charClass ledger behind (c :: t) pieces) :
    Told .charClass ledger (c :: t) cs pieces :=
  told_of_none hescape (fun hscope => absurd hscope (by decide)) (token?_class hescape t) hcalls
    hbelow h

/-- Outside of classes a dot may stand for any character. -/
theorem token?_single (hx : r.flags.contains 'x' = false) {c : Char} (hescape : c ≠ '\\')
    (hparen : c ≠ '(') (hopen : c ≠ '[') (t : Text) :
    r.token? .pattern ledger behind (c :: t) = .ok none ∨
      r.token? .pattern ledger behind (c :: t) = .ok (some (.written "[\\s\\S]".toList, 1)) := by
  have hblank : r.blank behind (c :: t) = .ok none := by
    unfold blank
    rw [hx]
    rfl
  by_cases hdot : c = '.'
  · subst hdot
    show r.dot ('.' :: t) = .ok none ∨ r.dot ('.' :: t) = _
    unfold dot
    cases r.flags.contains 's' with
    | true => exact .inr rfl
    | false => exact .inl rfl
  · left
    simp [token?, hescape, hparen, hopen, hdot, hblank]

theorem told_of_single (hx : r.flags.contains 'x' = false) {c : Char} (hescape : c ≠ '\\')
    (hparen : c ≠ '(') (hopen : c ≠ '[') (hcalls : Calls .pattern t cs)
    (hbelow : r.TellsBelow (c :: t).length) (h : r.Reads .pattern ledger behind (c :: t) pieces) :
    Told .pattern ledger (c :: t) cs pieces := by
  have hscope : Run.scopeAfter .pattern [c] = .pattern := by simp [Run.scopeAfter, hopen]
  have hsingle : r.token? .pattern ledger behind (c :: t) = .ok none ∨
      r.token? .pattern ledger behind (c :: t) = .ok (some (.written "[\\s\\S]".toList, 1)) :=
    token?_single hx hescape hparen hopen t
  rcases hsingle with hnone | hdot
  · exact told_of_none hescape (fun _ => hparen) hnone (hscope.symm ▸ hcalls) hbelow h
  · obtain ⟨piece, n, rest, rfl, hsegment, hreads⟩ := h.exists_cons (List.cons_ne_nil c t)
    rw [segment_of_some hdot] at hsegment
    obtain ⟨rfl, rfl⟩ := Prod.mk.inj (Except.ok.inj hsegment)
    have hrest := hbelow _ _ _ _ _ _ (Nat.lt_succ_self _) hcalls hreads
    exact hrest.written rfl (fun hreference => absurd hreference Bool.false_ne_true) (by decide)

/-- An opening bracket. -/
theorem told_of_set (hcalls : Calls .charClass t cs) (hbelow : r.TellsBelow ('[' :: t).length)
    (h : r.Reads .pattern ledger behind ('[' :: t) pieces) :
    Told .pattern ledger ('[' :: t) cs pieces := by
  have hwritten {w : Text} {n : Nat} {u : Text}
      (htoken : bareClass ('[' :: t) = .ok (some (.written w, n)))
      (hitem : (Segment.written w).item? = none) (hreference : isReference w = false)
      (hw : ∃ c v, w = c :: v ∧ c ∈ ['\\', '[', '(']) (hdrop : ('[' :: t).drop n = u)
      (hshort : u.length < ('[' :: t).length) (hcalls : Calls .pattern u cs) :
      Told .pattern ledger ('[' :: t) cs pieces := by
    obtain ⟨piece, m, rest, rfl, hsegment, hreads⟩ := h.exists_cons (List.cons_ne_nil _ t)
    rw [segment_of_some (show r.token? .pattern ledger behind ('[' :: t) = _ from htoken)] at hsegment
    obtain ⟨rfl, rfl⟩ := Prod.mk.inj (Except.ok.inj hsegment)
    rw [hdrop] at hreads
    obtain ⟨c, v, rfl, hc⟩ := hw
    refine (hbelow _ _ _ _ _ _ hshort hcalls hreads).written hitem (fun htrue => ?_) hc
    exact absurd (hreference.symm.trans htrue) Bool.false_ne_true
  cases hbare : Trigger.bareClass ('[' :: t) with
  | none =>
    have hnone : r.token? .pattern ledger behind ('[' :: t) = .ok none := by
      show bareClass ('[' :: t) = .ok none
      unfold bareClass
      rw [hbare]
    exact told_of_none (by decide) (fun _ => by decide) hnone hcalls hbelow h
  | some e =>
    rcases Trigger.of_bareClass hbare with ⟨u, heq, rfl⟩ | ⟨u, heq, rfl⟩
    · obtain rfl := (List.cons.inj heq).2
      have hrest : Calls .pattern u cs := by
        cases hcalls with
        | plain hc _ => cases hc
        | close rest => exact rest
        | inner _ hc _ => exact absurd rfl hc
      exact hwritten (u := u) rfl rfl rfl ⟨_, _, rfl, by decide⟩ rfl
        (by simp only [List.length_cons]; omega) hrest
    · obtain rfl := (List.cons.inj heq).2
      have hclose : Calls .charClass (']' :: u) cs := hcalls.of_append (w := ['^']) (List.all_eq_true.1 rfl)
      have hrest : Calls .pattern u cs := by
        cases hclose with
        | plain hc _ => cases hc
        | close rest => exact rest
        | inner _ hc _ => exact absurd rfl hc
      exact hwritten (u := u) rfl rfl rfl ⟨_, _, rfl, by decide⟩ rfl
        (by simp only [List.length_cons]; omega) hrest

/-- An escape that refers to no group. -/
theorem told_of_escape {c : Char} (hdigit : scope = .pattern → c.isDigit = true → c = '0')
    (hunnamed : scope = .pattern → c = 'k' → t.head? ≠ some '<')
    (hcalls : Calls scope t cs) (hbelow : r.TellsBelow ('\\' :: c :: t).length)
    (h : r.Reads scope ledger behind ('\\' :: c :: t) pieces) :
    Told scope ledger ('\\' :: c :: t) cs pieces := by
  obtain ⟨piece, n, rest, rfl, hsegment, hreads⟩ := h.exists_cons (List.cons_ne_nil _ _)
  have hbehind {v u : Text} (ht : t = v ++ u) (hv : ∀ d ∈ v, isPlain d = true)
      (hdrop : ('\\' :: c :: t).drop n = u) {scope' : Scope} (hscope : piece.scopeAfter scope = scope')
      (henter : piece.enter ledger = ledger) (hsame : scope' = scope) :
      Told scope ledger u cs rest := by
    subst hsame
    rw [hdrop, hscope, henter] at hreads
    rw [ht] at hcalls
    refine hbelow _ _ _ _ _ _ ?_ (hcalls.of_append hv) hreads
    rw [ht]
    simp only [List.length_cons, List.length_append]
    omega
  rcases segment_eq_ok hsegment with htoken | ⟨hnone, rfl, rfl⟩
  · have hescape : r.escape scope ledger ('\\' :: c :: t) = .ok (some (piece, n)) := htoken
    have hsilent {w u : Text} {d : Char} (hd : d.isDigit = false) (h : Told scope ledger u cs rest) :
        Told scope ledger ('\\' :: c :: t) cs (.written ('\\' :: d :: w) :: rest) := by
      refine h.written ?_ (fun hreference => ?_) List.mem_cons_self
      · simp [Segment.item?, hd]
      · simp [Segment.text, isReference, hd] at hreference
    have hbraced {w u : Text} (hw : ∀ d ∈ w, isHexDigit d = true)
        (ht : t = '\x7b' :: (w ++ '\x7d' :: u)) (hn : n = 3 + w.length + 1)
        (hscope : piece.scopeAfter scope = scope) (henter : piece.enter ledger = ledger) :
        Told scope ledger u cs rest := by
      have hcut : t = '\x7b' :: (w ++ ['\x7d']) ++ u := by rw [ht]; simp
      refine hbehind hcut (isPlain_of_braced hw) ?_ hscope henter rfl
      have hwhole : '\\' :: c :: t = ('\\' :: c :: '\x7b' :: (w ++ ['\x7d'])) ++ u := by rw [hcut]; rfl
      rw [hwhole]
      exact List.drop_left' (by rw [hn]; simp; omega)
    cases of_escape hescape with
    | @number w u ne_nil isDigit ends stands read =>
      obtain ⟨d, ds, rfl⟩ := List.exists_cons_of_ne_nil ne_nil
      obtain ⟨rfl, rfl⟩ := List.cons.inj (List.cons.inj read).2
      obtain ⟨rfl, rfl⟩ : c = '0' ∧ ds = [] := by
        rcases stands with ⟨rfl, hhead, -⟩ | hzero
        · exact absurd (by rw [hdigit rfl (isDigit c List.mem_cons_self)]; rfl) hhead
        · simpa using hzero
      have hrest := hbehind (v := []) (u := u) rfl (List.forall_mem_nil _) rfl rfl rfl rfl
      exact hrest.written rfl (fun _ => hrest.not_digit ends) List.mem_cons_self
    | name _ scope_eq _ read =>
      obtain ⟨rfl, rfl⟩ := List.cons.inj (List.cons.inj read).2
      exact absurd rfl (hunnamed scope_eq rfl)
    | unit isHexDigit _ read =>
      obtain ⟨rfl, ht⟩ := List.cons.inj (List.cons.inj read).2
      exact hsilent (by decide) (hbraced isHexDigit ht rfl rfl rfl)
    | point isHexDigit _ read =>
      obtain ⟨rfl, ht⟩ := List.cons.inj (List.cons.inj read).2
      exact hsilent (by decide) (hbraced isHexDigit ht rfl rfl rfl)
    | inside _ read =>
      obtain ⟨rfl, rfl⟩ := List.cons.inj (List.cons.inj read).2
      exact hsilent (by decide) (hbehind (v := []) rfl (List.forall_mem_nil _) rfl rfl rfl rfl)
  · obtain ⟨hdigit, -, -⟩ := of_escape_none
      (show r.escape scope ledger ('\\' :: c :: t) = .ok none from hnone)
    obtain ⟨k, hk, hplain⟩ := escapeLength_cons scope c t
    have hlength : verbatimLength scope ('\\' :: c :: t) = k + 2 := by
      show 1 + escapeLength scope (c :: t) = k + 2
      omega
    rw [hlength] at hbehind ⊢
    have hscope : Run.scopeAfter scope ('\\' :: c :: t.take k) = scope := by
      cases scope <;> rfl
    have hrest := hbehind (List.take_append_drop k t).symm hplain rfl hscope rfl rfl
    refine hrest.copied ?_ ?_ hscope
    · simp [isReference, hdigit]
    · rintro ⟨-, heq⟩
      exact absurd (List.cons.inj heq).1 (by decide)

/-- A reference by number. -/
theorem told_of_number {n : Nat} (hn : 0 < n) (hend : t.head?.any Char.isDigit = false)
    (hcalls : Calls .pattern t cs) (hbelow : r.TellsBelow (numberReference n ++ t).length)
    (h : r.Reads .pattern ledger behind (numberReference n ++ t) pieces) :
    Told .pattern ledger (numberReference n ++ t) (.number n :: cs) pieces := by
  obtain ⟨d, ds, heq, hd⟩ := decimalText_cons hn
  have hdigit : d.isDigit = true := (Bool.and_eq_true_iff.1 hd).1
  have htext : numberReference n ++ t = '\\' :: d :: (ds ++ t) := by
    unfold numberReference
    rw [heq]
    rfl
  have hdigits : d :: (ds ++ t).takeWhile Char.isDigit = decimalText n := by
    have hall := takeWhile_decimalText n hend
    rwa [heq, List.cons_append, List.takeWhile_cons, if_pos (by simpa using hdigit), ← heq] at hall
  have htail : (ds ++ t).takeWhile Char.isDigit = ds := by
    rw [heq] at hdigits
    exact (List.cons.inj hdigits).2
  rw [htext] at h hbelow ⊢
  obtain ⟨piece, m, rest, rfl, hsegment, hreads⟩ := h.exists_cons (List.cons_ne_nil _ _)
  have htoken : r.token? .pattern ledger behind ('\\' :: d :: (ds ++ t)) = _ :=
    token?_number hdigit (ds ++ t)
  rw [hdigits, htail] at htoken
  by_cases hstands : numberStands .pattern ledger.groupCount (decimalText n)
  · rw [if_pos hstands] at htoken
    rw [segment_of_some htoken] at hsegment
    obtain ⟨rfl, rfl⟩ := Prod.mk.inj (Except.ok.inj hsegment)
    have hdrop : ('\\' :: d :: (ds ++ t)).drop (ds.length + 2) = t := List.drop_left
    rw [hdrop] at hreads
    have hle : n ≤ ledger.groupCount := by
      rcases hstands with ⟨-, -, hle⟩ | hzero
      · rwa [readDigits_decimalText] at hle
      · exact absurd (by rw [hzero]; rfl) (head?_decimalText hn)
    have hrest := hbelow _ _ _ _ _ _ (by simp only [List.length_cons, List.length_append]; omega)
      hcalls hreads
    exact hrest.reference hn hend fun is his => .number hle his
  · rw [if_neg hstands] at htoken
    unfold segment at hsegment
    rw [htoken] at hsegment
    cases hsegment

/-- A reference by name. -/
theorem told_of_name {name : Text} (hne : name ≠ []) (hname : ∀ c ∈ name, isNameChar c = true)
    (hdigits : name.all Char.isDigit = false) (hend : t.head?.any Char.isDigit = false)
    (hcalls : Calls .pattern t cs) (hbelow : r.TellsBelow (nameReference name ++ t).length)
    (h : r.Reads .pattern ledger behind (nameReference name ++ t) pieces) :
    Told .pattern ledger (nameReference name ++ t) (.name name :: cs) pieces := by
  have htext : nameReference name ++ t = '\\' :: 'k' :: '<' :: (name ++ '>' :: t) := by
    simp [nameReference]
  have hlength : (nameReference name).length = name.length + 4 := by simp [nameReference]
  have hwhile := takeWhile_append_stop hname (c := '>') rfl t
  have hpos : 0 < name.length := List.length_pos_iff.2 hne
  have hfound : Trigger.namedRef (nameReference name ++ t) =
      some ⟨name.length + 4, some (3, 3 + name.length)⟩ := by
    rw [htext]
    simp [Trigger.namedRef, Extent.enclosed, hwhile, hpos]
    omega
  have hcaptured : (⟨name.length + 4, some (3, 3 + name.length)⟩ : Extent).captured
      (nameReference name ++ t) = name := by
    simp [htext, Extent.captured]
  have hdrop : (nameReference name ++ t).drop (name.length + 4) = t := List.drop_left' hlength
  obtain ⟨piece, m, rest, rfl, hsegment, hreads⟩ := h.exists_cons (by simp [nameReference])
  have htoken : r.token? .pattern ledger behind (nameReference name ++ t) =
      (ledger.index? name).elim (.error (.undefinedGroup (nameReference name)))
        fun n => .ok (some (.written ('\\' :: decimalText n), name.length + 4)) := by
    have hmatch : (⟨name.length + 4, some (3, 3 + name.length)⟩ : Extent).text
        (nameReference name ++ t) = nameReference name := by
      rw [Extent.text, ← hlength, List.take_left]
    show r.escape .pattern ledger (nameReference name ++ t) = _
    have hnumbered : Trigger.numbered (nameReference name ++ t) = none := rfl
    unfold escape
    simp only [hnumbered, if_true, hfound, hcaptured, hmatch, referredGroup?_of_name hdigits, hdrop,
      hend, Bool.false_eq_true, if_false, List.append_nil]
    cases ledger.index? name <;> rfl
  cases hindex : ledger.index? name with
  | none =>
    rw [hindex] at htoken
    unfold segment at hsegment
    rw [htoken] at hsegment
    cases hsegment
  | some n =>
    rw [hindex] at htoken
    rw [segment_of_some htoken] at hsegment
    obtain ⟨rfl, rfl⟩ := Prod.mk.inj (Except.ok.inj hsegment)
    rw [hdrop] at hreads
    have hrest := hbelow _ _ _ _ _ _ (by rw [List.length_append]; omega) hcalls hreads
    exact hrest.reference (index?_le hindex).1 hend fun is his => .name hindex his

/-- A group with a name. -/
theorem told_of_named {name : Text} (hne : name ≠ []) (hname : ∀ c ∈ name, isNameChar c = true)
    (hcalls : Calls .pattern t cs) (hhead : t.head? ≠ some '?')
    (hbelow : r.TellsBelow (openCapture (some name) ++ t).length)
    (h : r.Reads .pattern ledger behind (openCapture (some name) ++ t) pieces) :
    Told .pattern ledger (openCapture (some name) ++ t) (.opens (some name) :: cs) pieces := by
  have hnil : openCapture (some name) ++ t ≠ [] := by simp [openCapture]
  have hpos : 0 < (openCapture (some name)).length := by simp [openCapture]
  obtain ⟨piece, m, rest, rfl, hsegment, hreads⟩ := h.exists_cons hnil
  have htoken : r.token? .pattern ledger behind (openCapture (some name) ++ t) = _ :=
    token?_openCapture hne hname t
  unfold segment at hsegment
  rw [htoken] at hsegment
  split_ifs at hsegment
  obtain ⟨rfl, rfl⟩ := Prod.mk.inj (Except.ok.inj hsegment)
  rw [List.drop_left] at hreads
  have hrest := hbelow _ _ _ _ _ _ (by rw [List.length_append]; omega) hcalls hreads
  refine hrest.opens fun hquestion => ?_
  rcases hrest.head _ hquestion with hq | hq
  · exact hhead hq
  · exact absurd hq (by decide)

/-- A group without a name. -/
theorem told_of_capture (hn : r.flags.contains 'n' = false) (hhead : t.head? ≠ some '?')
    (hcalls : Calls .pattern t cs) (hbelow : r.TellsBelow ('(' :: t).length)
    (h : r.Reads .pattern ledger behind ('(' :: t) pieces) :
    Told .pattern ledger ('(' :: t) (.opens none :: cs) pieces := by
  obtain ⟨piece, m, rest, rfl, hsegment, hreads⟩ := h.exists_cons (List.cons_ne_nil _ _)
  rw [segment_of_some (token?_capture hn hhead)] at hsegment
  obtain ⟨rfl, rfl⟩ := Prod.mk.inj (Except.ok.inj hsegment)
  have hrest := hbelow _ _ _ _ _ _ (Nat.lt_succ_self _) hcalls hreads
  refine hrest.opens fun hquestion => ?_
  rcases hrest.head _ hquestion with hq | hq
  · exact hhead hq
  · exact absurd hq (by decide)

/-- A group that does not capture. -/
theorem told_of_group {kind : Opening} {w : Text} (hopens : Opens kind w)
    (hcalls : Calls .pattern ('?' :: (w ++ t)) cs)
    (hbelow : r.TellsBelow ('(' :: '?' :: (w ++ t)).length)
    (h : r.Reads .pattern ledger behind ('(' :: '?' :: (w ++ t)) pieces) :
    Told .pattern ledger ('(' :: '?' :: (w ++ t)) cs pieces := by
  obtain ⟨v, u, rest, rfl, heq, hplain, htake, hscope, behind', hreads⟩ :=
    exists_copied (by decide) (token?_group hopens t) h
  have houtside : Run.scopeAfter .pattern ('(' :: v) = .pattern := hscope
  have hsplit := hcalls
  rw [heq] at hsplit
  have hlength := congrArg List.length heq
  simp only [List.length_cons, List.length_append] at hlength
  have hrest := hbelow _ _ _ _ _ _ (by simp only [List.length_cons, List.length_append]; omega)
    (hsplit.of_append hplain) (houtside ▸ hreads)
  refine hrest.copied (isReference_other (by decide) v) ?_ houtside
  rintro ⟨-, hparen⟩
  obtain rfl : v = [] := (List.cons.inj hparen).2
  obtain rfl : '?' :: (w ++ t) = u := heq
  obtain ⟨d, w, rfl⟩ := List.exists_cons_of_ne_nil hopens.ne_nil
  -- other openings are copied as a whole, with more than the parenthesis
  have hmode : d ∈ ['-', 'i', 'm', 's'] := by
    have hwhole {w' : Text} (hw : d :: w = w') (hlong : verbatimLength .pattern ('(' :: '?' :: (w' ++ t)) =
        w'.length + 2) : False := by
      rw [hw, hlong] at htake
      cases htake
    rcases hopens.form with hlook | hmodes
    · simp only [List.mem_cons, List.not_mem_nil, or_false] at hlook
      rcases hlook with hlook | hlook | hlook | hlook <;> exact (hwhole hlook rfl).elim
    · have hd := hmodes d List.mem_cons_self
      rcases List.mem_cons.1 hd with rfl | hd
      · cases htake
      · exact hd
  have hquestion : d ≠ '?' := by
    rintro rfl
    exact absurd hmode (by decide)
  obtain ⟨v, u, rest, rfl, heq, -, htake, hscope, behind', hreads⟩ :=
    exists_copied (by decide) (token?_question _) (houtside ▸ hreads)
  have hone : verbatimLength .pattern ('?' :: (d :: w ++ t)) = 1 := by
    simp [verbatimLength, hquestion]
  rw [hone] at htake
  obtain rfl : [] = v := (List.cons.inj htake).2
  obtain rfl : d :: w ++ t = u := heq
  have hinner := hbelow _ _ _ (d :: w ++ t) _ rest (by
    simp only [List.length_cons, List.length_append]
    omega)
    (hcalls.of_append (w := ['?']) (List.all_eq_true.1 rfl)) (hscope ▸ hreads)
  refine opensCapture_question fun hless => ?_
  rcases hinner.head _ hless with hd | hd
  · obtain rfl : d = '<' := Option.some.inj hd
    exact absurd hmode (by decide)
  · exact absurd hd (by decide)

/-- **What is read of a text with calls** are its calls, each reference with the number of its group.
Every group opens as it is read, and no digit follows a reference in what is written. -/
theorem told_of_calls (hn : r.flags.contains 'n' = false) (hx : r.flags.contains 'x' = false) :
    ∀ limit : Nat, r.TellsBelow limit
  | 0 => fun _ _ _ _ _ _ hlimit => absurd hlimit (Nat.not_lt_zero _)
  | limit + 1 => fun scope ledger behind t cs pieces hlimit hcalls h => by
      have hbelow : r.TellsBelow t.length := fun scope' ledger' behind' u ds rest hu =>
        told_of_calls hn hx limit scope' ledger' behind' u ds rest (by omega)
      cases hcalls with
      | nil =>
        obtain rfl := h.eq_nil
        exact ⟨trivial, trivial, .nil, fun c hc => absurd hc.symm (Option.some_ne_none c)⟩
      | @plain _ c _ _ hplain rest =>
        obtain ⟨hescape, hopen, hclose, hparen⟩ : c ≠ '\\' ∧ c ≠ '[' ∧ c ≠ ']' ∧ c ≠ '(' := by
          simpa [isPlain, and_assoc] using hplain
        cases scope with
        | pattern => exact told_of_single hx hescape hparen hopen rest hbelow h
        | charClass =>
          have hscope : Run.scopeAfter .charClass [c] = .charClass := by simp [Run.scopeAfter, hclose]
          exact told_of_class hescape (hscope.symm ▸ rest) hbelow h
      | close rest =>
        cases scope with
        | pattern => exact told_of_single hx (by decide) (by decide) (by decide) rest hbelow h
        | charClass => exact told_of_class (by decide) rest hbelow h
      | set rest => exact told_of_set rest hbelow h
      | @inner c _ _ hescape hclose rest =>
        have hscope : Run.scopeAfter .charClass [c] = .charClass := by simp [Run.scopeAfter, hclose]
        exact told_of_class hescape (hscope.symm ▸ rest) hbelow h
      | escape digit unnamed rest => exact told_of_escape digit unnamed rest hbelow h
      | number pos head rest => exact told_of_number pos head rest hbelow h
      | name ne_nil isNameChar not_digits head rest =>
        exact told_of_name ne_nil isNameChar not_digits head rest hbelow h
      | capture head rest => exact told_of_capture hn head rest hbelow h
      | named ne_nil isNameChar head rest => exact told_of_named ne_nil isNameChar rest head hbelow h
      | group opens rest => exact told_of_group opens rest hbelow h

end Reader

end ExtensibleRegex
