import ExtensibleRegex.Proofs.Expansion.Passage
import ExtensibleRegex.Proofs.Expansion.Tidy
import ExtensibleRegex.Proofs.Native.Mentions
import Mathlib.Tactic

/-!
# Explicit capture

Under flag `n` a group captures only if it has a name. This file compares how a pattern is read with
the flag and without it (`Explicit`).

* The pieces are the same, but a group without a name opens as one that does not capture, and a
  reference by name has the number that the group has among those with names (`Twins`,
  `twins_of_segment`).
* So when groups are referred to by name only, what is written under the flag is what is written
  without it, with the other groups given up (`Passes.exists_chunks`). No reference may be followed by a
  digit (`Delimited`), since that would become part of its number.
-/

namespace ExtensibleRegex

open Native

/-! ## 1. Texts that mention nothing -/

/-- A text that mentions nothing, wherever it is written. -/
def Silent (inClass : Bool) (w : Text) : Prop :=
  ∀ next, mentions ⟨inClass, false⟩ (w ++ next) = mentions ⟨inClass, false⟩ next

/-- What mentions nothing is passed over. -/
theorem mentions_of_none {c : Char} {t : Text} (h : mention? (c :: t) = none) (b : Bool) :
    mentions ⟨b, false⟩ (c :: t) = mentions (Spot.next ⟨b, false⟩ c) t := by
  cases b with
  | true => exact scans_mentions _ _ _ fun hmark => by cases hmark.1
  | false => rw [mentions_cons, h]; rfl

theorem mention?_other {c : Char} (hparen : c ≠ '(') (hescape : c ≠ '\\') (t : Text) :
    mention? (c :: t) = none := by
  unfold mention?
  split
  · rename_i heq
    exact absurd (List.cons.inj heq).1 hparen
  · rename_i heq
    exact absurd (List.cons.inj heq).1 hescape
  · rfl

theorem mention?_paren {t : Text} (h : opensCapture t = false) : mention? ('(' :: t) = none := by
  simp [mention?, h]

theorem silent_nil (b : Bool) : Silent b [] := fun _ => rfl

theorem Silent.append {b : Bool} {v w : Text} (hv : Silent b v) (hw : Silent b w) :
    Silent b (v ++ w) := fun next => by rw [List.append_assoc, hv, hw]

/-- Plain characters mention nothing. -/
theorem silent_plain (b : Bool) : ∀ {w : Text}, (∀ c ∈ w, isPlain c = true) → Silent b w
  | [], _ => silent_nil b
  | c :: w, h => fun next => by
      have hc := h c List.mem_cons_self
      obtain ⟨hescape, hopen, hclose, hparen⟩ : c ≠ '\\' ∧ c ≠ '[' ∧ c ≠ ']' ∧ c ≠ '(' := by
        simpa [isPlain, and_assoc] using hc
      have hnext : Spot.next ⟨b, false⟩ c = ⟨b, false⟩ := by
        cases b <;> simp [Spot.next, hescape, hopen, hclose]
      rw [List.cons_append, mentions_of_none (mention?_other hparen hescape _), hnext]
      exact silent_plain b (fun d hd => h d (List.mem_cons_of_mem c hd)) next

/-- Nor does an escape, unless it is a number. -/
theorem silent_escape (b : Bool) {c : Char} (hc : c.isDigit = true → c = '0') {w : Text}
    (h : ∀ d ∈ w, isPlain d = true) : Silent b ('\\' :: c :: w) := fun next => by
  have hnone : mention? ('\\' :: c :: (w ++ next)) = none := by
    simp only [mention?]
    rw [if_neg]
    simpa using hc
  have hnext : Spot.next ⟨b, false⟩ '\\' = ⟨b, true⟩ := by cases b <;> rfl
  have hpassed := (scans_mentions.passes b).escaped c (w ++ next)
  rw [List.cons_append, List.cons_append, mentions_of_none hnone, hnext, hpassed]
  exact silent_plain b h next

/-- Nor does a group that does not capture. -/
theorem silent_plainGroup : Silent false ['(', '?', ':'] := fun next =>
  (mentions_of_none (mention?_paren rfl) false).trans
    (silent_plain false (w := ['?', ':']) (List.all_eq_true.1 rfl) next)

theorem silent_emptyGroup : Silent false emptyGroup :=
  silent_plainGroup.append (v := ['(', '?', ':']) (silent_plain false (w := [')']) (List.all_eq_true.1 rfl))

theorem silent_separator (behind ahead flags : Text) :
    Silent false (Reader.separator behind ahead flags) := by
  unfold Reader.separator
  split
  · exact silent_nil false
  · exact silent_emptyGroup

theorem Scope.spot_eq (scope : Scope) : scope.spot = ⟨scope = .charClass, false⟩ := by
  cases scope <;> rfl

/-- Native text that is copied mentions nothing, if a parenthesis in it opens no group. -/
theorem mentions_copied (scope : Scope) (c : Char) (t next : Text)
    (hend : c :: t ≠ ['\\']) (hdigit : ∀ d ds, c :: t = '\\' :: d :: ds → d.isDigit = false)
    (hclear : (Segment.copied ((c :: t).take (verbatimLength scope (c :: t)))).Clear scope next) :
    mentions scope.spot ((c :: t).take (verbatimLength scope (c :: t)) ++ next) =
      mentions (scope.spot.after ((c :: t).take (verbatimLength scope (c :: t)))) next := by
  by_cases hescape : c = '\\'
  · subst hescape
    have hlength : verbatimLength scope ('\\' :: t) = escapeLength scope t + 1 := by
      cases scope <;> simp [verbatimLength, Nat.add_comm]
    rw [hlength, List.take_succ_cons]
    cases t with
    | nil => exact absurd rfl hend
    | cons d ds =>
      obtain ⟨k, hk, hplain⟩ := escapeLength_cons scope d ds
      have hd : d.isDigit = true → d = '0' := fun h => by
        rw [hdigit d ds rfl] at h
        cases h
      rw [hk, List.take_succ_cons, Scope.spot_eq, (unmarked_escape d hplain _).after]
      exact silent_escape _ hd hplain next
  cases scope with
  | charClass =>
    have hlength : verbatimLength .charClass (c :: t) = 1 := by simp [verbatimLength]
    rw [hlength]
    exact scans_mentions Spot.inside c next fun hmark => by cases hmark.1
  | pattern =>
    obtain ⟨w, hw, hplain, hmore⟩ := plain_verbatim c t hescape
    rw [hw] at hclear ⊢
    have hnone : mention? (c :: (w ++ next)) = none := by
      by_cases hparen : c = '('
      · subst hparen
        refine mention?_paren ?_
        cases w with
        | nil => exact hclear ⟨rfl, rfl⟩
        | cons d ds => exact (hmore (List.cons_ne_nil d ds)).2.2 rfl next
      · exact mention?_other hparen hescape _
    show mentions .outside (c :: (w ++ next)) = mentions ((Spot.outside.next c).after w) next
    rw [mentions_of_none hnone]
    by_cases hopen : c = '['
    · have hnil : w = [] := by
        by_contra hne
        exact (hmore hne).1 hopen
      rw [hnil]
      rfl
    · have hnext : Spot.outside.next c = .outside := by simp [Spot.next, hescape, hopen]
      rw [hnext, after_of_isPlain hplain]
      exact silent_plain false hplain next

/-! ## 2. Names and numbers -/

/-- Whether a group has a name, by its number. -/
def Reader.isNamed (names : List (Option Text)) (n : Nat) : Bool := (names[n - 1]?).join.isSome

/-- The new number of a group is how many groups up to it have names. -/
theorem rank_isNamed (names : List (Option Text)) : ∀ n : Nat,
    rank (Reader.isNamed names) n = ((names.take n).filter Option.isSome).length
  | 0 => rfl
  | n + 1 => by
      have hnamed : Reader.isNamed names (n + 1) = (names[n]?).join.isSome := rfl
      rw [rank, rank_isNamed names n, hnamed, List.take_add_one, List.filter_append, List.length_append]
      cases names[n]? with
      | none => rfl
      | some name => cases name <;> rfl

/-- A ledger that lists the groups of another one that have names. -/
def Ledger.Names (ledger' ledger : Ledger) : Prop :=
  ledger'.names.toList = ledger.names.toList.filter Option.isSome

/-- The place of a name among those that are there. -/
theorem findIdx?_filter {name : Text} : ∀ {names : List (Option Text)} {i : Nat},
    names.findIdx? (· == some name) = some i →
    (names.filter Option.isSome).findIdx? (· == some name) =
      some ((names.take i).filter Option.isSome).length
  | [], _, h => by cases h
  | other :: names, i, h => by
      rw [List.findIdx?_cons] at h
      by_cases hsame : other = some name
      · rw [if_pos (by simpa using hsame)] at h
        cases h
        simp [hsame, List.findIdx?_cons]
      · rw [if_neg (by simpa using hsame)] at h
        obtain ⟨j, hj, rfl⟩ := Option.map_eq_some_iff.1 h
        have ih := findIdx?_filter hj
        cases other with
        | none => simpa using ih
        | some w =>
          have hw : w ≠ name := fun hw => hsame (congrArg some hw)
          simp [List.findIdx?_cons, hw, ih]

theorem Ledger.index?_eq (ledger : Ledger) (name : Text) :
    ledger.index? name = (ledger.names.toList.findIdx? (· == some name)).map (· + 1) := by
  rw [← List.findIdx?_toArray, Array.toArray_toList]
  rfl

/-- The numbers of a group, among all groups and among those with names. -/
theorem Ledger.Names.index? {ledger' ledger : Ledger} (h : ledger'.Names ledger) {name : Text} {n : Nat}
    (hn : ledger.index? name = some n) : 0 < n ∧ ledger.names.toList[n - 1]? = some (some name) ∧
      ledger'.index? name = some ((ledger.names.toList.take n).filter Option.isSome).length := by
  rw [Ledger.index?_eq] at hn
  obtain ⟨i, hi, rfl⟩ := Option.map_eq_some_iff.1 hn
  obtain ⟨hlt, hfound, -⟩ := List.findIdx?_eq_some_iff_getElem.1 hi
  have hname : ledger.names.toList[i]? = some (some name) := by
    rw [List.getElem?_eq_getElem hlt, beq_iff_eq.1 hfound]
  refine ⟨Nat.succ_pos i, hname, ?_⟩
  have hfilter := findIdx?_filter hi
  rw [← h] at hfilter
  rw [Ledger.index?_eq, hfilter, List.take_add_one, hname, List.filter_append]
  simp

/-! ## 3. Pieces -/

namespace Reader

/-- Readers of the same patterns, the second one under flag `n`. -/
structure Explicit (r r' : Reader) : Prop where
  namespacing : r'.namespacing = r.namespacing
  without : r.flags.contains 'n' = false
  explicit : r'.flags.contains 'n' = true
  others : ∀ f, f ≠ 'n' → r'.flags.contains f = r.flags.contains f

/-- Whether a piece was read from a reference by number. -/
def isNumber : Text → Bool
  | '\\' :: 'k' :: '<' :: t => (t.takeWhile isNameChar).all Char.isDigit
  | '\\' :: d :: _ => d.isDigit && d != '0'
  | _ => false

end Reader

/-- A piece that is read without flag `n` and the one that is read under it, when the groups that have
opened are those of the two ledgers. -/
inductive Segment.Twins (scope : Scope) (ledger ledger' : Ledger) : Segment → Segment → Prop where
  | released (outside : scope = .pattern) :
      Twins scope ledger ledger' (.opens none) (.written ['(', '?', ':'])
  | kept (name : Text) (outside : scope = .pattern) :
      Twins scope ledger ledger' (.opens (some name)) (.opens (some name))
  | reference {name : Text} {n n' : Nat} {w : Text} (outside : scope = .pattern)
      (found : ledger.index? name = some n) (found' : ledger'.index? name = some n')
      (apart : w = [] ∨ w = emptyGroup) :
      Twins scope ledger ledger' (.written ('\\' :: decimalText n ++ w))
        (.written ('\\' :: decimalText n' ++ w))
  | still {w : Text} (silent : Silent (scope = .charClass) w) :
      Twins scope ledger ledger' (.written w) (.written w)
  | copied (w : Text) : Twins scope ledger ledger' (.copied w) (.copied w)

namespace Reader

variable {r r' : Reader} {scope : Scope} {ledger ledger' : Ledger} {behind t : Text}

/-- What two readers make of a text, if neither refuses it. -/
abbrev Pair (scope : Scope) (ledger ledger' : Ledger) (x x' : Option (Segment × Nat)) : Prop :=
  Option.Rel (fun a a' => a.1.Twins scope ledger ledger' a'.1 ∧ a'.2 = a.2) x x'

theorem pair_write {e : Extent} {w w' : Text} {x x' : Option (Segment × Nat)}
    (htwins : (Segment.written w).Twins scope ledger ledger' (.written w')) (h : write e w = .ok x)
    (h' : write e w' = .ok x') : Pair scope ledger ledger' x x' := by
  cases h
  cases h'
  exact .some ⟨htwins, rfl⟩

theorem separator_congr (hr : r.Explicit r') (behind ahead : Text) :
    separator behind ahead r'.flags = separator behind ahead r.flags := by
  have hx : r'.flags.contains 'x' = r.flags.contains 'x' := hr.others 'x' (by decide)
  unfold separator quantifierNext
  rw [hx]

theorem referredGroup?_of_name {ledger : Ledger} {name : Text} (h : name.all Char.isDigit = false) :
    Builtin.referredGroup? ledger name = ledger.index? name := by
  unfold Builtin.referredGroup?
  rw [h]
  rfl

theorem isNumber_numbered {d : Char} (hd : d.isDigit = true) (w : Text) :
    isNumber ('\\' :: d :: w) = (d != '0') := by
  have hk : d ≠ 'k' := by
    rintro rfl
    cases hd
  unfold isNumber
  split
  · rename_i heq
    exact absurd (List.cons.inj (List.cons.inj heq).2).1 hk
  · rename_i heq
    cases heq
    rw [hd, Bool.true_and]
  · rename_i hno
    exact absurd rfl (hno d w)

theorem isNumber_named {w : Text} (h : ∀ c ∈ w, isNameChar c = true) (rest : Text) :
    isNumber (['\\', 'k', '<'] ++ w ++ '>' :: rest) = w.all Char.isDigit := by
  have hclose : isNameChar '>' = false := rfl
  show ((w ++ '>' :: rest).takeWhile isNameChar).all Char.isDigit = _
  rw [List.takeWhile_append_of_pos h, List.takeWhile_cons, hclose]
  simp

theorem pair_escape (hr : r.Explicit r') {x x' : Option (Segment × Nat)}
    (hnumber : ∀ piece n, x = some (piece, n) → isNumber (t.take n) = false)
    (h : r.escape scope ledger t = .ok x) (h' : r'.escape scope ledger' t = .ok x') :
    Pair scope ledger ledger' x x' := by
  unfold escape at h h'
  cases hnumbered : Trigger.numbered t with
  | some e =>
    rw [hnumbered] at h h'
    obtain ⟨w, rest, hne, hdigits, -, htext, hlength, -, hw, hcaptured⟩ := Trigger.of_numbered hnumbered
    simp only [hcaptured, hw] at h h'
    obtain ⟨d, ds, rfl⟩ := List.exists_cons_of_ne_nil hne
    have hd : d.isDigit = true := hdigits d List.mem_cons_self
    split at h
    · rename_i hstands
      split at h'
      · refine pair_write (.still ?_) h h'
        cases h
        have hzero : d = '0' := by
          have := hnumber _ _ rfl
          rw [hlength, htext] at this
          simpa [isNumber_numbered hd] using this
        rcases hstands with ⟨-, hhead, -⟩ | hstands
        · exact absurd (by rw [hzero]; rfl) hhead
        · cases hstands
          exact silent_escape _ (fun _ => rfl) (List.forall_mem_nil _)
      · cases h'
    · cases h
  | none =>
  rw [hnumbered] at h h'
  simp only at h h'
  cases hnamed : (if scope = .pattern then Trigger.namedRef t else none) with
  | some e =>
    rw [hnamed] at h h'
    simp only at h h'
    split at hnamed
    case isFalse => cases hnamed
    rename_i hscope
    obtain ⟨w, rest, -, hw, htext, hlength, -, -, hcaptured⟩ := Trigger.of_namedRef hnamed
    rw [hcaptured] at h h'
    split at h
    case h_2 => cases h
    rename_i n hn
    split at h'
    case h_2 => cases h'
    rename_i n' hn'
    refine pair_write ?_ h h'
    cases h
    have hname : w.all Char.isDigit = false := by
      have htake : t.take e.length = ['\\', 'k', '<'] ++ w ++ ['>'] := by
        have happ : t = (['\\', 'k', '<'] ++ w ++ ['>']) ++ rest := by rw [htext]; simp
        rw [happ]
        exact List.take_left' (by rw [hlength]; simp; omega)
      have := hnumber _ _ rfl
      rwa [htake, isNumber_named hw] at this
    rw [referredGroup?_of_name hname] at hn hn'
    refine .reference hscope hn hn' ?_
    split
    · exact .inr rfl
    · exact .inl rfl
  | none =>
  rw [hnamed] at h h'
  simp only at h h'
  cases hpoint : Trigger.codePoint t with
  | some e =>
    rw [hpoint] at h h'
    simp only [hr.others 'u' (by decide)] at h h'
    obtain ⟨w, rest, -, hhex, -, -, -, htext, -⟩ := Trigger.of_codePoint hpoint
    split at h
    · cases h
    rename_i hlarge
    rw [if_neg hlarge] at h'
    split at h
    · rename_i hsmall
      rw [if_pos hsmall] at h'
      refine pair_write (.still (silent_escape _ (fun hu => absurd hu (by decide)) fun c hc => ?_)) h h'
      exact isPlain_of_isHexDigit (isHexDigit_of_mem_hexText hc)
    rename_i hsmall
    rw [if_neg hsmall] at h'
    split at h
    · rename_i hu
      rw [if_pos hu] at h'
      refine pair_write (.still ?_) h h'
      rw [htext]
      refine silent_escape _ (w := '\x7b' :: (w ++ ['\x7d'])) (fun hu => absurd hu (by decide))
        fun c hc => ?_
      simp only [List.mem_cons, List.mem_append, List.not_mem_nil, or_false] at hc
      rcases hc with rfl | hc | rfl
      · rfl
      · exact isPlain_of_isHexDigit (hhex c hc)
      · rfl
    · cases h
  | none =>
  rw [hpoint] at h h'
  simp only at h h'
  cases hrefuse : Trigger.refuse t with
  | some e =>
    rw [hrefuse] at h h'
    simp only at h h'
    split at h
    · rename_i hB
      rw [if_pos hB] at h'
      refine pair_write (.still ?_) h h'
      obtain ⟨c, cs, rfl, -, rfl⟩ := Trigger.of_refuse hrefuse
      obtain rfl : c = 'B' := List.singleton_inj.1 hB.1
      exact silent_escape _ (fun hd => absurd hd (by decide)) (List.forall_mem_nil _)
    · cases h
  | none =>
    rw [hrefuse] at h h'
    cases h
    cases h'
    exact .none

theorem pair_parenthesis (hr : r.Explicit r') {x x' : Option (Segment × Nat)}
    (h : r.parenthesis ledger behind t = .ok x) (h' : r'.parenthesis ledger' behind t = .ok x') :
    Pair .pattern ledger ledger' x x' := by
  unfold parenthesis at h h'
  cases hplain : Trigger.openPlain t with
  | some e =>
    simp only [hplain, hr.without, hr.explicit, if_true, Bool.false_eq_true, if_false] at h h'
    cases h
    cases h'
    exact .some ⟨.released rfl, rfl⟩
  | none =>
  rw [hplain] at h h'
  simp only at h h'
  cases hnamed : Trigger.openNamed t with
  | some e =>
    rw [hnamed] at h h'
    simp only [hr.namespacing] at h h'
    split at h
    · cases h
    rename_i hdigits
    rw [if_neg hdigits] at h'
    split at h
    · cases h
    rename_i hguarded
    rw [if_neg hguarded] at h'
    split at h
    · cases h
    split at h'
    · cases h'
    cases h
    cases h'
    exact .some ⟨.kept _ rfl, rfl⟩
  | none =>
  rw [hnamed] at h h'
  simp only at h h'
  cases hcomment : Trigger.comment t with
  | some e =>
    rw [hcomment] at h h'
    simp only [separator_congr hr] at h h'
    exact pair_write (.still (silent_separator _ _ _)) h h'
  | none =>
    rw [hcomment] at h h'
    simp only at h h'
    cases hopen : Trigger.openComment t with
    | some e =>
      rw [hopen] at h
      cases h
    | none =>
      rw [hopen] at h h'
      cases h
      cases h'
      exact .none

theorem silent_anyCharacter : Silent false "[\\s\\S]".toList := fun next => by
  have hopen : mention? ('[' :: '\\' :: 's' :: '\\' :: 'S' :: ']' :: next) = none :=
    mention?_other (by decide) (by decide) _
  have hclose : mention? (']' :: next) = none := mention?_other (by decide) (by decide) _
  show mentions ⟨false, false⟩ ('[' :: '\\' :: 's' :: '\\' :: 'S' :: ']' :: next) = _
  rw [mentions_of_none hopen]
  have hblank : Silent true ['\\', 's'] :=
    silent_escape true (fun h => absurd h (by decide)) (List.forall_mem_nil _)
  have hother : Silent true ['\\', 'S'] :=
    silent_escape true (fun h => absurd h (by decide)) (List.forall_mem_nil _)
  refine ((hblank.append hother) (']' :: next)).trans ?_
  rw [mentions_of_none hclose]
  rfl

theorem silent_boundaries : Silent false "\\b\\B".toList := by
  have hboundary : Silent false ['\\', 'b'] :=
    silent_escape false (fun h => absurd h (by decide)) (List.forall_mem_nil _)
  have hother : Silent false ['\\', 'B'] :=
    silent_escape false (fun h => absurd h (by decide)) (List.forall_mem_nil _)
  exact hboundary.append hother

/-- **Two readers take the same tokens**, apart from what flag `n` says about groups. -/
theorem pair_token? (hr : r.Explicit r') {x x' : Option (Segment × Nat)}
    (hnumber : ∀ piece n, x = some (piece, n) → isNumber (t.take n) = false)
    (h : r.token? scope ledger behind t = .ok x) (h' : r'.token? scope ledger' behind t = .ok x') :
    Pair scope ledger ledger' x x' := by
  have hsame {e : Extent} {w : Text} (hw : Silent false w) (h : write e w = .ok x)
      (h' : write e w = .ok x') : Pair .pattern ledger ledger' x x' := pair_write (.still hw) h h'
  have hnone (h : (Except.ok none : Answer) = .ok x) (h' : (Except.ok none : Answer) = .ok x') :
      Pair scope ledger ledger' x x' := by
    cases h
    cases h'
    exact .none
  unfold token? at h h'
  by_cases hescape : t.head? = some '\\'
  · rw [if_pos hescape] at h h'
    exact pair_escape hr hnumber h h'
  rw [if_neg hescape] at h h'
  cases scope with
  | charClass => exact hnone h h'
  | pattern =>
    simp only at h h'
    by_cases hparen : t.head? = some '('
    · rw [if_pos hparen] at h h'
      exact pair_parenthesis hr h h'
    rw [if_neg hparen] at h h'
    by_cases hclass : t.head? = some '['
    · rw [if_pos hclass] at h h'
      unfold bareClass at h h'
      cases hbare : Trigger.bareClass t with
      | none =>
        rw [hbare] at h h'
        exact hnone h h'
      | some e =>
        rw [hbare] at h h'
        refine hsame ?_ h h'
        split
        · exact silent_boundaries
        · exact silent_anyCharacter
    rw [if_neg hclass] at h h'
    by_cases hdot : t.head? = some '.'
    · rw [if_pos hdot] at h h'
      unfold dot at h h'
      rw [hr.others 's' (by decide)] at h'
      cases hfound : (if r.flags.contains 's' then Trigger.dot t else none) with
      | none =>
        rw [hfound] at h h'
        exact hnone h h'
      | some e =>
        rw [hfound] at h h'
        exact hsame silent_anyCharacter h h'
    rw [if_neg hdot] at h h'
    unfold blank at h h'
    rw [hr.others 'x' (by decide)] at h'
    simp only [separator_congr hr] at h'
    cases hfound : (if r.flags.contains 'x' then Trigger.blank t else none) with
    | none =>
      rw [hfound] at h h'
      exact hnone h h'
    | some e =>
      rw [hfound] at h h'
      exact hsame (silent_separator _ _ _) h h'

/-- **Two readers cut a text into the same pieces**, apart from what flag `n` says about groups. -/
theorem twins_of_segment (hr : r.Explicit r') {piece piece' : Segment} {n n' : Nat}
    (hnumber : isNumber (t.take n) = false)
    (h : r.segment scope ledger behind t = .ok (piece, n))
    (h' : r'.segment scope ledger' behind t = .ok (piece', n')) :
    piece.Twins scope ledger ledger' piece' ∧ n' = n := by
  rcases segment_eq_ok h with htoken | ⟨hnone, rfl, rfl⟩
  · have hpair {x' : Option (Segment × Nat)} (hx' : r'.token? scope ledger' behind t = .ok x') :
        Pair scope ledger ledger' (some (piece, n)) x' := pair_token? hr (fun p m hpm => by
      cases hpm
      exact hnumber) htoken hx'
    rcases segment_eq_ok h' with htoken' | ⟨hnone', -, -⟩
    · cases hpair htoken' with
      | some htwins => exact htwins
    · cases hpair hnone'
  · have hpair {x' : Option (Segment × Nat)} (hx' : r'.token? scope ledger' behind t = .ok x') :
        Pair scope ledger ledger' none x' := pair_token? hr nofun hnone hx'
    rcases segment_eq_ok h' with htoken' | ⟨-, rfl, rfl⟩
    · cases hpair htoken'
    · exact ⟨.copied _, rfl⟩

/-! ## 4. Chunks -/

end Reader

/-- Whether a text is a backslash and digits. -/
def isReference : Text → Bool
  | '\\' :: t => t.all Char.isDigit
  | _ => false

theorem isReference_decimalText (n : Nat) : isReference ('\\' :: decimalText n) = true :=
  List.all_eq_true.2 fun _ hc => isDigit_of_mem_decimalText hc

/-- If a piece is a reference, then no digit follows it in what is written next. -/
def Segment.Delimited (next : Text) (piece : Segment) : Prop :=
  isReference piece.text = true → next.head?.any Char.isDigit = false

instance (next : Text) : DecidablePred (Segment.Delimited next) :=
  fun _ => inferInstanceAs (Decidable (_ → _))

namespace Reader

/-- No reference among pieces is followed by a digit. -/
def Delimited : List Segment → Prop
  | [] => True
  | piece :: pieces => piece.Delimited (render pieces) ∧ Delimited pieces

instance decidableDelimited : DecidablePred Delimited
  | [] => inferInstanceAs (Decidable True)
  | _ :: pieces =>
    have := decidableDelimited pieces
    inferInstanceAs (Decidable (_ ∧ _))

/-- Chunks that are written as pieces are, and as other pieces when the groups without names are given
up: the names of all groups of the pattern are given, of which `opened` come before. -/
structure Chunked (named : List (Option Text)) (opened : Nat) (scope : Scope)
    (pieces pieces' : List Segment) (cs : List Chunk) : Prop where
  fit : Fit scope.spot cs
  written : Native.written cs = render pieces
  released : writtenReleased (isNamed named) opened cs = render pieces'
  groups : groupCount cs = (names pieces).length
  kept : ∀ n, .reference n ∈ cs → n ≤ named.length ∧ isNamed named n = true

section Chunks

variable {named : List (Option Text)} {opened : Nat} {pieces pieces' : List Segment} {cs : List Chunk}

theorem chunked_nil : Chunked named opened scope [] [] [] :=
  ⟨trivial, rfl, rfl, rfl, nofun⟩

theorem Chunked.still {w : Text} {scope' : Scope} {piece : Segment}
    (hsilent : mentions scope.spot (w ++ render pieces) = mentions scope'.spot (render pieces))
    (hspot : scope.spot.after w = scope'.spot) (hpiece : piece.text = w)
    (hnames : names (piece :: pieces) = names pieces)
    (h : Chunked named opened scope' pieces pieces' cs) :
    Chunked named opened scope (piece :: pieces) (piece :: pieces') (.still w :: cs) where
  fit := by
    refine ⟨?_, hspot ▸ h.fit⟩
    rw [hspot, h.written]
    exact hsilent
  written := by
    show w ++ Native.written cs = piece.text ++ render pieces
    rw [hpiece, h.written]
  released := by
    show w ++ writtenReleased _ opened cs = piece.text ++ render pieces'
    rw [hpiece, h.released]
  groups := by
    rw [hnames, ← h.groups]
    exact Nat.zero_add _
  kept n hn := by
    rcases List.mem_cons.1 hn with hn | hn
    · cases hn
    · exact h.kept n hn

theorem Chunked.group {name : Option Text} {piece' : Segment} (hhead : (render pieces).head? ≠ some '?')
    (hpiece' : piece'.text = Chunk.released (isNamed named) opened .group)
    (h : Chunked named (opened + 1) .pattern pieces pieces' cs) :
    Chunked named opened .pattern (.opens name :: pieces) (piece' :: pieces') (.group :: cs) where
  fit := ⟨rfl, by rw [h.written]; exact hhead, h.fit⟩
  written := congrArg ('(' :: ·) h.written
  released := by
    show Chunk.released (isNamed named) opened .group ++ writtenReleased _ (opened + 1) cs = _
    rw [h.released, ← hpiece']
    rfl
  groups := by
    show groupCount (.group :: cs) = (names pieces).length + 1
    rw [← h.groups]
    exact Nat.add_comm _ _
  kept n hn := by
    rcases List.mem_cons.1 hn with hn | hn
    · cases hn
    · exact h.kept n hn

theorem Chunked.reference {n : Nat} {w : Text} (hpos : 0 < n) (hw : w = [] ∨ w = emptyGroup)
    (hdelimited : (Segment.written ('\\' :: decimalText n ++ w)).Delimited (render pieces))
    (hkept : n ≤ named.length ∧ isNamed named n = true)
    (h : Chunked named opened .pattern pieces pieces' cs) :
    Chunked named opened .pattern (.written ('\\' :: decimalText n ++ w) :: pieces)
      (.written ('\\' :: decimalText (rank (isNamed named) n) ++ w) :: pieces')
      (.reference n :: .still w :: cs) where
  fit := by
    refine ⟨rfl, hpos, ?_, ?_⟩
    · show (w ++ Native.written cs).head?.any Char.isDigit = false
      rw [h.written]
      rcases hw with rfl | rfl
      · rw [List.append_nil] at hdelimited
        exact hdelimited (isReference_decimalText n)
      · rfl
    · rcases hw with rfl | rfl
      · exact ⟨rfl, h.fit⟩
      · exact ⟨silent_emptyGroup _, h.fit⟩
  written := by
    show '\\' :: decimalText n ++ (w ++ Native.written cs) = '\\' :: decimalText n ++ w ++ render pieces
    rw [h.written, List.append_assoc]
  released := by
    show '\\' :: decimalText (rank (isNamed named) n) ++ (w ++ writtenReleased _ opened cs) =
      '\\' :: decimalText (rank (isNamed named) n) ++ w ++ render pieces'
    rw [h.released, List.append_assoc]
  groups := by
    show groupCount (.reference n :: .still w :: cs) = (names pieces).length
    rw [← h.groups]
    simp [groupCount, Chunk.groups]
  kept m hm := by
    rcases List.mem_cons.1 hm with hm | hm
    · cases hm
      exact hkept
    · rcases List.mem_cons.1 hm with hm | hm
      · cases hm
      · exact h.kept m hm

/-- A backslash that ends a pattern is copied. -/
theorem chunked_backslash : Chunked named opened scope [.copied ['\\']] [.copied ['\\']]
    [.still ['\\']] where
  fit := ⟨by cases scope <;> rfl, trivial⟩
  written := rfl
  released := rfl
  groups := rfl
  kept n hn := by
    rcases List.mem_cons.1 hn with hn | hn
    · cases hn
    · cases hn

end Chunks

variable {r r' : Reader} {behind t : Text}

theorem segment_backslash (r : Reader) (scope : Scope) (ledger : Ledger) (behind : Text) :
    r.segment scope ledger behind ['\\'] = .ok (.copied ['\\'], 1) := by
  cases scope <;> rfl

theorem Reads.exists_cons {pieces : List Segment} (h : r.Reads scope ledger behind t pieces)
    (hne : t ≠ []) : ∃ piece n rest, pieces = piece :: rest ∧
      r.segment scope ledger behind t = .ok (piece, n) ∧
      r.Reads (piece.scopeAfter scope) (piece.enter ledger) ((t.take n).reverse ++ behind) (t.drop n)
        rest := by
  cases h with
  | nil => exact absurd rfl hne
  | cons _ _ hfirst hrest => exact ⟨_, _, _, rfl, hfirst, hrest⟩

theorem Reads.eq_nil {pieces : List Segment} (h : r.Reads scope ledger behind [] pieces) :
    pieces = [] := by
  cases h with
  | nil => rfl
  | cons hne => exact absurd rfl hne

theorem names_push (ledger : Ledger) (name : Option Text) (pieces : List Segment) :
    (ledger.push name).names.toList ++ names pieces =
      ledger.names.toList ++ names (.opens name :: pieces) := by
  simp [Ledger.push, names]

theorem isNamed_push (ledger : Ledger) (name : Option Text) (pieces : List Segment) :
    isNamed (ledger.names.toList ++ names (.opens name :: pieces)) (ledger.groupCount + 1) =
      name.isSome := by
  have hcount : ledger.groupCount = ledger.names.toList.length := Array.length_toList.symm
  have hname : (ledger.names.toList ++ name :: names pieces)[ledger.groupCount]? = some name := by
    rw [hcount, List.getElem?_append_right (Nat.le_refl _), Nat.sub_self]
    rfl
  show ((ledger.names.toList ++ name :: names pieces)[ledger.groupCount]?).join.isSome = _
  rw [hname]
  rfl

theorem Chunked.opens {named : List (Option Text)} {pieces pieces' : List Segment} {cs : List Chunk}
    {ledger : Ledger} {name : Option Text} {piece' : Segment}
    (hclear : (render pieces).head? ≠ some '?')
    (hnamed : ledger.names.toList ++ names (.opens name :: pieces) = named)
    (hpiece' : piece'.text = if name.isSome = true then ['('] else ['(', '?', ':'])
    (h : Chunked named (ledger.push name).groupCount .pattern pieces pieces' cs) :
    Chunked named ledger.groupCount .pattern (.opens name :: pieces) (piece' :: pieces')
      (.group :: cs) := by
  have hcount : (ledger.push name).groupCount = ledger.groupCount + 1 := Array.size_push _
  rw [hcount] at h
  refine h.group hclear ?_
  rw [hpiece', ← isNamed_push ledger name pieces, hnamed]
  rfl

/-- The groups that a reference by name is to. -/
theorem isNamed_of_index? {ledger ledger' : Ledger} {named : List (Option Text)} {name : Text} {n : Nat}
    {more : List (Option Text)} (hledger : ledger'.Names ledger)
    (hnamed : ledger.names.toList ++ more = named) (hn : ledger.index? name = some n) :
    0 < n ∧ (n ≤ named.length ∧ isNamed named n = true) ∧
      ledger'.index? name = some (rank (isNamed named) n) := by
  obtain ⟨hpos, hname, hindex⟩ := hledger.index? hn
  have hlt : n - 1 < ledger.names.toList.length := (List.getElem?_eq_some_iff.1 hname).1
  have htake : named.take n = ledger.names.toList.take n := by
    rw [← hnamed, List.take_append_of_le_length (by omega)]
  refine ⟨hpos, ⟨?_, ?_⟩, ?_⟩
  · rw [← hnamed, List.length_append]
    omega
  · unfold isNamed
    rw [← hnamed, List.getElem?_append_left hlt, hname]
    rfl
  · rw [rank_isNamed, htake]
    exact hindex

theorem Chunked.silent {named : List (Option Text)} {opened : Nat} {pieces pieces' : List Segment}
    {cs : List Chunk} {w : Text} (hsilent : Silent (scope = .charClass) w)
    (hspot : scope.spot.after w = scope.spot) (h : Chunked named opened scope pieces pieces' cs) :
    Chunked named opened scope (.written w :: pieces) (.written w :: pieces') (.still w :: cs) := by
  refine Chunked.still ?_ hspot rfl rfl h
  rw [Scope.spot_eq]
  exact hsilent _

/-- What is copied mentions nothing, if it opens no group. -/
theorem mentions_of_segment {w next : Text} {n : Nat}
    (h : r.segment scope ledger behind t = .ok (.copied w, n)) (hne : t ≠ []) (hend : t ≠ ['\\'])
    (hclear : (Segment.copied w).Clear scope next) :
    mentions scope.spot (w ++ next) = mentions (scope.spot.after w) next := by
  rcases segment_eq_ok h with htoken | ⟨hnone, hw, -⟩
  · rcases unmarked_of_token? htoken with ⟨⟨name, hname⟩, -⟩ | ⟨v, hv, -⟩
    · cases hname
    · cases hv
  · obtain ⟨c, cs, rfl⟩ := List.exists_cons_of_ne_nil hne
    obtain rfl := Segment.copied.inj hw
    refine mentions_copied scope c cs next hend (fun d ds hds => ?_) hclear
    rw [hds] at hnone
    exact (of_escape_none (show r.escape scope ledger ('\\' :: d :: ds) = .ok none from hnone)).1

/-- **What is written under flag `n` is what is written without it, with the groups without names given
up**, if groups are referred to by name only. -/
theorem Passes.exists_chunks (hr : r.Explicit r') {named : List (Option Text)} : ∀ {cut : Cut}
    {scope : Scope} {ledger ledger' : Ledger} {behind : Text} {pieces' : List Segment},
    r.Passes [] scope ledger behind cut → r'.Reads scope ledger' behind (source cut) pieces' →
    ledger'.Names ledger → ledger.names.toList ++ names (cut.map Prod.snd) = named →
    (∀ x ∈ cut, isNumber x.1 = false) → Clear scope (cut.map Prod.snd) →
    Delimited (cut.map Prod.snd) →
    ∃ cs, Chunked named ledger.groupCount scope (cut.map Prod.snd) pieces' cs
  | [], scope, ledger, ledger', behind, pieces', _, hreads, _, _, _, _, _ => by
      obtain rfl := hreads.eq_nil
      exact ⟨[], chunked_nil⟩
  | (w, piece) :: cut, scope, ledger, ledger', behind, pieces', ⟨hne, hsegment, hpasses⟩, hreads,
      hledger, hnamed, hnumber, ⟨hclear, hclears⟩, ⟨hdelimited, hdelimiteds⟩ => by
      have hsource : source ((w, piece) :: cut) = w ++ source cut := rfl
      have hne' : w ++ source cut ≠ [] := fun hnil => hne (List.append_eq_nil_iff.1 hnil).1
      rw [hsource] at hreads
      rw [List.append_nil] at hsegment
      obtain ⟨piece', n', rest, rfl, hfirst', hrest'⟩ := hreads.exists_cons hne'
      obtain ⟨htwins, rfl⟩ := twins_of_segment hr
        (by rw [List.take_left]; exact hnumber (w, piece) List.mem_cons_self) hsegment hfirst'
      rw [List.take_left, List.drop_left] at hrest'
      have hnumbers : ∀ x ∈ cut, isNumber x.1 = false :=
        fun x hx => hnumber x (List.mem_cons_of_mem _ hx)
      cases htwins with
      | released outside =>
        subst outside
        have hpush : ledger'.Names (ledger.push none) := by
          simpa [Ledger.Names, Ledger.push] using hledger
        obtain ⟨cs, hcs⟩ := hpasses.exists_chunks hr hrest' hpush ((names_push _ _ _).trans hnamed)
          hnumbers hclears hdelimiteds
        exact ⟨_, hcs.opens hclear hnamed rfl⟩
      | kept name outside =>
        subst outside
        have hpush : (ledger'.push (some name)).Names (ledger.push (some name)) := by
          simpa [Ledger.Names, Ledger.push] using hledger
        obtain ⟨cs, hcs⟩ := hpasses.exists_chunks hr hrest' hpush ((names_push _ _ _).trans hnamed)
          hnumbers hclears hdelimiteds
        exact ⟨_, hcs.opens hclear hnamed rfl⟩
      | reference outside found found' apart =>
        subst outside
        obtain ⟨hpos, hkept, hindex⟩ := isNamed_of_index? hledger hnamed found
        obtain rfl := Option.some.inj (found'.symm.trans hindex)
        obtain ⟨cs, hcs⟩ := hpasses.exists_chunks hr hrest' hledger hnamed hnumbers hclears hdelimiteds
        exact ⟨_, hcs.reference hpos apart hdelimited hkept⟩
      | still silent =>
        have hend : w ++ source cut ≠ ['\\'] := by
          intro hend
          rw [hend, segment_backslash] at hsegment
          cases Except.ok.inj hsegment
        obtain ⟨cs, hcs⟩ := hpasses.exists_chunks hr hrest' hledger hnamed hnumbers hclears hdelimiteds
        exact ⟨_, hcs.silent silent (after_segment hsegment hne' hend)⟩
      | copied v =>
        by_cases hend : w ++ source cut = ['\\']
        · -- a backslash that ends the pattern is the last piece
          rw [hend, segment_backslash] at hsegment
          obtain ⟨hv, hlength⟩ := Prod.mk.inj (Except.ok.inj hsegment)
          obtain rfl := Segment.copied.inj hv
          have hnil : source cut = [] := by
            have := congrArg List.length hend
            rw [List.length_append, ← hlength] at this
            exact List.length_eq_zero_iff.1 (by simpa using this)
          obtain rfl := hpasses.eq_nil hnil
          obtain rfl := hrest'.eq_nil
          exact ⟨_, chunked_backslash⟩
        · obtain ⟨cs, hcs⟩ := hpasses.exists_chunks hr hrest' hledger hnamed hnumbers hclears
            hdelimiteds
          have hspot := after_segment hsegment hne' hend
          refine ⟨_, hcs.still ?_ hspot rfl rfl⟩
          rw [← hspot]
          exact mentions_of_segment hsegment hne' hend hclear

/-! ## 5. Patterns -/

/-- A pattern in which groups are referred to by name only, as a reader cuts it: all groups open as they
are read, and no reference is followed by a digit in what is written. -/
def Orderly (r : Reader) (t : Text) : Prop :=
  ∃ cut, source cut = t ∧ r.Passes [] .pattern .empty [] cut ∧ (∀ x ∈ cut, isNumber x.1 = false) ∧
    Clear .pattern (cut.map Prod.snd) ∧ Delimited (cut.map Prod.snd)

/-- What is written for an orderly pattern under flag `n` and without it. -/
theorem Orderly.exists_chunks {t : Text} {pieces pieces' : List Segment} (h : r.Orderly t)
    (hr : r.Explicit r') (hread : r.read t = .ok pieces) (hread' : r'.read t = .ok pieces') :
    ∃ keep cs, Fit .outside cs ∧ (∀ n, .reference n ∈ cs → n ≤ groupCount cs ∧ keep n = true) ∧
      Native.written cs = render pieces ∧ writtenReleased keep 0 cs = render pieces' := by
  obtain ⟨cut, rfl, hpasses, hnumber, hclear, hdelimited⟩ := h
  obtain rfl := Except.ok.inj (hpasses.read.symm.trans hread)
  obtain ⟨cs, hcs⟩ := hpasses.exists_chunks hr (reads_of_read hread') rfl rfl hnumber hclear
    hdelimited
  refine ⟨_, cs, hcs.fit, fun n hn => ?_, hcs.written, hcs.released⟩
  rw [hcs.groups]
  exact hcs.kept n hn

end Reader

end ExtensibleRegex
