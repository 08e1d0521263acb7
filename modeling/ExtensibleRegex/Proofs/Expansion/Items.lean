import ExtensibleRegex.Proofs.Expansion.Explicit
import Mathlib.Tactic

/-!
# The groups and references that a pattern is read with

A reading of a pattern says which groups it opens and which groups it refers to: its `items`. In what
is written for the pattern these are the places where the numbering of groups shows.

* `Reads.mentions_render` says that they are all such places, if every group opens as it was read and
  no digit follows a reference.
* `Reads.backward` says that every reference is to a group that has opened.
* Leaving out repeated empty groups changes none of these places (`mentions_mergeEmptyGroups`).
-/

namespace ExtensibleRegex

open Native

/-! ## 1. Items -/

/-- What a pattern says about groups. -/
inductive Item where
  /-- A group opens, perhaps with a name. -/
  | opens (name : Option Text)
  /-- A group is referred to by its number. -/
  | refers (n : Nat)
  /-- Another pattern is put in. -/
  | inserts (name : Text)
  deriving DecidableEq, Repr

namespace Item

/-- Where an item shows in a native pattern. -/
def mention? : Item → Option Mention
  | opens _ => some (.opens false)
  | refers n => some (.number (decimalText n))
  | inserts _ => none

/-- The name of the group that an item opens. -/
def name? : Item → Option (Option Text)
  | opens name => some name
  | _ => none

end Item

/-- Whether each number is that of a group that has opened, of which there are `opened` before. -/
def Native.Mention.Backward : (opened : Nat) → List Mention → Prop
  | _, [] => True
  | n, .opens _ :: ms => Backward (n + 1) ms
  | n, .number digits :: ms =>
    (0 < readDigits 10 digits ∧ readDigits 10 digits ≤ n) ∧ Backward n ms

/-- What a piece of a pattern says about groups. -/
def Segment.item? : Segment → Option Item
  | .opens name => some (.opens name)
  | .written ('\\' :: d :: ds) =>
    if d.isDigit && d != '0' then some (.refers (readDigits 10 (d :: ds.takeWhile Char.isDigit)))
    else none
  | _ => none

/-- What the pieces of a pattern say about groups. -/
def Reader.items (pieces : List Segment) : List Item := pieces.filterMap Segment.item?

/-! ## 2. Numbers -/

theorem decimalText_append {m d : Nat} (hm : 0 < m) (hd : d < 10) :
    decimalText (m * 10 + d) = decimalText m ++ [d.digitChar] := by
  have hdiv : (m * 10 + d) / 10 = m := by omega
  have hmod : (m * 10 + d) % 10 = d := by omega
  unfold decimalText
  rw [Nat.toDigits_of_base_le (by decide) (by omega), hdiv, hmod]

/-- **A number that does not begin with zero is written as it was.** -/
theorem decimalText_readDigits (t : Text) (hdigits : ∀ c ∈ t, c.isDigit = true) (hne : t ≠ [])
    (hzero : t.head? ≠ some '0') : decimalText (readDigits 10 t) = t := by
  have hvalue (c : Char) (hc : c.isDigit = true) : hexValue c < 10 ∧ (hexValue c).digitChar = c := by
    have hbounds := hc
    simp only [Char.isDigit, Bool.and_eq_true, decide_eq_true_eq] at hbounds
    have hlow : 48 ≤ c.toNat := UInt32.le_iff_toNat_le.1 hbounds.1
    have hhigh : c.toNat ≤ 57 := UInt32.le_iff_toNat_le.1 hbounds.2
    have hval : hexValue c = c.toNat - 48 := if_pos hc
    refine ⟨by omega, ?_⟩
    have hall : ∀ k ≤ 9, (Nat.digitChar k).toNat = k + 48 := by decide
    apply Char.toNat_inj.1
    rw [hval, hall _ (by omega)]
    omega
  induction t using List.reverseRecOn with
  | nil => exact absurd rfl hne
  | append_singleton t c ih =>
    have hc := hvalue c (hdigits c (by simp))
    rw [readDigits_append]
    by_cases ht : t = []
    · subst ht
      have hone : readDigits 10 [] * 10 + hexValue c = hexValue c := Nat.zero_add _
      rw [hone, decimalText, Nat.toDigits_of_lt_base hc.1, hc.2]
      rfl
    · have hhead : (t ++ [c]).head? = t.head? := by
        obtain ⟨d, ds, rfl⟩ := List.exists_cons_of_ne_nil ht
        rfl
      have hrest : ∀ d ∈ t, d.isDigit = true := fun d hd => hdigits d (List.mem_append_left _ hd)
      rw [hhead] at hzero
      rw [decimalText_append (readDigits_pos hrest ht hzero) hc.1, ih hrest ht hzero, hc.2]

theorem takeWhile_decimalText (n : Nat) {next : Text} (hnext : next.head?.any Char.isDigit = false) :
    (decimalText n ++ next).takeWhile Char.isDigit = decimalText n := by
  rw [List.takeWhile_append_of_pos fun c hc => isDigit_of_mem_decimalText hc]
  cases next with
  | nil => simp
  | cons c next => simp [show c.isDigit = false from hnext]

/-- The number of a group begins with a digit other than zero. -/
theorem decimalText_cons {n : Nat} (hn : 0 < n) :
    ∃ d ds, decimalText n = d :: ds ∧ (d.isDigit && d != '0') = true := by
  obtain ⟨d, ds, heq⟩ := List.exists_cons_of_ne_nil (decimalText_ne_nil n)
  have hd : d.isDigit = true := isDigit_of_mem_decimalText (n := n) (by rw [heq]; exact List.mem_cons_self)
  have hzero : d ≠ '0' := by
    rintro rfl
    exact head?_decimalText hn (by rw [heq]; rfl)
  exact ⟨d, ds, heq, by simp [hd, hzero]⟩

/-- Where a reference shows. -/
theorem mentions_reference {n : Nat} (hn : 0 < n) {next : Text}
    (hnext : next.head?.any Char.isDigit = false) :
    mentions .outside ('\\' :: decimalText n ++ next) =
      .number (decimalText n) :: mentions .outside next := by
  obtain ⟨d, ds, heq, hd⟩ := decimalText_cons hn
  have hdigits := takeWhile_decimalText n hnext
  have hds : ∀ c ∈ ds, isPlain c = true := fun c hc =>
    isPlain_of_isDigit (isDigit_of_mem_decimalText (n := n) (by rw [heq]; exact List.mem_cons_of_mem d hc))
  rw [heq, List.cons_append, List.takeWhile_cons, if_pos (by simpa using (Bool.and_eq_true_iff.1 hd).1)]
    at hdigits
  have hmention : mention? ('\\' :: d :: (ds ++ next)) = some (.number (decimalText n)) := by
    simp only [mention?]
    rw [if_pos hd, hdigits, heq]
  have hpassed := (scans_mentions.passes false).escaped d (ds ++ next)
  rw [heq, List.cons_append, List.cons_append, mentions_cons, hmention]
  show _ = _ :: mentions .outside next
  rw [← heq]
  exact congrArg (.number (decimalText n) :: ·) (hpassed.trans (silent_plain false hds next))

/-- Where a group shows. -/
theorem mentions_group {next : Text} (hnext : next.head? ≠ some '?') :
    mentions .outside ('(' :: next) = .opens false :: mentions .outside next := by
  have hopens : opensCapture next = true := by
    unfold opensCapture
    split <;> first | rfl | exact absurd rfl hnext
  have hmention : mention? ('(' :: next) = some (.opens false) := by
    simp [mention?, hopens, hnext]
  rw [mentions_cons, hmention]
  rfl

/-! ## 3. What tokens say -/

namespace Reader

variable {r : Reader} {scope : Scope} {ledger : Ledger} {behind t w : Text} {n : Nat}

/-- What a token writes says nothing about groups, or it is a reference to a group that has opened. -/
def Says (scope : Scope) (ledger : Ledger) (w : Text) : Prop :=
  (Silent (scope = .charClass) w ∧ (Segment.written w).item? = none) ∨
    scope = .pattern ∧ ∃ m v, 0 < m ∧ m ≤ ledger.groupCount ∧ w = '\\' :: decimalText m ++ v ∧
      (v = [] ∨ v = emptyGroup)

theorem says_escape {c : Char} {w : Text} (hc : c.isDigit = true → c = '0')
    (h : ∀ d ∈ w, isPlain d = true) : Says scope ledger ('\\' :: c :: w) := by
  refine .inl ⟨silent_escape _ hc h, ?_⟩
  simp only [Segment.item?]
  rw [if_neg]
  simpa using hc

theorem says_separator (behind ahead flags : Text) :
    Says .pattern ledger (separator behind ahead flags) := by
  refine .inl ⟨silent_separator behind ahead flags, ?_⟩
  unfold separator
  split <;> rfl

theorem index?_le {name : Text} {m : Nat} (h : ledger.index? name = some m) :
    0 < m ∧ m ≤ ledger.groupCount := by
  rw [Ledger.index?_eq] at h
  obtain ⟨i, hi, rfl⟩ := Option.map_eq_some_iff.1 h
  obtain ⟨hlt, -⟩ := List.findIdx?_eq_some_iff_getElem.1 hi
  rw [Array.length_toList] at hlt
  exact ⟨Nat.succ_pos i, hlt⟩

/-- A group that is referred to has opened. -/
theorem referredGroup?_le {name : Text} {m : Nat} (h : Builtin.referredGroup? ledger name = some m) :
    0 < m ∧ m ≤ ledger.groupCount := by
  unfold Builtin.referredGroup? at h
  split at h
  · simp only at h
    split at h
    · rename_i hbounds
      cases h
      exact hbounds
    · cases h
  · exact index?_le h

theorem written_eq {e : Extent} {v : Text} (h : write e v = .ok (some (.written w, n))) : w = v := by
  cases h
  rfl

theorem says_of_escape (h : r.escape scope ledger t = .ok (some (.written w, n))) :
    Says scope ledger w := by
  cases of_escape h with
  | @number w rest ne_nil isDigit ends stands =>
    rcases stands with ⟨hscope, hzero, hle⟩ | rfl
    · refine .inr ⟨hscope, _, [], readDigits_pos isDigit ne_nil hzero, hle, ?_, .inl rfl⟩
      rw [List.append_nil, decimalText_readDigits w isDigit ne_nil hzero]
    · exact says_escape (fun _ => rfl) (List.forall_mem_nil _)
  | @name _ rest m _ scope_eq refers =>
    obtain ⟨hpos, hle⟩ := referredGroup?_le refers
    refine .inr ⟨scope_eq, m, _, hpos, hle, rfl, ?_⟩
    split
    · exact .inr rfl
    · exact .inl rfl
  | unit =>
    exact says_escape (fun hu => absurd hu (by decide)) fun c hc =>
      isPlain_of_isHexDigit (isHexDigit_of_mem_hexText hc)
  | point isHexDigit =>
    exact says_escape (fun hu => absurd hu (by decide)) (isPlain_of_braced isHexDigit)
  | inside => exact says_escape (fun hd => absurd hd (by decide)) (List.forall_mem_nil _)

theorem says_of_parenthesis (h : r.parenthesis ledger behind t = .ok (some (.written w, n))) :
    Says .pattern ledger w := by
  unfold parenthesis at h
  split at h
  · split at h
    · rw [written_eq h]
      exact .inl ⟨silent_plainGroup, rfl⟩
    · cases h
  split at h
  · simp only at h
    split at h
    · cases h
    split at h
    · cases h
    split at h <;> cases h
  split at h
  · rw [written_eq h]
    exact says_separator _ _ _
  split at h <;> cases h

/-- **What a token says about groups.** -/
theorem says_of_token? (h : r.token? scope ledger behind t = .ok (some (.written w, n))) :
    Says scope ledger w := by
  unfold token? at h
  split at h
  · exact says_of_escape h
  cases scope with
  | charClass => cases h
  | pattern =>
    simp only at h
    split at h
    · exact says_of_parenthesis h
    split at h
    · unfold bareClass at h
      split at h
      · rw [written_eq h]
        split
        · exact .inl ⟨silent_boundaries, rfl⟩
        · exact .inl ⟨silent_anyCharacter, rfl⟩
      · cases h
    split at h
    · unfold dot at h
      split at h
      · rw [written_eq h]
        exact .inl ⟨silent_anyCharacter, rfl⟩
      · cases h
    · unfold blank at h
      split at h
      · rw [written_eq h]
        exact says_separator _ _ _
      · cases h

/-! ## 4. Readings -/

variable {pieces : List Segment}

theorem item?_reference {m : Nat} (hm : 0 < m) {v : Text} (hv : v = [] ∨ v = emptyGroup) :
    (Segment.written ('\\' :: decimalText m ++ v)).item? = some (.refers m) := by
  have hnext : v.head?.any Char.isDigit = false := by rcases hv with rfl | rfl <;> rfl
  obtain ⟨d, ds, heq, hd⟩ := decimalText_cons hm
  have hdigits := takeWhile_decimalText m hnext
  rw [heq, List.cons_append, List.takeWhile_cons, if_pos (by simpa using (Bool.and_eq_true_iff.1 hd).1)]
    at hdigits
  rw [heq, List.cons_append, List.cons_append]
  simp only [Segment.item?]
  rw [if_pos hd, hdigits, ← heq, readDigits_decimalText]

/-- **The groups and references that are read show in what is written**, and nothing else does. -/
theorem Reads.mentions_render (h : r.Reads scope ledger behind t pieces) :
    Clear scope pieces → Delimited pieces →
    mentions scope.spot (render pieces) = (items pieces).filterMap Item.mention? := by
  induction h with
  | nil =>
    intro _ _
    rfl
  | @cons scope ledger behind t piece n pieces hne hpos hfirst hrest ih =>
    intro hclear hdelimited
    have hrender : render (piece :: pieces) = piece.text ++ render pieces := rfl
    have ih := ih hclear.2 hdelimited.2
    rw [hrender]
    cases piece with
    | opens name =>
      obtain rfl : scope = .pattern := by
        rcases segment_eq_ok hfirst with htoken | ⟨-, hcopied, -⟩
        · exact (of_opens htoken).1
        · cases hcopied
      have hgroup := mentions_group hclear.1
      exact hgroup.trans (congrArg (.opens false :: ·) ih)
    | written w =>
      have htoken : r.token? scope ledger behind t = .ok (some (.written w, n)) := by
        rcases segment_eq_ok hfirst with htoken | ⟨-, hcopied, -⟩
        · exact htoken
        · cases hcopied
      rcases says_of_token? htoken with ⟨hsilent, hnone⟩ | ⟨rfl, m, v, hm, -, rfl, hv⟩
      · have hitems : items (.written w :: pieces) = items pieces := List.filterMap_cons_none hnone
        rw [hitems, ← ih]
        show mentions scope.spot (w ++ render pieces) = mentions scope.spot (render pieces)
        rw [Scope.spot_eq]
        exact hsilent _
      · have hitems : items (.written ('\\' :: decimalText m ++ v) :: pieces) =
            .refers m :: items pieces := List.filterMap_cons_some (item?_reference hm hv)
        have hnext : (v ++ render pieces).head?.any Char.isDigit = false := by
          rcases hv with rfl | rfl
          · have hdelimited := hdelimited.1
            rw [List.append_nil] at hdelimited
            exact hdelimited (isReference_decimalText m)
          · rfl
        have hsilent : Silent false v := by
          rcases hv with rfl | rfl
          · exact silent_nil false
          · exact silent_emptyGroup
        have hreference := mentions_reference hm hnext
        rw [hitems]
        show mentions .outside ('\\' :: decimalText m ++ v ++ render pieces) =
          .number (decimalText m) :: (items pieces).filterMap Item.mention?
        rw [List.append_assoc, hreference, ← ih]
        exact congrArg (.number (decimalText m) :: ·) (hsilent (render pieces))
    | copied w =>
      have hitems : items (.copied w :: pieces) = items pieces := rfl
      rw [hitems, ← ih]
      by_cases hend : t = ['\\']
      · -- a backslash that ends the pattern is the last piece
        subst hend
        rw [segment_backslash] at hfirst
        cases hfirst
        obtain rfl := hrest.eq_nil
        cases scope <;> rfl
      · have hspot := after_segment hfirst hne hend
        rw [← hspot]
        exact mentions_of_segment hfirst hne hend hclear.1

/-- **Every reference that is read is to a group that has opened.** -/
theorem Reads.backward (h : r.Reads scope ledger behind t pieces) :
    Mention.Backward ledger.groupCount ((items pieces).filterMap Item.mention?) := by
  induction h with
  | nil => trivial
  | @cons scope ledger behind t piece n pieces hne hpos hfirst hrest ih =>
    cases piece with
    | opens name =>
      have hcount : (ledger.push name).groupCount = ledger.groupCount + 1 := Array.size_push _
      change Mention.Backward (ledger.push name).groupCount _ at ih
      rw [hcount] at ih
      exact ih
    | written w =>
      have htoken : r.token? scope ledger behind t = .ok (some (.written w, n)) := by
        rcases segment_eq_ok hfirst with htoken | ⟨-, hcopied, -⟩
        · exact htoken
        · cases hcopied
      rcases says_of_token? htoken with ⟨-, hnone⟩ | ⟨-, m, v, hm, hle, rfl, hv⟩
      · have hitems : items (.written w :: pieces) = items pieces := List.filterMap_cons_none hnone
        rw [hitems]
        exact ih
      · have hitems : items (.written ('\\' :: decimalText m ++ v) :: pieces) =
            .refers m :: items pieces := List.filterMap_cons_some (item?_reference hm hv)
        rw [hitems]
        refine ⟨?_, ih⟩
        rw [readDigits_decimalText]
        exact ⟨hm, hle⟩
    | copied w => exact ih

/-- The names of the groups that are read. -/
theorem names_items (pieces : List Segment) : (items pieces).filterMap Item.name? = names pieces := by
  induction pieces with
  | nil => rfl
  | cons piece pieces ih =>
    cases piece with
    | opens name => exact congrArg (name :: ·) ih
    | copied w => exact ih
    | written w =>
      cases hitem : (Segment.written w).item? with
      | none =>
        have hitems : items (.written w :: pieces) = items pieces := List.filterMap_cons_none hitem
        rw [hitems]
        exact ih
      | some item =>
        have hitems : items (.written w :: pieces) = item :: items pieces :=
          List.filterMap_cons_some hitem
        have hname : item.name? = none := by
          unfold Segment.item? at hitem
          split at hitem
          · cases ‹Segment.written w = _›
          · split at hitem
            · cases hitem
              rfl
            · cases hitem
          · cases hitem
        rw [hitems, List.filterMap_cons_none hname]
        exact ih

end Reader

/-! ## 5. Repeated empty groups -/

theorem takeWhile_isDigit_merged : ∀ t : Text,
    (merged t).takeWhile Char.isDigit = t.takeWhile Char.isDigit
  | [] => rfl
  | c :: t => by
      cases hempty : emptyGroup.isPrefixOf (c :: t) with
      | true =>
        obtain ⟨u, hu⟩ := List.isPrefixOf_iff_prefix.1 hempty
        rw [← hu, merged_emptyGroup]
        rfl
      | false =>
        rw [merged_cons hempty, List.takeWhile_cons, List.takeWhile_cons,
          takeWhile_isDigit_merged t]

/-- A character mentions the same with repeated empty groups left out behind it. -/
theorem mention?_merged (c : Char) (t : Text) : mention? (c :: merged t) = mention? (c :: t) := by
  by_cases hparen : c = '('
  · subst hparen
    simp only [mention?, opensCapture_merged, head?_merged]
  by_cases hescape : c = '\\'
  · subst hescape
    cases t with
    | nil => rfl
    | cons d ds =>
      cases hempty : emptyGroup.isPrefixOf (d :: ds) with
      | true =>
        obtain ⟨u, hu⟩ := List.isPrefixOf_iff_prefix.1 hempty
        rw [← hu, merged_emptyGroup]
        rfl
      | false =>
        rw [merged_cons hempty]
        simp only [mention?, takeWhile_isDigit_merged]
  · rw [mention?_other hparen hescape, mention?_other hparen hescape]

theorem mentions_emptyGroup (s : Spot) (t : Text) :
    mentions s (emptyGroup ++ t) = mentions ⟨s.inClass, false⟩ t := by
  have hplain : ∀ c ∈ ['?', ':', ')'], isPlain c = true := List.all_eq_true.1 rfl
  have hrest (b : Bool) := silent_plain b hplain t
  obtain ⟨b, escaped⟩ := s
  cases escaped with
  | true => exact ((scans_mentions.passes b).escaped '(' _).trans (hrest b)
  | false =>
    have hnone : mention? ('(' :: (['?', ':', ')'] ++ t)) = none := mention?_paren rfl
    have hnext : Spot.next ⟨b, false⟩ '(' = ⟨b, false⟩ := by cases b <;> rfl
    show mentions ⟨b, false⟩ ('(' :: (['?', ':', ')'] ++ t)) = _
    rw [mentions_of_none hnone, hnext]
    exact hrest b

theorem mentions_next (s : Spot) {c : Char} {t u : Text} (h : mention? (c :: t) = mention? (c :: u))
    (hrest : mentions (s.next c) t = mentions (s.next c) u) :
    mentions s (c :: t) = mentions s (c :: u) := by
  by_cases hs : s = .outside
  · subst hs
    rw [mentions_cons, mentions_cons, h, hrest]
  · rw [scans_mentions s c t fun hmark => hs hmark.1, scans_mentions s c u fun hmark => hs hmark.1,
      hrest]

theorem mentions_merged : ∀ (limit : Nat) (t : Text), t.length ≤ limit →
    (∀ s, mentions s (merged t) = mentions s t) ∧
      ∀ b, mentions ⟨b, false⟩ (mergedAfter t) = mentions ⟨b, false⟩ t
  | _, [], _ => ⟨fun _ => rfl, fun _ => rfl⟩
  | 0, _ :: _, h => absurd h (Nat.not_succ_le_zero _)
  | limit + 1, c :: t, h => by
      have hlength : t.length ≤ limit := Nat.le_of_succ_le_succ h
      cases hempty : emptyGroup.isPrefixOf (c :: t) with
      | true =>
        obtain ⟨u, hu⟩ := List.isPrefixOf_iff_prefix.1 hempty
        have hshort : u.length ≤ limit := by
          have hlen := congrArg List.length hu
          simp only [List.length_append, List.length_cons, emptyGroup] at hlen
          omega
        have ih := (mentions_merged limit u hshort).2
        rw [← hu, merged_emptyGroup, mergedAfter_emptyGroup]
        refine ⟨fun s => ?_, fun b => ?_⟩
        · rw [mentions_emptyGroup, mentions_emptyGroup, ih]
        · rw [mentions_emptyGroup, ih]
      | false =>
        have ih := (mentions_merged limit t hlength).1
        rw [merged_cons hempty, mergedAfter_cons hempty]
        exact ⟨fun s => mentions_next s (mention?_merged c t) (ih _),
          fun b => mentions_next _ (mention?_merged c t) (ih _)⟩

/-- **Leaving out repeated empty groups changes nothing about groups and references.** -/
theorem mentions_mergeEmptyGroups (s : Spot) (t : Text) :
    mentions s (mergeEmptyGroups t) = mentions s t :=
  (mentions_merged t.length t (Nat.le_refl _)).1 s

end ExtensibleRegex
