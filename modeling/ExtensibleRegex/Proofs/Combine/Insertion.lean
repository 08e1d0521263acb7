import ExtensibleRegex.Proofs.Combine.Assembling
import ExtensibleRegex.Proofs.Dialect.Groups
import Mathlib.Tactic

/-!
# Patterns put into a pattern

What a pattern with subpatterns says about groups, when the subpatterns are put in: their groups come in
between, so that the numbers of the groups behind them grow, and every reference is to the group that it
was to before (`inserted`, `composed`).

* `place_append` says what number a group of the outer pattern ends up with.
* `Script.items_bits` says that references resolve so in what a script writes, by name or by number.
* `Part.resolves_composed` says it of a whole build.
-/

namespace ExtensibleRegex

open Native

/-! ## 1. Insertion -/

namespace Item

/-- An item of a pattern that is put behind `prior` groups. -/
def shifted (prior : Nat) : Item → Item
  | opens name => opens name
  | refers n => refers (n + prior)
  | inserts name => inserts name

/-- How many groups an item stands for. -/
def groups (own : Text → Nat) : Item → Nat
  | opens _ => 1
  | refers _ => 0
  | inserts name => own name

end Item

/-- How many groups items stand for, when a name stands for `own` of them. -/
def total (own : Text → Nat) (is : List Item) : Nat := (is.map (Item.groups own)).sum

/-- How many groups items open. -/
def opened (is : List Item) : Nat := total (fun _ => 0) is

/-- The number that the `n`-th group of a pattern has with the subpatterns put in. -/
def place (own : Text → Nat) : List Item → (n : Nat) → Nat
  | [], n => n
  | .opens _ :: is, n => if n ≤ 1 then n else place own is (n - 1) + 1
  | .refers _ :: is, n => place own is n
  | .inserts name :: is, n => place own is n + own name

/-- Items behind `prior` groups with others put in, when the `n`-th group has become number `moved n`. -/
def inserted (parts : Text → List Item) (moved : Nat → Nat) : (prior : Nat) → List Item → List Item
  | _, [] => []
  | g, .opens name :: is => .opens name :: inserted parts moved (g + 1) is
  | g, .refers n :: is => .refers (moved n) :: inserted parts moved g is
  | g, .inserts name :: is =>
    (parts name).map (Item.shifted g) ++ inserted parts moved (g + opened (parts name)) is

/-- A pattern with its subpatterns put in. -/
def composed (parts : Text → List Item) (whole : List Item) : List Item :=
  inserted parts (place (fun name => opened (parts name)) whole) 0 whole

section Places

variable {own : Text → Nat} {is is' : List Item}

theorem total_append : total own (is ++ is') = total own is + total own is' := by
  simp [total]

theorem total_cons (i : Item) : total own (i :: is) = i.groups own + total own is := by
  simp [total]

/-- **The number of a group** of the outer pattern is the number of groups before it, and one. -/
theorem place_append (own : Text → Nat) (name : Option Text) (post : List Item) : ∀ pre : List Item,
    place own (pre ++ .opens name :: post) (opened pre + 1) = total own pre + 1
  | [] => rfl
  | .opens other :: pre => by
      have hopened : opened (.opens other :: pre) = opened pre + 1 :=
        (total_cons _).trans (Nat.add_comm _ _)
      rw [hopened, total_cons]
      show (if opened pre + 1 + 1 ≤ 1 then opened pre + 1 + 1
        else place own (pre ++ .opens name :: post) (opened pre + 1) + 1) = 1 + total own pre + 1
      rw [if_neg (by omega), place_append own name post pre]
      omega
  | .refers n :: pre => by
      have hopened : opened (.refers n :: pre) = opened pre := (total_cons _).trans (Nat.zero_add _)
      have htotal : total own (.refers n :: pre) = total own pre := (total_cons _).trans (Nat.zero_add _)
      rw [hopened, htotal]
      exact place_append own name post pre
  | .inserts other :: pre => by
      have hopened : opened (.inserts other :: pre) = opened pre := (total_cons _).trans (Nat.zero_add _)
      rw [hopened, total_cons]
      show place own (pre ++ .opens name :: post) (opened pre + 1) + own other =
        own other + total own pre + 1
      rw [place_append own name post pre]
      omega

/-- Items without subpatterns are shifted. -/
theorem inserted_shifted (parts : Text → List Item) (prior : Nat) : ∀ {is : List Item},
    (∀ name, .inserts name ∉ is) → ∀ g, inserted parts (· + prior) g is = is.map (Item.shifted prior)
  | [], _, _ => rfl
  | i :: is, h, g => by
      have hrest : ∀ name, .inserts name ∉ is := fun name hmem => h name (List.mem_cons_of_mem i hmem)
      have ih := inserted_shifted parts prior hrest
      cases i with
      | opens name => exact congrArg (Item.opens name :: ·) (ih (g + 1))
      | refers n => exact congrArg (Item.refers (n + prior) :: ·) (ih g)
      | inserts name => exact absurd List.mem_cons_self (h name)

theorem length_names (is : List Item) : (is.filterMap Item.name?).length = opened is := by
  induction is with
  | nil => rfl
  | cons i is ih =>
    have htotal : opened (i :: is) = i.groups (fun _ => 0) + opened is := total_cons i
    rw [htotal, ← ih]
    cases i with
    | opens name => exact Nat.add_comm _ 1
    | refers n => exact (Nat.zero_add _).symm
    | inserts name => exact (Nat.zero_add _).symm

theorem names_shifted (prior : Nat) (is : List Item) :
    (is.map (Item.shifted prior)).filterMap Item.name? = is.filterMap Item.name? := by
  induction is with
  | nil => rfl
  | cons i is ih =>
    cases i with
    | opens name => exact congrArg (name :: ·) ih
    | refers n => exact ih
    | inserts name => exact ih

end Places

/-! ## 2. What calls come to -/

/-- The ledger behind items. -/
def Ledger.after (ledger : Ledger) (is : List Item) : Ledger :=
  ⟨ledger.names ++ (is.filterMap Item.name?).toArray⟩

/-- No two groups have the same name. -/
def Distinct (ledger : Ledger) (is : List Item) : Prop :=
  ((ledger.after is).names.toList.filterMap id).Nodup

section Resolving

variable {ledger : Ledger} {cs ms : List Call} {is is' : List Item}

theorem names_after (ledger : Ledger) (is : List Item) :
    (ledger.after is).names.toList = ledger.names.toList ++ is.filterMap Item.name? := by
  simp [Ledger.after]

theorem after_append (ledger : Ledger) (is is' : List Item) :
    ledger.after (is ++ is') = (ledger.after is).after is' := by
  simp [Ledger.after]

theorem after_nil (ledger : Ledger) : ledger.after [] = ledger := by simp [Ledger.after]

theorem after_opens (ledger : Ledger) (name : Option Text) (is : List Item) :
    ledger.after (.opens name :: is) = (ledger.push name).after is := by
  have happend : ledger.names.push name = ledger.names ++ #[name] := Array.push_eq_append
  simp only [Ledger.after, Ledger.push, happend, List.filterMap_cons, Item.name?]
  simp

theorem groupCount_after (ledger : Ledger) (is : List Item) :
    (ledger.after is).groupCount = ledger.groupCount + opened is := by
  rw [← length_names is]
  simp [Ledger.groupCount, Ledger.after]

/-- Calls come to what their parts come to. -/
theorem Resolves.append (h : Resolves ledger (cs ++ ms) is) : ∃ before behind,
    is = before ++ behind ∧ Resolves ledger cs before ∧ Resolves (ledger.after before) ms behind := by
  induction cs generalizing ledger is with
  | nil =>
    exact ⟨[], is, rfl, .nil, (after_nil ledger).symm ▸ h⟩
  | cons c cs ih =>
    cases h with
    | @opens _ name _ is rest =>
      obtain ⟨before, behind, rfl, hbefore, hbehind⟩ := ih rest
      refine ⟨.opens name :: before, behind, rfl, .opens hbefore, ?_⟩
      rw [after_opens]
      exact hbehind
    | number le rest =>
      obtain ⟨before, behind, rfl, hbefore, hbehind⟩ := ih rest
      exact ⟨_ :: before, behind, rfl, .number le hbefore, hbehind⟩
    | name found rest =>
      obtain ⟨before, behind, rfl, hbefore, hbehind⟩ := ih rest
      exact ⟨_ :: before, behind, rfl, .name found hbefore, hbehind⟩

theorem Distinct.left (h : Distinct ledger (is ++ is')) : Distinct ledger is := by
  unfold Distinct at h ⊢
  rw [after_append, names_after _ is', List.filterMap_append] at h
  exact (List.nodup_append.1 h).1

theorem Distinct.right (h : Distinct ledger (is ++ is')) : Distinct (ledger.after is) is' := by
  unfold Distinct at h ⊢
  rwa [after_append] at h

theorem Distinct.tail {i : Item} (h : Distinct ledger (i :: is)) : Distinct (ledger.after [i]) is := by
  have hsplit : Distinct ledger ([i] ++ is) := h
  exact hsplit.right

theorem Distinct.nodup (h : Distinct ledger is) : (ledger.names.toList.filterMap id).Nodup := by
  unfold Distinct at h
  rw [names_after, List.filterMap_append] at h
  exact (List.nodup_append.1 h).1

/-- The number of a group is the place of its name. -/
theorem Distinct.index? (h : Distinct ledger is) {name : Text} {n : Nat} (hn : 0 < n)
    (hname : ledger.names.toList[n - 1]? = some (some name)) : ledger.index? name = some n := by
  have hfound := GroupNames.index?_eq h.nodup hname
  rw [Nat.sub_add_cancel hn] at hfound
  rw [Ledger.index?_eq]
  exact hfound

end Resolving

/-! ## 3. What is written for a script -/

namespace Script

/-- How far a script has come: `g` groups have opened, those of the pattern itself with the numbers in
`o`, the last first, as they should be and with their names. -/
structure Reached (s : Script) (moved : Nat → Nat) (ledger : Ledger) (g : Nat) (o : List Nat) : Prop where
  count : ledger.groupCount = g
  became : ∀ k < o.length, o.reverse[k]? = some (moved (k + 1))
  pos : ∀ k < o.length, 0 < moved (k + 1)
  named : ∀ k < o.length, ∀ name, (s.names[k]?).join = some name →
    ledger.names.toList[moved (k + 1) - 1]? = some (some name)

section Reaching

variable {s : Script} {moved : Nat → Nat} {parts : Text → List Item} {ledger : Ledger} {g : Nat}
  {o : List Nat} {cs : List Call} {is : List Item} {bs : List Bit}

/-- Other groups may follow. -/
theorem Reached.after (h : s.Reached moved ledger g o) (is : List Item) :
    s.Reached moved (ledger.after is) (g + opened is) o where
  count := by rw [groupCount_after, h.count]
  became := h.became
  pos := h.pos
  named k hk name hname := by
    have hfound := h.named k hk name hname
    rw [names_after, List.getElem?_append_left (List.getElem?_eq_some_iff.1 hfound).1]
    exact hfound

/-- A group of the pattern itself opens. -/
theorem Reached.open (h : s.Reached moved ledger g o) {name : Option Text}
    (hname : ∀ n, (s.names[o.length]?).join = some n → name = some n)
    (hmoved : moved (o.length + 1) = g + 1) :
    s.Reached moved (ledger.push name) (g + 1) ((g + 1) :: o) where
  count := by rw [← h.count]; exact Array.size_push name
  became k hk := by
    rw [List.reverse_cons]
    rcases Nat.lt_succ_iff_lt_or_eq.1 hk with hk | rfl
    · rw [List.getElem?_append_left (by simpa using hk)]
      exact h.became k hk
    · rw [hmoved, List.getElem?_append_right (by simp)]
      simp
  pos k hk := by
    rcases Nat.lt_succ_iff_lt_or_eq.1 hk with hk | rfl
    · exact h.pos k hk
    · rw [hmoved]
      exact Nat.succ_pos g
  named k hk n hn := by
    have hnames : (ledger.push name).names.toList = ledger.names.toList ++ [name] := Array.toList_push
    have hcount : ledger.names.toList.length = g := h.count
    rw [hnames]
    rcases Nat.lt_succ_iff_lt_or_eq.1 hk with hk | rfl
    · have hfound := h.named k hk n hn
      rw [List.getElem?_append_left (List.getElem?_eq_some_iff.1 hfound).1]
      exact hfound
    · rw [hmoved, hname n hn, Nat.add_sub_cancel, ← hcount, List.getElem?_concat_length]

/-- A reference to a group that has opened comes to the number that the group has now. -/
theorem Reached.reference (h : s.Reached moved ledger g o) (hdistinct : Distinct ledger is) {n : Nat}
    (htarget : o.reverse[n - 1]? = some (moved n) → s.target o n = moved n)
    (hn : 0 < n) (hle : n ≤ o.length) {js : List Item}
    (hresolves : Resolves ledger (s.reference o n :: cs) js) :
    ∃ rest, js = .refers (moved n) :: rest ∧ Resolves ledger cs rest := by
  have hk : n - 1 < o.length := by omega
  have hsucc : n - 1 + 1 = n := Nat.sub_add_cancel hn
  have hbecame := h.became (n - 1) hk
  have hpos := h.pos (n - 1) hk
  have hnamed := h.named (n - 1) hk
  rw [hsucc] at hbecame hpos hnamed
  unfold Script.reference at hresolves
  cases hname : (s.names[n - 1]?).join with
  | none =>
    rw [hname] at hresolves
    cases hresolves with
    | number le rest =>
      rw [htarget hbecame]
      exact ⟨_, rfl, rest⟩
  | some name =>
    rw [hname] at hresolves
    cases hresolves with
    | name found rest =>
      rw [hdistinct.index? hpos (hnamed name hname), Option.some.injEq] at found
      rw [found]
      exact ⟨_, rfl, rest⟩

/-- A script that writes the pattern `whole` with others put in, behind `base` groups. -/
structure Inserts (s : Script) (parts : Text → List Item) (moved : Nat → Nat) (base : Nat)
    (whole : List Item) : Prop where
  own : ∀ name, s.own name = opened (parts name)
  places : ∀ pre name post, whole = pre ++ .opens name :: post →
    moved (opened pre + 1) = base + total s.own pre + 1
  target : ∀ o n, 0 < n → o.reverse[n - 1]? = some (moved n) → s.target o n = moved n
  insertion : ∀ name ledger is, Distinct ledger is →
    Resolves ledger (callsOf (s.insertion ledger.groupCount name)) is →
    is = (parts name).map (Item.shifted ledger.groupCount)

/-- A place in the pattern, with the items `is` ahead. -/
structure At (s : Script) (base : Nat) (whole : List Item) (g opens : Nat) (is : List Item) : Prop where
  exists_before : ∃ pre, whole = pre ++ is ∧ opened pre = opens ∧ g = base + total s.own pre

theorem At.next {base n : Nat} {whole : List Item} {i : Item} (h : s.At base whole g n (i :: is)) :
    s.At base whole (g + i.groups s.own) (n + i.groups fun _ => 0) is := by
  obtain ⟨pre, rfl, rfl, rfl⟩ := h.exists_before
  have htotal (own : Text → Nat) : total own (pre ++ [i]) = total own pre + i.groups own := by
    rw [total_append]
    simp [total]
  refine ⟨pre ++ [i], by simp, htotal _, ?_⟩
  rw [htotal, Nat.add_assoc]

theorem Inserts.moved_next {base n : Nat} {whole : List Item} {name : Option Text}
    (h : s.Inserts parts moved base whole) (hat : s.At base whole g n (.opens name :: is)) :
    moved (n + 1) = g + 1 := by
  obtain ⟨pre, hwhole, rfl, rfl⟩ := hat.exists_before
  exact h.places pre name is hwhole

/-- Another pattern comes to what it says, behind the groups that there are. -/
theorem Inserts.of_insertion {base : Nat} {whole : List Item} (h : s.Inserts parts moved base whole)
    (hreached : s.Reached moved ledger g o) (hdistinct : Distinct ledger is) {name : Text}
    (hresolves : Resolves ledger (callsOf (s.insertion g name ++ .verbatim [')'] :: bs)) is) :
    ∃ rest ledger', is = (parts name).map (Item.shifted g) ++ rest ∧
      s.Reached moved ledger' (g + s.own name) o ∧ Distinct ledger' rest ∧
      Resolves ledger' (callsOf bs) rest := by
  have hcalls : callsOf (s.insertion g name ++ .verbatim [')'] :: bs) =
      callsOf (s.insertion g name) ++ callsOf bs := callsOf_append _ _
  rw [hcalls] at hresolves
  obtain ⟨before, behind, rfl, hbefore, hbehind⟩ := hresolves.append
  rw [← hreached.count] at hbefore
  have hitems := h.insertion name ledger before hdistinct.left hbefore
  rw [hreached.count] at hitems
  have hown : opened before = s.own name := by
    rw [h.own, ← length_names, ← length_names, hitems, names_shifted]
  have hafter := hreached.after before
  rw [hown] at hafter
  exact ⟨behind, ledger.after before, by rw [hitems], hafter, hdistinct.right, hbehind⟩

/-- **What a script writes comes to the pattern with the others put in**: its references are to the
groups that they were to. The induction is on what is left of the pattern. -/
theorem Inserts.items_bits {base : Nat} {whole : List Item} (h : s.Inserts parts moved base whole)
    {ps : List Piece} (hat : s.At base whole g o.length (outline s.names o.length ps))
    (hbackward : Mention.Backward o.length ((outline s.names o.length ps).filterMap Item.mention?))
    (hreached : s.Reached moved ledger g o) (hdistinct : Distinct ledger is)
    (hresolves : Resolves ledger (callsOf (s.bits g o ps)) is) :
    is = inserted parts moved g (outline s.names o.length ps) := by
  induction ps generalizing ledger g o is with
  | nil =>
    cases hresolves
    rfl
  | cons p ps ih =>
    have hopens {name : Option Text} {js : List Item} (hd : Distinct ledger (.opens name :: js)) :
        Distinct (ledger.push name) js := by
      have htail := hd.tail
      rwa [after_opens, after_nil] at htail
    cases p with
    | verbatim t => exact ih hat hbackward hreached hdistinct hresolves
    | backref n =>
      obtain ⟨hn, hbackward⟩ := hbackward
      rw [readDigits_decimalText] at hn
      obtain ⟨rest, rfl, hrest⟩ :=
        hreached.reference hdistinct (h.target o n hn.1) hn.1 hn.2 hresolves
      exact congrArg (Item.refers (moved n) :: ·) (ih hat.next hbackward hreached hdistinct.tail hrest)
    | capture =>
      cases hresolves with
      | opens rest =>
        have hopen := hreached.open (fun n hn => hn) (h.moved_next hat)
        exact congrArg (Item.opens (s.names[o.length]?).join :: ·)
          (ih hat.next hbackward hopen (hopens hdistinct) rest)
    | subpattern name capturing =>
      cases capturing with
      | true =>
        cases hresolves with
        | opens rest =>
          have hlabel (n : Text) (hn : (s.names[o.length]?).join = some n) :
              some ((s.names[o.length]?).join.getD name) = some n := by rw [hn]; rfl
          have hopen := hreached.open hlabel (h.moved_next hat)
          obtain ⟨behind, ledger', rfl, hreached', hdistinct', hrest⟩ :=
            h.of_insertion hopen (hopens hdistinct) rest
          rw [ih hat.next.next hbackward hreached' hdistinct' hrest, h.own]
          rfl
      | false =>
        obtain ⟨behind, ledger', rfl, hreached', hdistinct', hrest⟩ :=
          h.of_insertion hreached hdistinct hresolves
        rw [ih (g := g + s.own name) hat.next hbackward hreached' hdistinct' hrest, h.own]
        rfl

end Reaching

end Script

/-! ## 4. Builds -/

namespace Part

variable {part outer : Part} {parts : List (Text × Part)}

/-- What a part says about groups, with names of subpatterns or without. -/
def items (part : Part) (sub : Bool) : List Item := outline part.names 0 (pieces part.pattern sub)

/-- What the part of a name says about groups. -/
def itemsOf (parts : List (Text × Part)) (name : Text) : List Item :=
  ((parts.lookup name).map fun part => part.items false).getD []

/-- What a build says about groups. -/
def composed (outer : Part) (parts : List (Text × Part)) : List Item :=
  ExtensibleRegex.composed (itemsOf parts) (outer.items true)

/-- A part that is well-formed alone: it is a native pattern without names for groups, nothing in it
looks like a reference by name, its references are to groups that have opened, and its groups can be
called by their names. -/
structure WellFormed (part : Part) : Prop where
  lexemes : ∃ ls, lexAll? false false 0 part.pattern [] = some ls ∧
    ∀ name ∈ captureNames ls, name = none
  no_name : ¬['\\', 'k', '<'] <:+: part.pattern
  backward : Mention.Backward 0 (mentions .outside part.pattern)
  callable : ∀ name, some name ∈ part.names → Callable name

theorem not_inserts (names : GroupNames) : ∀ {ps : List Piece},
    (∀ p ∈ ps, ∀ name capturing, p ≠ .subpattern name capturing) → ∀ n name,
    .inserts name ∉ outline names n ps
  | [], _, _, _ => List.not_mem_nil
  | p :: ps, h, n, name => by
      have ih := not_inserts names (fun q hq => h q (List.mem_cons_of_mem p hq))
      cases p with
      | capture =>
        intro hmem
        exact ih (n + 1) name ((List.mem_cons.1 hmem).resolve_left nofun)
      | backref k =>
        intro hmem
        exact ih n name ((List.mem_cons.1 hmem).resolve_left nofun)
      | verbatim t => exact ih n name
      | subpattern other capturing => exact absurd rfl (h _ List.mem_cons_self other capturing)

theorem opened_outline (names : GroupNames) : ∀ {ps : List Piece},
    (∀ p ∈ ps, ∀ name capturing, p ≠ .subpattern name capturing) → ∀ n,
    opened (outline names n ps) = ps.count .capture
  | [], _, _ => rfl
  | p :: ps, h, n => by
      have ih := opened_outline names (fun q hq => h q (List.mem_cons_of_mem p hq))
      cases p with
      | capture =>
        have hopened : opened (outline names n (.capture :: ps)) = 1 + opened (outline names (n + 1) ps) :=
          total_cons _
        rw [hopened, ih, List.count_cons_self, Nat.add_comm]
      | backref k =>
        have hopened : opened (outline names n (.backref k :: ps)) = 0 + opened (outline names n ps) :=
          total_cons _
        rw [hopened, ih, Nat.zero_add, List.count_cons_of_ne (by simp)]
      | verbatim t => exact (ih n).trans (List.count_cons_of_ne (by simp)).symm
      | subpattern other capturing => exact absurd rfl (h _ List.mem_cons_self other capturing)

/-- No name stands for a subpattern in a part. -/
theorem plain_pieces (part : Part) : ∀ p ∈ pieces part.pattern false, ∀ name capturing,
    p ≠ .subpattern name capturing :=
  fun _ hp => not_subpattern _ _ (Nat.lt_succ_self _) hp

/-- A part says that it opens as many groups as it does. -/
theorem opened_items (part : Part) : opened (part.items false) = part.groups :=
  opened_outline _ part.plain_pieces 0

section Parts

variable {ledger : Ledger} {is : List Item}

/-- The calls of a part, and its pieces. -/
theorem WellFormed.exists_legible (h : part.WellFormed) (sub : Bool) : ∃ cs,
    Legible (pieces part.pattern sub) cs ∧
      (part.items sub).filterMap Item.mention? = mentions .outside part.pattern := by
  obtain ⟨ls, hlexemes, hnone⟩ := h.lexemes
  obtain ⟨cs, hunnamed, hcalls⟩ := exists_calls hlexemes hnone h.no_name
  have hlegible := legible_of_calls sub _ (Nat.lt_succ_self _) hcalls hunnamed
  exact ⟨cs, hlegible, (outline_mentions hlegible 0).trans (hcalls.mentions hunnamed).symm⟩

theorem WellFormed.backward_items (h : part.WellFormed) (sub : Bool) :
    Mention.Backward 0 ((part.items sub).filterMap Item.mention?) := by
  obtain ⟨cs, -, hmentions⟩ := h.exists_legible sub
  rw [hmentions]
  exact h.backward

theorem At.initial {s : Script} {base : Nat} {whole : List Item} :
    s.At base whole base 0 whole :=
  ⟨[], rfl, rfl, rfl⟩

theorem Reached.initial {s : Script} {moved : Nat → Nat} (ledger : Ledger) :
    s.Reached moved ledger ledger.groupCount [] where
  count := rfl
  became _ hk := absurd hk (Nat.not_lt_zero _)
  pos _ hk := absurd hk (Nat.not_lt_zero _)
  named _ hk := absurd hk (Nat.not_lt_zero _)

theorem sound_script (h : part.WellFormed) (prior : Nat) :
    (part.script prior).Sound (pieces part.pattern false) where
  callable := h.callable
  target_pos _ _ _ hn := Nat.add_pos_left hn prior
  insertion _ _ hmem := absurd rfl (part.plain_pieces _ hmem _ _)

theorem inserts_script (part : Part) (prior : Nat) :
    (part.script prior).Inserts (fun _ => []) (· + prior) prior (part.items false) where
  own _ := rfl
  places pre _ _ _ := by
    show opened pre + 1 + prior = prior + opened pre + 1
    omega
  target _ _ _ _ := rfl
  insertion _ _ _ _ hresolves := by
    cases hresolves
    rfl

/-- **A part that is put behind other groups** refers to its own groups still. -/
theorem WellFormed.items_bits (h : part.WellFormed) (hdistinct : Distinct ledger is)
    (hresolves : Resolves ledger (callsOf (part.bits ledger.groupCount)) is) :
    is = (part.items false).map (Item.shifted ledger.groupCount) := by
  have hitems := (inserts_script part ledger.groupCount).items_bits (o := []) At.initial
    (h.backward_items false) (Reached.initial ledger) hdistinct hresolves
  rw [hitems]
  exact inserted_shifted _ _ (not_inserts _ part.plain_pieces 0) _

/-- What is written for a part is a text with calls, before a closing parenthesis. -/
theorem WellFormed.calls_bits (h : part.WellFormed) (hhead : part.pattern.head? ≠ some '?')
    (prior : Nat) {rest : Text} {ms : List Call} (hrest : Calls .pattern (')' :: rest) ms) :
    Calls .pattern (writeBits (part.bits prior) ++ ')' :: rest) (callsOf (part.bits prior) ++ ms) ∧
      (writeBits (part.bits prior) ++ ')' :: rest).head? ≠ some '?' := by
  obtain ⟨cs, hlegible, -⟩ := h.exists_legible false
  have hend : ∀ c, (')' :: rest).head? = some c → c = ')' := fun c hc => (Option.some.inj hc).symm
  refine ⟨Script.calls_bits hlegible prior [] (sound_script h prior) (List.forall_mem_nil _) hend hrest,
    fun hquestion => ?_⟩
  rcases Script.head?_bits hlegible hend hquestion with hd | hd
  · exact hhead (head?_pieces hd)
  · exact absurd hd (by decide)

end Parts

/-! ## 5. Outer patterns -/

section Outer

variable {is : List Item}

theorem sound_outerScript (h : outer.WellFormed)
    (hparts : ∀ p ∈ parts, p.2.WellFormed ∧ p.2.pattern.head? ≠ some '?') :
    (outer.outerScript parts).Sound (pieces outer.pattern true) where
  callable := h.callable
  target_pos o n ho hn := by
    obtain ⟨k, rfl⟩ := Nat.exists_eq_succ_of_ne_zero (Nat.pos_iff_ne_zero.1 hn)
    show 0 < (o.reverse[k]?).getD (k + 1)
    cases hk : o.reverse[k]? with
    | none => exact Nat.succ_pos k
    | some m => exact ho m (List.mem_reverse.1 (List.mem_of_getElem? hk))
  insertion name _ _ prior rest ms hrest := by
    have hinsertion : (outer.outerScript parts).insertion prior name =
        ((parts.lookup name).map fun part => part.bits prior).getD [] := rfl
    rw [hinsertion]
    cases hpart : parts.lookup name with
    | none => exact ⟨hrest, by simp [writeBits]⟩
    | some part =>
      obtain ⟨hpart, hhead⟩ := hparts _ (mem_of_lookup_eq_some hpart)
      exact hpart.calls_bits hhead prior hrest

theorem inserts_outerScript (outer : Part) (hparts : ∀ p ∈ parts, p.2.WellFormed) :
    (outer.outerScript parts).Inserts (itemsOf parts)
      (place (fun name => opened (itemsOf parts name)) (outer.items true)) 0 (outer.items true) := by
  have hown : (outer.outerScript parts).own = fun name => opened (itemsOf parts name) := by
    funext name
    show ((parts.lookup name).map Part.groups).getD 0 =
      opened (((parts.lookup name).map fun part => part.items false).getD [])
    cases parts.lookup name with
    | none => rfl
    | some part => exact part.opened_items.symm
  refine ⟨fun name => congrFun hown name, fun pre name post hwhole => ?_, fun o n hn hfound => ?_,
    fun name ledger is hdistinct hresolves => ?_⟩
  · rw [hwhole, place_append, hown, Nat.zero_add]
  · obtain ⟨k, rfl⟩ := Nat.exists_eq_succ_of_ne_zero (Nat.pos_iff_ne_zero.1 hn)
    exact congrArg (Option.getD · (k + 1)) hfound
  · change Resolves ledger
      (callsOf (((parts.lookup name).map fun part => part.bits ledger.groupCount).getD [])) is at hresolves
    unfold itemsOf
    cases hpart : parts.lookup name with
    | none =>
      rw [hpart] at hresolves
      cases hresolves
      rfl
    | some part =>
      rw [hpart] at hresolves
      exact (hparts _ (mem_of_lookup_eq_some hpart)).items_bits hdistinct hresolves

/-- **What is put together** is a text with calls, and they come to the outer pattern with its
subpatterns put in, if no two groups have the same name. -/
theorem calls_assemble {t : Text} (h : outer.WellFormed)
    (hparts : ∀ p ∈ parts, p.2.WellFormed ∧ p.2.pattern.head? ≠ some '?')
    (ht : assemble outer parts = .ok t) : ∃ cs, Calls .pattern t cs ∧
      ∀ is, Resolves .empty cs is → Distinct .empty is → is = composed outer parts := by
  obtain ⟨ds, hlegible, -⟩ := h.exists_legible true
  have hcalls : Calls .pattern
      (writeBits ((outer.outerScript parts).bits 0 [] (pieces outer.pattern true)) ++ [])
      (callsOf ((outer.outerScript parts).bits 0 [] (pieces outer.pattern true)) ++ []) :=
    Script.calls_bits hlegible 0 [] (sound_outerScript h hparts)
      (fun _ hm => absurd hm List.not_mem_nil) nofun .nil
  rw [List.append_nil, List.append_nil, ← (assemble_eq_ok ht).1] at hcalls
  refine ⟨_, hcalls, fun is hresolves hdistinct => ?_⟩
  exact (inserts_outerScript outer fun p hp => (hparts p hp).1).items_bits (o := []) At.initial
    (h.backward_items true) (Reached.initial .empty) hdistinct hresolves

end Outer

end Part

end ExtensibleRegex
