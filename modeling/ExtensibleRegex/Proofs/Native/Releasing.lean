import ExtensibleRegex.Proofs.Native.Shifting
import Mathlib.Tactic

/-!
# Groups that are given up

A group that nothing refers to may as well not capture. This file says so for all such groups of a
pattern at once: `keep` tells which groups stay, and those are numbered anew (`rank`).

* Two trees are related by `Node.Releases` when the second has the groups of the first that are kept,
  and no group where the first has another; references are to groups that are kept.
* Such trees take the same ways, apart from the groups given up (`Node.Releases.paths`), so they end
  at the same places.
* The lexemes of a pattern, with what opens the other groups exchanged and the numbers set to the new
  ones (`Lexeme.released`), are read as such a tree (`Progress.Releases.readAll?`).
-/

namespace ExtensibleRegex.Native

/-! ## 1. New numbers -/

section Rank

variable (keep : Nat → Bool)

/-- How many of the groups up to a number are kept: the new number of a group that is. -/
def rank : Nat → Nat
  | 0 => 0
  | n + 1 => rank n + if keep (n + 1) = true then 1 else 0

variable {keep}

theorem rank_mono {m n : Nat} (h : m ≤ n) : rank keep m ≤ rank keep n := by
  induction h with
  | refl => exact Nat.le_refl _
  | step _ ih => exact ih.trans (Nat.le_add_right _ _)

theorem rank_lt {m n : Nat} (h : m < n) (hn : keep n = true) : rank keep m < rank keep n := by
  obtain ⟨k, rfl⟩ := Nat.exists_eq_add_of_lt h
  have hle : rank keep m ≤ rank keep (m + k) := rank_mono (Nat.le_add_right m k)
  show rank keep m < rank keep (m + k) + _
  rw [if_pos hn]
  exact Nat.lt_succ_of_le hle

theorem rank_pos {n : Nat} (h : 0 < n) (hn : keep n = true) : 0 < rank keep n := rank_lt h hn

/-- Groups that are kept have different new numbers. -/
theorem rank_inj {m n : Nat} (hm : keep m = true) (hn : keep n = true) :
    rank keep m = rank keep n ↔ m = n := by
  constructor
  · intro h
    rcases Nat.lt_trichotomy m n with hlt | heq | hlt
    · exact absurd h (Nat.ne_of_lt (rank_lt hlt hn))
    · exact heq
    · exact absurd h.symm (Nat.ne_of_lt (rank_lt hlt hm))
  · intro h
    rw [h]

end Rank

/-- The groups that are kept of a range. -/
def GroupRange.kept (keep : Nat → Bool) (r : GroupRange) : GroupRange where
  first := rank keep r.first
  count := rank keep (r.first + r.count) - rank keep r.first

/-- The track without the groups that are given up. -/
def Track.release (keep : Nat → Bool) (t : Track) : Track where
  place := t.place
  groups := t.groups.filterMap fun g => if keep g.1 = true then some (rank keep g.1, g.2) else none

section Tracks

variable {keep : Nat → Bool}

theorem GroupRange.holds_kept {group : Nat} (h : keep group = true) (r : GroupRange) :
    (r.kept keep).holds (rank keep group) = r.holds group := by
  have hle {m : Nat} (hm : group ≤ m) : rank keep group ≤ rank keep m := rank_mono hm
  have hlt {m : Nat} (hm : m < group) : rank keep m < rank keep group := rank_lt hm h
  have hrange : rank keep r.first ≤ rank keep (r.first + r.count) := rank_mono (Nat.le_add_right _ _)
  have hfirst : rank keep r.first < rank keep group ↔ r.first < group := by
    refine ⟨fun hrank => ?_, hlt⟩
    by_contra hnot
    have := hle (Nat.le_of_not_lt hnot)
    omega
  have hlast : rank keep group ≤ rank keep (r.first + r.count) ↔ group ≤ r.first + r.count := by
    refine ⟨fun hrank => ?_, hle⟩
    by_contra hnot
    have := hlt (Nat.lt_of_not_le hnot)
    omega
  unfold GroupRange.holds GroupRange.kept
  rw [Bool.eq_iff_iff]
  simp only [Bool.and_eq_true, decide_eq_true_eq, Nat.add_sub_cancel' hrange, hfirst, hlast]

/-- Unsetting the groups of a range leaves those that do not lie in it. -/
theorem Track.groups_forget (t : Track) (r : GroupRange) :
    t.forget r = { t with groups := t.groups.filter fun g => !r.holds g.1 } := by
  unfold forget
  split
  · rename_i hcount
    have hnone (g : Nat × Span) : (!r.holds g.1) = true := by
      simp only [GroupRange.holds, hcount, Bool.not_eq_true', Bool.and_eq_false_iff,
        decide_eq_false_iff_not]
      omega
    rw [List.filter_eq_self.2 fun g _ => hnone g]
  · rfl

theorem Track.release_forget (t : Track) (r : GroupRange) :
    (t.release keep).forget (r.kept keep) = (t.forget r).release keep := by
  rw [groups_forget, groups_forget]
  unfold release
  rw [List.filter_filterMap, List.filterMap_filter]
  congr 2
  funext g
  by_cases hkeep : keep g.1 = true
  · simp only [hkeep, if_true, Option.filter_some, GroupRange.holds_kept hkeep]
  · simp [hkeep]

theorem Track.release_record_of_keep {group : Nat} (h : keep group = true) (t : Track) (s : Span) :
    (t.release keep).record (rank keep group) s = (t.record group s).release keep := by
  simp [release, record, h]

theorem Track.release_record_of_not_keep {group : Nat} (h : keep group = false) (t : Track)
    (s : Span) : t.release keep = (t.record group s).release keep := by
  simp [release, record, h]

theorem Track.lookup_release {group : Nat} (h : keep group = true) (t : Track) :
    (t.release keep).groups.lookup (rank keep group) = t.groups.lookup group := by
  unfold release
  induction t.groups with
  | nil => rfl
  | cons g groups ih =>
    obtain ⟨i, s⟩ := g
    by_cases hi : keep i = true
    · have heq : (rank keep group == rank keep i) = (group == i) := by
        rw [Bool.eq_iff_iff, beq_iff_eq, beq_iff_eq, rank_inj h hi]
      simp only [List.filterMap_cons, hi, if_true, List.lookup_cons, heq, ih]
    · have hne : (group == i) = false := by
        rw [beq_eq_false_iff_ne]
        rintro rfl
        exact hi h
      simp only [List.filterMap_cons, hi, Bool.false_eq_true, if_false, List.lookup_cons, hne, ih]

end Tracks

/-! ## 2. Trees -/

/-- A tree, and the same tree without the groups that are given up. -/
inductive Node.Releases (keep : Nat → Bool) : Node → Node → Prop where
  | empty : Releases keep .empty .empty
  | atom (a : Atom) : Releases keep (.atom a) (.atom a)
  | start (lines : Bool) : Releases keep (.start lines) (.start lines)
  | stop (lines : Bool) : Releases keep (.stop lines) (.stop lines)
  | boundary (negated : Bool) : Releases keep (.boundary negated) (.boundary negated)
  | backref {g : Nat} (kept : keep g = true) (ignoreCase : Bool) :
      Releases keep (.backref g ignoreCase) (.backref (rank keep g) ignoreCase)
  | seq {a a' b b' : Node} (first : Releases keep a a') (second : Releases keep b b') :
      Releases keep (.seq a b) (.seq a' b')
  | alt {a a' b b' : Node} (first : Releases keep a a') (second : Releases keep b b') :
      Releases keep (.alt a b) (.alt a' b')
  | group {i : Nat} {body body' : Node} (kept : keep i = true) (inner : Releases keep body body') :
      Releases keep (.group i body) (.group (rank keep i) body')
  | released {i : Nat} {body body' : Node} (not_kept : keep i = false)
      (inner : Releases keep body body') : Releases keep (.group i body) body'
  | look (behind negated : Bool) {body body' : Node} (inner : Releases keep body body') :
      Releases keep (.look behind negated body) (.look behind negated body')
  | loop {body body' : Node} (min : Nat) (max : Option Nat) (greedy : Bool) (groups : GroupRange)
      (inner : Releases keep body body') :
      Releases keep (.loop body min max greedy groups) (.loop body' min max greedy (groups.kept keep))

section Trees

variable {keep : Nat → Bool} {n n' : Node}

/-- **A tree takes the same ways without groups that nothing refers to.** -/
theorem Node.Releases.paths (h : n.Releases keep n') (d : Direction) (t : Track) :
    n'.paths d (t.release keep) = (n.paths d t).map (Track.release keep) := by
  have hplace (t : Track) : (t.release keep).place = t.place := rfl
  have hgroups (t : Track) (p : Place) :
      Track.release keep { t with place := p } = { t.release keep with place := p } := rfl
  induction h generalizing d t with
  | empty => rfl
  | atom a =>
    rw [Node.paths, Node.paths, Atom.step_map hplace hgroups]
    cases a.step d t <;> rfl
  | start lines =>
    rw [Node.paths, Node.paths, hplace]
    split <;> rfl
  | stop lines =>
    rw [Node.paths, Node.paths, hplace]
    split <;> rfl
  | boundary negated =>
    rw [Node.paths, Node.paths, hplace]
    split <;> rfl
  | @backref g kept ignoreCase =>
    rw [Node.paths, Node.paths, readGroup_map hplace hgroups (Track.lookup_release kept t)]
    cases readGroup d g ignoreCase t <;> rfl
  | seq _ _ iha ihb =>
    cases d with
    | forward =>
      rw [Node.paths, Node.paths, iha, List.flatMap_map, List.map_flatMap]
      exact congrArg (List.flatMap · _) (funext fun u => ihb .forward u)
    | backward =>
      rw [Node.paths, Node.paths, ihb, List.flatMap_map, List.map_flatMap]
      exact congrArg (List.flatMap · _) (funext fun u => iha .backward u)
  | alt _ _ iha ihb => rw [Node.paths, Node.paths, iha, ihb, List.map_append]
  | group kept _ ih =>
    rw [Node.paths, Node.paths, ih, List.map_map, List.map_map]
    refine congrArg (List.map · _) (funext fun u => ?_)
    exact Track.release_record_of_keep kept u _
  | released not_kept _ ih =>
    rw [Node.paths, ih, List.map_map]
    refine congrArg (List.map · _) (funext fun u => ?_)
    exact Track.release_record_of_not_keep not_kept u _
  | look behind negated _ ih =>
    rw [Node.paths, Node.paths, ih, List.head?_map]
    cases (Node.paths _ (if behind then Direction.backward else .forward) t).head? with
    | none => cases negated <;> rfl
    | some u => cases negated <;> rfl
  | loop min max greedy groups _ ih =>
    refine Node.paths_loop_map hplace (fun t => ?_) min max greedy t
    rw [Track.release_forget]
    exact ih d _

/-- **Such trees end at the same places.** -/
theorem Node.Releases.ends_eq (h : n.Releases keep n') (place : Place) : n'.ends place = n.ends place := by
  have hpaths := h.paths .forward ⟨place, []⟩
  unfold Node.ends
  rw [show Track.release keep ⟨place, []⟩ = ⟨place, []⟩ from rfl] at hpaths
  rw [hpaths, List.map_map]
  rfl

theorem Node.releases_seqOf {ns ns' : List Node} (h : List.Forall₂ (Releases keep) ns ns') :
    (seqOf ns).Releases keep (seqOf ns') := by
  induction h with
  | nil => exact .empty
  | cons hn _ ih => exact .seq hn ih

theorem Node.releases_altOfReversed {ns ns' : List Node} (h : List.Forall₂ (Releases keep) ns ns') :
    (altOfReversed ns).Releases keep (altOfReversed ns') := by
  cases h with
  | nil => exact .empty
  | @cons last last' earlier earlier' hlast hearlier =>
    unfold altOfReversed
    induction hearlier generalizing last last' with
    | nil => exact hlast
    | cons hn _ ih => exact ih (.alt hn hlast)

end Trees

/-! ## 3. Reading -/

/-- What opens as a group, when the group is given up unless it is `kept`. -/
def Opening.released (kept : Bool) : Opening → Opening
  | .capture name => if kept then .capture name else .plain [] []
  | kind => kind

/-- A lexeme of a pattern whose groups are given up but for those to keep, when `opened` groups have
opened before it. -/
def Lexeme.released (keep : Nat → Bool) (opened : Nat) : Lexeme → Lexeme
  | .opening kind => .opening (kind.released (keep (opened + 1)))
  | .decimal digits => .decimal (decimalText (rank keep (readDigits 10 digits)))
  | l => l

/-- The lexemes of a pattern whose groups are given up but for those to keep. -/
def releasedFrom (keep : Nat → Bool) : (opened : Nat) → List Lexeme → List Lexeme
  | _, [] => []
  | opened, l :: ls =>
    l.released keep opened :: releasedFrom keep (opened + (captureNames [l]).length) ls

/-- A lexeme that refers, if at all, by the number of one of `count` groups, and to one that is
kept. -/
structure Lexeme.Refers (keep : Nat → Bool) (count : Nat) (l : Lexeme) : Prop where
  no_name : ∀ name, l ≠ .namedRef name
  kept : ∀ digits, l = .decimal digits →
    readDigits 10 digits ≤ count ∧ keep (readDigits 10 digits) = true

/-- Terms that are read alike. -/
structure Term.Releases (keep : Nat → Bool) (t t' : Term) : Prop where
  node : t.node.Releases keep t'.node
  repeatable : t'.repeatable = t.repeatable
  before : t'.before = rank keep t.before

/-- Open groups that are read alike. -/
structure Frame.Releases (keep : Nat → Bool) (f f' : Frame) : Prop where
  kind : f'.kind = f.kind.released (keep f.group)
  group : f'.group = rank keep f.group
  before : f'.before = rank keep f.before
  modes : f'.modes = f.modes
  alternatives : List.Forall₂ (Node.Releases keep) f.alternatives f'.alternatives
  terms : List.Forall₂ (Term.Releases keep) f.terms f'.terms

/-- Passes that have read the same, the second one without the groups that are given up. -/
structure Progress.Releases (keep : Nat → Bool) (p p' : Progress) : Prop where
  groups : p'.groups = rank keep p.groups
  modes : p'.modes = p.modes
  alternatives : List.Forall₂ (Node.Releases keep) p.alternatives p'.alternatives
  terms : List.Forall₂ (Term.Releases keep) p.terms p'.terms
  frames : List.Forall₂ (Frame.Releases keep) p.frames p'.frames

namespace Progress

variable {keep : Nat → Bool} {p p' : Progress}

theorem releases_initial (modes : Modes) : (initial modes).Releases keep (initial modes) :=
  ⟨rfl, rfl, .nil, .nil, .nil⟩

theorem Releases.push (h : p.Releases keep p') {n n' : Node} (hn : n.Releases keep n')
    (repeatable : Bool) : (p.push n repeatable).Releases keep (p'.push n' repeatable) :=
  ⟨h.groups, h.modes, h.alternatives, .cons ⟨hn, rfl, h.groups⟩ h.terms, h.frames⟩

theorem Releases.current (h : p.Releases keep p') : p.current.Releases keep p'.current := by
  refine Node.releases_seqOf ?_
  rw [List.forall₂_map_left_iff, List.forall₂_map_right_iff]
  exact (List.forall₂_reverse_iff.2 h.terms).imp fun _ _ ht => ht.node

theorem Releases.body (h : p.Releases keep p') : p.body.Releases keep p'.body :=
  Node.releases_altOfReversed (.cons h.current h.alternatives)

theorem Releases.bar (h : p.Releases keep p') : p.bar.Releases keep p'.bar :=
  ⟨h.groups, h.modes, .cons h.current h.alternatives, .nil, h.frames⟩

theorem Releases.openGroup (h : p.Releases keep p') (kind : Opening) :
    (p.openGroup kind).Releases keep (p'.openGroup (kind.released (keep (p.groups + 1)))) := by
  have hframe {f f' : Frame} (hkind : f'.kind = f.kind.released (keep f.group))
      (hgroup : f'.group = rank keep f.group) (hf : f = ⟨f.kind, f.group, p.groups, p.modes,
        p.alternatives, p.terms⟩) (hf' : f' = ⟨f'.kind, f'.group, p'.groups, p'.modes,
        p'.alternatives, p'.terms⟩) : f.Releases keep f' := by
    rw [hf, hf']
    exact ⟨hkind, hgroup, h.groups, h.modes, h.alternatives, h.terms⟩
  cases kind with
  | plain add remove =>
    exact ⟨h.groups, congrArg (Modes.modify · add remove) h.modes, .nil, .nil,
      .cons (hframe rfl h.groups rfl rfl) h.frames⟩
  | look behind negated =>
    exact ⟨h.groups, h.modes, .nil, .nil, .cons (hframe rfl h.groups rfl rfl) h.frames⟩
  | capture name =>
    by_cases hkeep : keep (p.groups + 1) = true
    · have hnext : p'.groups + 1 = rank keep (p.groups + 1) := by
        rw [h.groups, rank, if_pos hkeep]
      simp only [Opening.released, hkeep, if_true]
      exact ⟨hnext, h.modes, .nil, .nil,
        .cons (hframe (by simp [Opening.released, hkeep]) hnext rfl rfl) h.frames⟩
    · have hnext : p'.groups = rank keep (p.groups + 1) := by
        rw [h.groups, rank, if_neg hkeep, Nat.add_zero]
      have hmodes : p'.modes.modify [] [] = p.modes := by simp [Modes.modify, h.modes]
      simp only [Opening.released, hkeep, if_false, Bool.false_eq_true]
      exact ⟨hnext, hmodes, .nil, .nil,
        .cons (hframe (by simp [Opening.released, hkeep]) hnext rfl rfl) h.frames⟩

theorem Releases.closeGroup? (h : p.Releases keep p') (strict : Bool) :
    Option.Rel (Releases keep) (p.closeGroup? strict) (p'.closeGroup? strict) := by
  have hbody := h.body
  have hframes := h.frames
  unfold Progress.closeGroup?
  generalize p.frames = fs at hframes
  generalize p'.frames = fs' at hframes
  cases hframes with
  | nil => exact .none
  | @cons f f' frames frames' hf hrest =>
    have hclosed {n n' : Node} (hn : n.Releases keep n') (repeatable : Bool) :
        Releases keep ⟨p.groups, f.modes, f.alternatives, ⟨n, repeatable, f.before⟩ :: f.terms, frames⟩
          ⟨p'.groups, f'.modes, f'.alternatives, ⟨n', repeatable, f'.before⟩ :: f'.terms, frames'⟩ :=
      ⟨h.groups, hf.modes, hf.alternatives, .cons ⟨hn, rfl, hf.before⟩ hf.terms, hrest⟩
    simp only [hf.kind, hf.group]
    cases hkind : f.kind with
    | plain add remove => exact .some (hclosed hbody true)
    | look behind negated => exact .some (hclosed (.look behind negated hbody) _)
    | capture name =>
      by_cases hkeep : keep f.group = true
      · simp only [Opening.released, hkeep, if_true]
        exact .some (hclosed (.group hkeep hbody) true)
      · rw [Bool.not_eq_true] at hkeep
        simp only [Opening.released, hkeep, if_false, Bool.false_eq_true]
        exact .some (hclosed (.released hkeep hbody) true)

theorem Releases.repeatLast? (h : p.Releases keep p') (min : Nat) (max : Option Nat) (greedy : Bool) :
    Option.Rel (Releases keep) (p.repeatLast? min max greedy) (p'.repeatLast? min max greedy) := by
  have hterms := h.terms
  unfold Progress.repeatLast?
  generalize p.terms = ts at hterms
  generalize p'.terms = ts' at hterms
  cases hterms with
  | nil => exact .none
  | @cons t t' terms terms' ht hrest =>
    have hrange : (⟨t'.before, p'.groups - t'.before⟩ : GroupRange) =
        GroupRange.kept keep ⟨t.before, p.groups - t.before⟩ := by
      have hcount : rank keep (t.before + (p.groups - t.before)) - rank keep t.before =
          rank keep p.groups - rank keep t.before := by
        rcases Nat.le_total t.before p.groups with hle | hle
        · rw [Nat.add_sub_cancel' hle]
        · have hmono : rank keep p.groups ≤ rank keep t.before := rank_mono hle
          rw [Nat.sub_eq_zero_of_le hle, Nat.add_zero, Nat.sub_self, Nat.sub_eq_zero_of_le hmono]
      rw [GroupRange.kept, hcount, ht.before, h.groups]
    simp only [ht.repeatable]
    cases t.repeatable with
    | false => exact .none
    | true =>
      refine .some ⟨h.groups, h.modes, h.alternatives, .cons ⟨?_, rfl, ht.before⟩ hrest, h.frames⟩
      rw [hrange]
      exact .loop min max greedy _ ht.node

variable {g g' : Grammar}

/-- **A lexeme is read without the groups that are given up as it is with them.** -/
theorem Releases.read? (h : p.Releases keep p') (hstrict : g'.strict = g.strict)
    (hnames : rank keep g.names.length ≤ g'.names.length) {l : Lexeme}
    (hl : l.Refers keep g.names.length) :
    Option.Rel (Releases keep) (p.read? g l) (p'.read? g' (l.released keep p.groups)) := by
  cases l with
  | namedRef name => exact absurd rfl (hl.no_name name)
  | decimal digits =>
    obtain ⟨hle, hkeep⟩ := hl.kept digits rfl
    have hle' : rank keep (readDigits 10 digits) ≤ g'.names.length := (rank_mono hle).trans hnames
    have hread : p.read? g (.decimal digits) =
        some (p.push (.backref (readDigits 10 digits) p.modes.ignoreCase) true) := if_pos hle
    have hread' : p'.read? g' (Lexeme.released keep p.groups (.decimal digits)) =
        some (p'.push (.backref (rank keep (readDigits 10 digits)) p'.modes.ignoreCase) true) := by
      show decimal? g' p' (decimalText (rank keep (readDigits 10 digits))) = _
      unfold decimal?
      rw [readDigits_decimalText]
      exact if_pos hle'
    rw [hread, hread', h.modes]
    exact .some (h.push (.backref hkeep _) true)
  | opening kind => exact .some (h.openGroup kind)
  | close =>
    show Option.Rel _ (p.closeGroup? g.strict) (p'.closeGroup? g'.strict)
    rw [hstrict]
    exact h.closeGroup? g.strict
  | bar => exact .some h.bar
  | quantifier min max greedy => exact h.repeatLast? min max greedy
  | literal n =>
    show Option.Rel _ (some (p.literal n)) (some (p'.literal n))
    unfold Progress.literal
    rw [h.modes]
    exact .some (h.push (.atom _) true)
  | any =>
    unfold Progress.read?
    simp only [Lexeme.released, h.modes]
    exact .some (h.push (.atom _) true)
  | set negated members =>
    unfold Progress.read?
    simp only [Lexeme.released, h.modes]
    exact .some (h.push (.atom _) true)
  | lineStart =>
    unfold Progress.read?
    simp only [Lexeme.released, h.modes]
    exact .some (h.push (.start _) false)
  | lineEnd =>
    unfold Progress.read?
    simp only [Lexeme.released, h.modes]
    exact .some (h.push (.stop _) false)
  | boundary negated => exact .some (h.push (.boundary negated) true)

/-- **So are all lexemes of a pattern.** -/
theorem Releases.readAll? (hstrict : g'.strict = g.strict)
    (hnames : rank keep g.names.length ≤ g'.names.length) : ∀ {ls : List Lexeme} {p p' : Progress},
    p.Releases keep p' → p.Numbered → (∀ l ∈ ls, l.Refers keep g.names.length) →
    Option.Rel (Releases keep) (Progress.readAll? g p ls)
      (Progress.readAll? g' p' (releasedFrom keep p.groups ls))
  | [], _, _, h, _, _ => .some h
  | l :: ls, p, p', h, hnumbered, hls => by
      have hstep := h.read? hstrict hnames (hls l List.mem_cons_self)
      simp only [releasedFrom, Progress.readAll?]
      cases hl : p.read? g l with
      | none =>
        rw [hl] at hstep
        generalize p'.read? g' (l.released keep p.groups) = y at hstep
        cases hstep
        exact .none
      | some q =>
        obtain ⟨hq, hgroups⟩ := hnumbered.read hl
        rw [hl] at hstep
        generalize p'.read? g' (l.released keep p.groups) = y at hstep
        cases hstep with
        | some hqq' =>
          rw [← hgroups]
          exact Releases.readAll? hstrict hnames hqq' hq fun m hm => hls m (List.mem_cons_of_mem l hm)

/-- Nothing is read as a reference by name in a pattern that names no group. -/
theorem ne_namedRef_of_readAll? {g : Grammar} (hnames : ∀ name ∈ g.names, name = none) :
    ∀ {ls : List Lexeme} {p q : Progress}, Progress.readAll? g p ls = some q →
    ∀ l ∈ ls, ∀ name, l ≠ .namedRef name
  | [], _, _, _, _, hl, _ => absurd hl List.not_mem_nil
  | m :: ls, p, q, h, l, hl, name => by
      simp only [Progress.readAll?] at h
      cases hm : p.read? g m with
      | none => rw [hm] at h; cases h
      | some r =>
        rw [hm] at h
        rcases List.mem_cons.1 hl with rfl | hl
        · rintro rfl
          have hnone : g.names.findIdx? (· == some name) = none := by
            rw [List.findIdx?_eq_none_iff]
            intro other hother
            rw [hnames other hother]
            rfl
          simp [Progress.read?, hnone] at hm
        · exact ne_namedRef_of_readAll? hnames h l hl name

end Progress

/-! ## 4. Matches -/

theorem length_captureNames_releasedFrom (keep : Nat → Bool) : ∀ (opened : Nat) (ls : List Lexeme),
    rank keep opened + (captureNames (releasedFrom keep opened ls)).length =
      rank keep (opened + (captureNames ls).length)
  | _, [] => rfl
  | opened, l :: ls => by
      have ih := length_captureNames_releasedFrom keep
        (opened + (captureNames [l]).length) ls
      have hone : rank keep opened + (captureNames [l.released keep opened]).length =
          rank keep (opened + (captureNames [l]).length) := by
        cases l with
        | opening kind =>
          cases kind with
          | capture name =>
            show _ = rank keep (opened + 1)
            by_cases hkeep : keep (opened + 1) = true
            · simp [Lexeme.released, Opening.released, hkeep, captureNames, rank]
            · simp [Lexeme.released, Opening.released, hkeep, captureNames, rank]
          | plain add remove => rfl
          | look behind negated => rfl
        | _ => rfl
      rw [releasedFrom, captureNames_cons (l.released keep opened), List.length_append,
        ← Nat.add_assoc, hone, ih, Nat.add_assoc, ← List.length_append, ← captureNames_cons]

/-- Lexemes whose numbers are those of groups. -/
def InRange (ls : List Lexeme) : Prop :=
  ∀ digits, .decimal digits ∈ ls → readDigits 10 digits ≤ (captureNames ls).length

theorem inRange_of_refers {keep : Nat → Bool} {ls : List Lexeme}
    (h : ∀ l ∈ ls, l.Refers keep (captureNames ls).length) : InRange ls :=
  fun digits hdigits => ((h _ hdigits).kept digits rfl).1

theorem decimal_of_mem_releasedFrom {keep : Nat → Bool} {digits : Text} :
    ∀ {opened : Nat} {ls : List Lexeme}, .decimal digits ∈ releasedFrom keep opened ls →
    ∃ ds, .decimal ds ∈ ls ∧ digits = decimalText (rank keep (readDigits 10 ds))
  | _, [], h => absurd h List.not_mem_nil
  | opened, l :: ls, h => by
      rcases List.mem_cons.1 h with h | h
      · cases l with
        | decimal ds => exact ⟨ds, List.mem_cons_self, Lexeme.decimal.inj h⟩
        | _ => cases h
      · obtain ⟨ds, hds, hdigits⟩ := decimal_of_mem_releasedFrom h
        exact ⟨ds, List.mem_cons_of_mem l hds, hdigits⟩

/-- Numbers that are set anew are those of groups again. -/
theorem inRange_releasedFrom {keep : Nat → Bool} {ls : List Lexeme} (h : InRange ls) :
    InRange (releasedFrom keep 0 ls) := by
  intro digits hdigits
  obtain ⟨ds, hds, rfl⟩ := decimal_of_mem_releasedFrom hdigits
  have hlength := length_captureNames_releasedFrom keep 0 ls
  rw [Nat.zero_add, show rank keep 0 = 0 from rfl, Nat.zero_add] at hlength
  rw [readDigits_decimalText, hlength]
  exact rank_mono (h ds hds)

namespace Program

variable {p p' : Program}

/-- **A pattern ends at the same places without groups that nothing refers to.** -/
theorem ends_released {keep : Nat → Bool} {mode : Mode} {source source' : Text} {ls : List Lexeme}
    (h : Program.ofSource? source mode = some p) (hls : lexemes? mode.unicode source = some ls)
    (h' : Program.ofSource? source' mode = some p')
    (hls' : lexemes? mode.unicode source' = some (releasedFrom keep 0 ls))
    (hrefers : ∀ l ∈ ls, l.Refers keep (captureNames ls).length) (place : Place) :
    p'.node.ends place = p.node.ends place := by
  obtain ⟨ms, q, hq, rfl⟩ := Program.ofSource?_eq_some_iff.1 h
  obtain ⟨ms', q', hq', rfl⟩ := Program.ofSource?_eq_some_iff.1 h'
  obtain rfl := Option.some.inj (hq.lexed.symm.trans hls)
  obtain rfl := Option.some.inj (hq'.lexed.symm.trans hls')
  have hnames : rank keep (captureNames ms).length ≤
      (captureNames (releasedFrom keep 0 ms)).length := by
    have hlength := length_captureNames_releasedFrom keep 0 ms
    rw [Nat.zero_add] at hlength
    rw [← hlength]
    exact Nat.le_of_eq (Nat.zero_add _)
  have hstrict : (⟨mode.unicode, captureNames (releasedFrom keep 0 ms)⟩ : Grammar).strict =
      (⟨mode.unicode, captureNames ms⟩ : Grammar).strict := rfl
  have hread := Progress.Releases.readAll? hstrict hnames
    (Progress.releases_initial ⟨mode.ignoreCase, mode.multiline, false⟩)
    (Progress.numbered_initial _) hrefers
  have hq'read : Progress.readAll? ⟨mode.unicode, captureNames (releasedFrom keep 0 ms)⟩
      (.initial ⟨mode.ignoreCase, mode.multiline, false⟩)
      (releasedFrom keep (Progress.initial ⟨mode.ignoreCase, mode.multiline, false⟩).groups ms) =
      some q' := hq'.read
  rw [hq.read, hq'read] at hread
  cases hread with
  | some hqq' => exact hqq'.body.ends_eq place

/-- Programs that end at the same places match the same stretches. -/
theorem whole_matchAt?_congr (h : ∀ place, p'.node.ends place = p.node.ends place) (place : Place) :
    (p'.matchAt? place).map Found.whole = (p.matchAt? place).map Found.whole := by
  rw [whole_matchAt?, whole_matchAt?, h]

/-- **So they find the same stretches**, wherever they search. -/
theorem whole_search?_congr (h : ∀ place, p'.node.ends place = p.node.ends place) (place : Place) :
    (p'.search? place).map Found.whole = (p.search? place).map Found.whole := by
  have hfrom : ∀ (left : Text) (place : Place), (p'.searchFrom left place).map Found.whole =
      (p.searchFrom left place).map Found.whole := by
    intro left
    induction left with
    | nil => exact whole_matchAt?_congr h
    | cons c left ih =>
      intro place
      have hmatch := whole_matchAt?_congr h place
      unfold searchFrom
      cases hp : p.matchAt? place with
      | some f =>
        rw [hp] at hmatch
        obtain ⟨f', hp', hwhole⟩ := Option.map_eq_some_iff.1 hmatch
        rw [hp']
        exact congrArg some hwhole
      | none =>
        rw [hp, Option.map_none, Option.map_eq_none_iff] at hmatch
        rw [hmatch]
        simp only
        cases place.next? with
        | none => rfl
        | some next => exact ih next.2
  exact hfrom _ place

end Program

end ExtensibleRegex.Native
