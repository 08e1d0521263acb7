import ExtensibleRegex.Native.Engine
import Mathlib.Tactic

/-!
# The groups of a match

A match has one slot for each group that its pattern opens. This file follows the numbers of the
groups from the lexemes to the slots:

* a pass over lexemes opens one group for each lexeme that captures, and its tree holds only groups
  that have opened (`Progress.Numbered.readAll`);
* such a tree sets only those groups, wherever it is run (`Node.run_keeps`);
* so a match has a slot for each (`length_groupSpans`), and one more group that is never set adds
  one empty slot (`groupSpans_succ`).
-/

namespace ExtensibleRegex.Native

/-! ## 1. The groups of a tree -/

/-- The groups of a tree have numbers from `1` to `n`. -/
def Node.GroupsWithin (n : Nat) : Node → Prop
  | .seq a b => a.GroupsWithin n ∧ b.GroupsWithin n
  | .alt a b => a.GroupsWithin n ∧ b.GroupsWithin n
  | .group i body => (1 ≤ i ∧ i ≤ n) ∧ body.GroupsWithin n
  | .look _ _ body => body.GroupsWithin n
  | .loop body _ _ _ _ => body.GroupsWithin n
  | _ => True

theorem Node.GroupsWithin.mono {n m : Nat} (hnm : n ≤ m) {node : Node}
    (h : node.GroupsWithin n) : node.GroupsWithin m := by
  induction node with
  | seq a b iha ihb => exact ⟨iha h.1, ihb h.2⟩
  | alt a b iha ihb => exact ⟨iha h.1, ihb h.2⟩
  | group i body ih => exact ⟨⟨h.1.1, h.1.2.trans hnm⟩, ih h.2⟩
  | look behind negated body ih => exact ih h
  | loop body min max greedy groups ih => exact ih h
  | _ => trivial

theorem Node.groupsWithin_seqOf {n : Nat} : ∀ (ns : List Node),
    (∀ a ∈ ns, a.GroupsWithin n) → (Node.seqOf ns).GroupsWithin n
  | [], _ => trivial
  | a :: ns, h =>
      ⟨h a List.mem_cons_self,
        groupsWithin_seqOf ns fun b hb => h b (List.mem_cons_of_mem _ hb)⟩

theorem Node.groupsWithin_altOfReversed {n : Nat} {ns : List Node}
    (h : ∀ a ∈ ns, a.GroupsWithin n) : (Node.altOfReversed ns).GroupsWithin n := by
  cases ns with
  | nil => trivial
  | cons last earlier =>
    have key : ∀ (ns : List Node) (rest : Node), rest.GroupsWithin n →
        (∀ a ∈ ns, a.GroupsWithin n) →
        (ns.foldl (fun rest a => Node.alt a rest) rest).GroupsWithin n := by
      intro ns
      induction ns with
      | nil => intro rest hr _; exact hr
      | cons a ns ih =>
        intro rest hr hns
        exact ih _ ⟨hns a List.mem_cons_self, hr⟩ fun b hb => hns b (List.mem_cons_of_mem _ hb)
    exact key earlier last (h last List.mem_cons_self)
      fun a ha => h a (List.mem_cons_of_mem _ ha)

/-! ## 2. The groups of a pass -/

/-- What had been read around an open group holds groups from `1` to `n`, and so does the group
itself. -/
structure Frame.GroupsWithin (n : Nat) (f : Frame) : Prop where
  group_le : f.group ≤ n
  one_le : ∀ name, f.kind = .capture name → 1 ≤ f.group
  alternatives : ∀ a ∈ f.alternatives, a.GroupsWithin n
  terms : ∀ t ∈ f.terms, t.node.GroupsWithin n

/-- Everything read so far holds only groups that have opened. -/
structure Progress.Numbered (p : Progress) : Prop where
  alternatives : ∀ a ∈ p.alternatives, a.GroupsWithin p.groups
  terms : ∀ t ∈ p.terms, t.node.GroupsWithin p.groups
  frames : ∀ f ∈ p.frames, f.GroupsWithin p.groups

theorem Frame.GroupsWithin.mono {n m : Nat} (hnm : n ≤ m) {f : Frame} (h : f.GroupsWithin n) :
    f.GroupsWithin m where
  group_le := h.group_le.trans hnm
  one_le := h.one_le
  alternatives a ha := (h.alternatives a ha).mono hnm
  terms t ht := (h.terms t ht).mono hnm

theorem captureNames_append (ls ms : List Lexeme) :
    captureNames (ls ++ ms) = captureNames ls ++ captureNames ms := List.filterMap_append

theorem captureNames_cons (l : Lexeme) (ls : List Lexeme) :
    captureNames (l :: ls) = captureNames [l] ++ captureNames ls := by
  rw [← List.singleton_append, captureNames, List.filterMap_append]
  rfl

namespace Progress

theorem numbered_initial (modes : Modes) : (initial modes).Numbered :=
  ⟨by simp [initial], by simp [initial], by simp [initial]⟩

variable {p : Progress}

theorem Numbered.push (h : p.Numbered) {node : Node} (hn : node.GroupsWithin p.groups)
    (repeatable : Bool) : (p.push node repeatable).Numbered where
  alternatives := h.alternatives
  terms := by
    intro t ht
    rcases List.mem_cons.1 ht with rfl | ht
    · exact hn
    · exact h.terms t ht
  frames := h.frames

theorem Numbered.literal (h : p.Numbered) (n : Nat) : (p.literal n).Numbered :=
  h.push (by trivial) true

theorem Numbered.current (h : p.Numbered) : p.current.GroupsWithin p.groups := by
  refine Node.groupsWithin_seqOf _ fun a ha => ?_
  obtain ⟨t, ht, rfl⟩ := List.mem_map.1 ha
  exact h.terms t (List.mem_reverse.1 ht)

theorem Numbered.body (h : p.Numbered) : p.body.GroupsWithin p.groups := by
  refine Node.groupsWithin_altOfReversed fun a ha => ?_
  rcases List.mem_cons.1 ha with rfl | ha
  · exact h.current
  · exact h.alternatives a ha

theorem Numbered.bar (h : p.Numbered) : p.bar.Numbered where
  alternatives := by
    intro a ha
    rcases List.mem_cons.1 ha with rfl | ha
    · exact h.current
    · exact h.alternatives a ha
  terms := by simp [Progress.bar]
  frames := h.frames

theorem le_groups_openGroup (p : Progress) (kind : Opening) :
    p.groups ≤ (p.openGroup kind).groups := by
  cases kind <;> simp [openGroup]

theorem Numbered.openGroup (h : p.Numbered) (kind : Opening) : (p.openGroup kind).Numbered where
  alternatives := by simp [Progress.openGroup]
  terms := by simp [Progress.openGroup]
  frames := by
    have hle := le_groups_openGroup p kind
    intro f hf
    rcases List.mem_cons.1 hf with rfl | hf
    · exact {
        group_le := Nat.le_refl _
        one_le := by rintro name rfl; simp
        alternatives := fun a ha => (h.alternatives a ha).mono hle
        terms := fun t ht => (h.terms t ht).mono hle }
    · exact (h.frames f hf).mono hle

theorem Numbered.closeGroup (h : p.Numbered) {strict : Bool} {q : Progress}
    (hq : p.closeGroup? strict = some q) : q.Numbered ∧ q.groups = p.groups := by
  unfold closeGroup? at hq
  split at hq
  · cases hq
  · rename_i f frames hf
    have hframe : f.GroupsWithin p.groups := h.frames f (by simp [hf])
    have hrest : ∀ g ∈ frames, g.GroupsWithin p.groups := fun g hg => h.frames g (by simp [hf, hg])
    have hbody := h.body
    simp only [Option.some.injEq] at hq
    subst hq
    refine ⟨⟨hframe.alternatives, ?_, hrest⟩, rfl⟩
    intro t ht
    rcases List.mem_cons.1 ht with rfl | ht
    · cases hk : f.kind with
      | capture name => exact ⟨⟨hframe.one_le name hk, hframe.group_le⟩, hbody⟩
      | plain add remove => exact hbody
      | look behind negated => exact hbody
    · exact hframe.terms t ht

theorem Numbered.repeatLast (h : p.Numbered) {min : Nat} {max : Option Nat} {greedy : Bool}
    {q : Progress} (hq : p.repeatLast? min max greedy = some q) :
    q.Numbered ∧ q.groups = p.groups := by
  unfold repeatLast? at hq
  split at hq
  · cases hq
  · rename_i t terms ht
    split at hq
    · cases hq
      refine ⟨⟨h.alternatives, ?_, h.frames⟩, rfl⟩
      intro u hu
      rcases List.mem_cons.1 hu with rfl | hu
      · exact h.terms t (by simp [ht])
      · exact h.terms u (by simp [ht, hu])
    · cases hq

theorem Numbered.literals (h : p.Numbered) (ds : Text) :
    (ds.foldl (fun p d => p.literal d.toNat) p).Numbered ∧
      (ds.foldl (fun p d => p.literal d.toNat) p).groups = p.groups := by
  induction ds generalizing p with
  | nil => exact ⟨h, rfl⟩
  | cons d ds ih => exact ih (h.literal d.toNat)

theorem Numbered.decimal (h : p.Numbered) {g : Grammar} {digits : Text} {q : Progress}
    (hq : decimal? g p digits = some q) : q.Numbered ∧ q.groups = p.groups := by
  unfold decimal? at hq
  simp only at hq
  split at hq
  · cases hq
    exact ⟨h.push (by trivial) true, rfl⟩
  · split at hq
    · cases hq
    · split at hq
      · cases hq
        exact ⟨h, rfl⟩
      · cases hq
        exact (h.literal _).literals _

/-- **A lexeme adds no group but those it opens**, and keeps the groups of the pass in order. -/
theorem Numbered.read (h : p.Numbered) {g : Grammar} {l : Lexeme} {q : Progress}
    (hq : p.read? g l = some q) :
    q.Numbered ∧ q.groups = p.groups + (captureNames [l]).length := by
  cases l with
  | literal n => cases hq; exact ⟨h.literal n, rfl⟩
  | any => cases hq; exact ⟨h.push (by trivial) true, rfl⟩
  | set negated members => cases hq; exact ⟨h.push (by trivial) true, rfl⟩
  | lineStart => cases hq; exact ⟨h.push (by trivial) false, rfl⟩
  | lineEnd => cases hq; exact ⟨h.push (by trivial) false, rfl⟩
  | boundary negated => cases hq; exact ⟨h.push (by trivial) true, rfl⟩
  | decimal digits => exact h.decimal hq
  | namedRef name =>
    unfold read? at hq
    simp only at hq
    split at hq
    · cases hq
      exact ⟨h.push (by trivial) true, rfl⟩
    · cases hq
  | opening kind =>
    cases hq
    exact ⟨h.openGroup kind, by cases kind <;> rfl⟩
  | close => exact h.closeGroup hq
  | bar => cases hq; exact ⟨h.bar, rfl⟩
  | quantifier min max greedy => exact h.repeatLast hq

/-- A pass has opened as many groups as the lexemes that it has read. -/
theorem Numbered.readAll {g : Grammar} : ∀ {ls : List Lexeme} {p q : Progress}, p.Numbered →
    readAll? g p ls = some q → q.Numbered ∧ q.groups = p.groups + (captureNames ls).length
  | [], _, _, h, hq => by
      cases hq
      exact ⟨h, rfl⟩
  | l :: ls, p, q, h, hq => by
      unfold readAll? at hq
      split at hq
      · rename_i r hr
        obtain ⟨h1, h2⟩ := h.read hr
        obtain ⟨h3, h4⟩ := h1.readAll hq
        refine ⟨h3, ?_⟩
        rw [h4, h2, captureNames_cons l ls, List.length_append, Nat.add_assoc]
      · cases hq

end Progress

/-! ## 3. Whole patterns -/

/-- How a well-formed pattern is read: its lexemes, and how far the pass has come after them. -/
structure Program.Reads (source : Text) (mode : Mode) (ls : List Lexeme) (p : Progress) :
    Prop where
  lexed : lexemes? mode.unicode source = some ls
  few : (captureNames ls).length ≤ maxGroups
  distinct : distinctNames (captureNames ls) = true
  read : Progress.readAll? ⟨mode.unicode, captureNames ls⟩
    (.initial ⟨mode.ignoreCase, mode.multiline, false⟩) ls = some p
  closed : p.frames = []

/-- A pattern is well-formed if it is cut into lexemes, its names are in order, the pass reads
every lexeme and no group stays open. -/
theorem Program.ofSource?_eq_some_iff {source : Text} {mode : Mode} {program : Program} :
    Program.ofSource? source mode = some program ↔
      ∃ ls p, Program.Reads source mode ls p ∧
        program = ⟨p.body, (captureNames ls).length⟩ := by
  constructor
  · intro h
    simp only [ofSource?, Option.bind_eq_bind, Option.bind_eq_some_iff] at h
    obtain ⟨ls, hls, h⟩ := h
    split at h
    · rename_i hnames
      simp only [Option.bind_eq_some_iff] at h
      obtain ⟨p, hp, node, hnode, h⟩ := h
      cases h
      unfold Progress.finish? at hnode
      split at hnode
      · rename_i hframes
        cases hnode
        exact ⟨ls, p, ⟨hls, hnames.1, hnames.2, hp, hframes⟩, rfl⟩
      · cases hnode
    · cases h
  · rintro ⟨ls, p, h, rfl⟩
    simp only [ofSource?, h.lexed, Option.bind_eq_bind, Option.bind_some, h.few, h.distinct,
      and_self, if_true, h.read, Progress.finish?, h.closed]
    rfl

/-- A pattern read to the end has a group for each lexeme that captures. -/
theorem Program.Reads.numbered {source : Text} {mode : Mode} {ls : List Lexeme} {p : Progress}
    (h : Program.Reads source mode ls p) :
    p.Numbered ∧ p.groups = (captureNames ls).length := by
  have hread := (Progress.numbered_initial _).readAll h.read
  exact ⟨hread.1, by rw [hread.2]; exact Nat.zero_add _⟩

/-! ## 4. The groups of a run -/

/-- A track has set only groups from `1` to `n`. -/
def Track.GroupsWithin (n : Nat) (t : Track) : Prop := ∀ g ∈ t.groups, 1 ≤ g.1 ∧ g.1 ≤ n

/-- What a continuation answers for a track with groups from `1` to `n` is such a track. -/
def Keeps (n : Nat) (k : Continuation) : Prop :=
  ∀ t, t.GroupsWithin n → ∀ u, k t = some u → u.GroupsWithin n

theorem Track.GroupsWithin.forget {n : Nat} {t : Track} (h : t.GroupsWithin n) (r : GroupRange) :
    (t.forget r).GroupsWithin n := by
  unfold Track.forget
  split
  · exact h
  · intro g hg
    exact h g (List.mem_filter.1 hg).1

theorem Track.GroupsWithin.record {n i : Nat} {t : Track} (h : t.GroupsWithin n)
    (hi : 1 ≤ i ∧ i ≤ n) (s : Span) : (t.record i s).GroupsWithin n := by
  intro g hg
  rcases List.mem_cons.1 hg with rfl | hg
  · exact hi
  · exact h g hg

theorem keeps_requiredRounds {n : Nat} {round : Continuation → Continuation}
    (hround : ∀ k, Keeps n k → Keeps n (round k)) {k : Continuation} (hk : Keeps n k) :
    ∀ m, Keeps n (requiredRounds round k m)
  | 0 => hk
  | m + 1 => hround _ (keeps_requiredRounds hround hk m)

theorem keeps_optionalRounds {n : Nat} {round : Continuation → Continuation}
    (hround : ∀ k, Keeps n k → Keeps n (round k)) (greedy : Bool) {k : Continuation}
    (hk : Keeps n k) : ∀ left max, Keeps n (optionalRounds round greedy k left max)
  | [], _ => hk
  | c :: left, max => by
      intro t ht u hu
      have hnext : Keeps n fun u => if u.place.index = t.place.index then none
          else optionalRounds round greedy k left (max.map (· - 1)) u := by
        intro v hv w hw
        simp only at hw
        split at hw
        · cases hw
        · exact keeps_optionalRounds hround greedy hk left _ v hv w hw
      unfold optionalRounds at hu
      split at hu
      · exact hk t ht u hu
      · split at hu
        · split at hu
          · rename_i hr
            cases hu
            exact hround _ hnext t ht _ hr
          · exact hk t ht u hu
        · split at hu
          · rename_i hr
            cases hu
            exact hk t ht _ hr
          · exact hround _ hnext t ht u hu

theorem readGroup_groups {d : Direction} {g : Nat} {ignoreCase : Bool} {t u : Track}
    (h : readGroup d g ignoreCase t = some u) : u.groups = t.groups := by
  unfold readGroup at h
  split at h
  · cases h; rfl
  · simp only at h
    split at h <;> cases h
    rfl

theorem Atom.step_groups {a : Atom} {d : Direction} {t u : Track} (h : a.step d t = some u) :
    u.groups = t.groups := by
  unfold Atom.step at h
  split at h
  · split at h <;> cases h
    rfl
  · cases h

/-- **A tree whose groups have numbers from `1` to `n` sets only those.** -/
theorem Node.run_keeps {n : Nat} (node : Node) (h : node.GroupsWithin n) (d : Direction)
    (k : Continuation) (hk : Keeps n k) : Keeps n (node.run d k) := by
  induction node generalizing d k with
  | empty => exact hk
  | atom a =>
    intro t ht u hu
    simp only [run] at hu
    split at hu
    · rename_i v hv
      exact hk v (by rw [Track.GroupsWithin, Atom.step_groups hv]; exact ht) u hu
    · cases hu
  | start lines =>
    intro t ht u hu
    simp only [run] at hu
    split at hu
    · exact hk t ht u hu
    · cases hu
  | stop lines =>
    intro t ht u hu
    simp only [run] at hu
    split at hu
    · exact hk t ht u hu
    · cases hu
  | boundary negated =>
    intro t ht u hu
    simp only [run] at hu
    split at hu
    · exact hk t ht u hu
    · cases hu
  | backref g ignoreCase =>
    intro t ht u hu
    simp only [run] at hu
    split at hu
    · rename_i v hv
      exact hk v (by rw [Track.GroupsWithin, readGroup_groups hv]; exact ht) u hu
    · cases hu
  | seq a b iha ihb =>
    intro t ht u hu
    cases d with
    | forward =>
      rw [run_seq_forward] at hu
      exact iha h.1 .forward _ (ihb h.2 .forward k hk) t ht u hu
    | backward =>
      rw [run_seq_backward] at hu
      exact ihb h.2 .backward _ (iha h.1 .backward k hk) t ht u hu
  | alt a b iha ihb =>
    intro t ht u hu
    simp only [run] at hu
    split at hu
    · rename_i v hv
      cases hu
      exact iha h.1 d k hk t ht _ hv
    · exact ihb h.2 d k hk t ht u hu
  | group i body ih =>
    intro t ht u hu
    exact ih h.2 d _ (fun v hv w hw => hk _ (hv.record h.1 _) w hw) t ht u hu
  | look behind negated body ih =>
    intro t ht u hu
    simp only [run] at hu
    split at hu
    · rename_i v hv
      have hvn := ih h _ some (fun w hw x hx => by cases hx; exact hw) t ht v hv
      split at hu
      · cases hu
      · exact hk ⟨t.place, v.groups⟩ hvn u hu
    · split at hu
      · exact hk t ht u hu
      · cases hu
  | loop body min max greedy groups ih =>
    have hround : ∀ k, Keeps n k → Keeps n fun u => body.run d k (u.forget groups) :=
      fun k hk v hv w hw => ih h d k hk _ (hv.forget groups) w hw
    exact fun t ht u hu => keeps_requiredRounds hround
      (fun v hv w hw => keeps_optionalRounds hround greedy hk _ _ v hv w hw) min t ht u hu

/-! ## 5. The groups of a match -/

/-- The slots of a match, set one after another. -/
def slotsOf (count : Nat) (groups : List (Nat × Span)) : List (Option Span) :=
  groups.foldr (fun g slots => slots.set (g.1 - 1) (some g.2)) (List.replicate count none)

theorem groupSpans_eq_slotsOf (count : Nat) (groups : List (Nat × Span)) :
    groupSpans count groups = slotsOf count groups := by
  unfold groupSpans slotsOf
  induction groups with
  | nil => simp
  | cons g groups ih => rw [List.foldr_cons, List.foldr_cons, Array.toList_setIfInBounds, ih]

theorem length_slotsOf (count : Nat) (groups : List (Nat × Span)) :
    (slotsOf count groups).length = count := by
  induction groups with
  | nil => simp [slotsOf]
  | cons g groups ih => rw [slotsOf, List.foldr_cons, List.length_set]; exact ih

/-- A match has a slot for each group of its pattern. -/
theorem length_groupSpans (count : Nat) (groups : List (Nat × Span)) :
    (groupSpans count groups).length = count := by
  rw [groupSpans_eq_slotsOf, length_slotsOf]

/-- One more group that is not set has one more empty slot. -/
theorem groupSpans_succ {n : Nat} {groups : List (Nat × Span)}
    (h : ∀ g ∈ groups, 1 ≤ g.1 ∧ g.1 ≤ n) :
    groupSpans (n + 1) groups = groupSpans n groups ++ [none] := by
  rw [groupSpans_eq_slotsOf, groupSpans_eq_slotsOf]
  induction groups with
  | nil => exact List.replicate_succ'
  | cons g groups ih =>
    have hg := h g List.mem_cons_self
    have ih := ih fun g hg => h g (List.mem_cons_of_mem _ hg)
    have hlt : g.1 - 1 < (slotsOf n groups).length := by rw [length_slotsOf]; omega
    calc slotsOf (n + 1) (g :: groups)
        = (slotsOf (n + 1) groups).set (g.1 - 1) (some g.2) := rfl
      _ = (slotsOf n groups ++ [none]).set (g.1 - 1) (some g.2) := by rw [ih]
      _ = slotsOf n (g :: groups) ++ [none] := List.set_append_left _ _ hlt

/-- The group set last has the last slot. -/
theorem getLast?_groupSpans_record (n : Nat) (s : Span) (groups : List (Nat × Span)) :
    (groupSpans (n + 1) ((n + 1, s) :: groups)).getLast? = some (some s) := by
  have hlen := length_slotsOf (n + 1) groups
  have hset : slotsOf (n + 1) ((n + 1, s) :: groups) = (slotsOf (n + 1) groups).set n (some s) := rfl
  rw [groupSpans_eq_slotsOf, List.getLast?_eq_getElem?, length_slotsOf, hset, Nat.add_sub_cancel,
    List.getElem?_set_self (by omega)]

end ExtensibleRegex.Native
