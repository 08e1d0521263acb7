import ExtensibleRegex.Proofs.Text.Stretches
import ExtensibleRegex.Regex.Search
import Mathlib.Tactic

/-!
# The ways through a tree

A run tries the ways through a tree one after another and answers the first one that what follows
accepts. This file lists the ways (`Node.paths`), in the order in which they are tried, and shows that
a run is a search in that list (`Node.run_eq_findSome?`). What holds of every way holds of a match
then. Every way leads on in the text, in the direction in which it is read, and sets groups to spans of
the text (`Node.leads_of_mem_paths`), so that a match is a stretch of the text ahead
(`Regex.stretch_of_searchAt?`).
-/

namespace ExtensibleRegex.Native

/-! ## 1. Ways -/

/-- The ways through the rounds that a loop has to take. -/
def requiredPaths (round : Track → List Track) : Nat → Track → List Track
  | 0, t => [t]
  | n + 1, t => (round t).flatMap (requiredPaths round n)

/-- The ways through the rounds that a loop may take. -/
def optionalPaths (round : Track → List Track) (greedy : Bool) :
    Text → Option Nat → Track → List Track
  | [], _, t => [t]
  | _ :: left, max, t =>
    let further := (round t).flatMap fun u =>
      if u.place.index = t.place.index then []
      else optionalPaths round greedy left (max.map (· - 1)) u
    if max = some 0 then [t] else if greedy then further ++ [t] else t :: further

/-- The ways through a tree, in the order in which they are tried. -/
def Node.paths : Node → Direction → Track → List Track
  | .empty, _, t => [t]
  | .atom a, d, t => (a.step d t).toList
  | .start lines, _, t => if atStart lines t.place then [t] else []
  | .stop lines, _, t => if atStop lines t.place then [t] else []
  | .boundary negated, _, t => if atBoundary t.place != negated then [t] else []
  | .backref g ignoreCase, d, t => (readGroup d g ignoreCase t).toList
  | .seq a b, .forward, t => (a.paths .forward t).flatMap (b.paths .forward)
  | .seq a b, .backward, t => (b.paths .backward t).flatMap (a.paths .backward)
  | .alt a b, d, t => a.paths d t ++ b.paths d t
  | .group i body, d, t => (body.paths d t).map fun u => u.record i (d.span t.place u.place)
  | .look behind negated body, _, t =>
    match (body.paths (if behind then .backward else .forward) t).head? with
    | some u => if negated then [] else [{ t with groups := u.groups }]
    | none => if negated then [t] else []
  | .loop body min max greedy groups, d, t =>
    (requiredPaths (fun u => body.paths d (u.forget groups)) min t).flatMap fun u =>
      optionalPaths (fun u => body.paths d (u.forget groups)) greedy (d.remaining u.place)
        (max.map (· - min)) u

theorem findSome?_flatMap {α β γ : Type} (f : α → List β) (k : β → Option γ) : ∀ l : List α,
    (l.flatMap f).findSome? k = l.findSome? fun a => (f a).findSome? k
  | [] => rfl
  | a :: l => by
      rw [List.flatMap_cons, List.findSome?_append, findSome?_flatMap f k l, List.findSome?_cons]
      cases (f a).findSome? k <;> rfl

theorem findSome?_toList {α β : Type} (o : Option α) (k : α → Option β) :
    o.toList.findSome? k = o.bind k := by
  cases o with
  | none => rfl
  | some a =>
    show (match k a with | some b => some b | none => none) = k a
    cases k a <;> rfl

theorem findSome?_singleton {α β : Type} (a : α) (k : α → Option β) : [a].findSome? k = k a :=
  findSome?_toList (some a) k

/-- The first way of all. -/
theorem findSome?_some {α : Type} : ∀ l : List α, l.findSome? some = l.head?
  | [] => rfl
  | _ :: _ => rfl

theorem requiredRounds_eq {round : Continuation → Continuation} {ways : Track → List Track}
    (h : ∀ k t, round k t = (ways t).findSome? k) (k : Continuation) : ∀ (n : Nat) (t : Track),
    requiredRounds round k n t = (requiredPaths ways n t).findSome? k
  | 0, t => (findSome?_singleton t k).symm
  | n + 1, t => by
      rw [requiredRounds, requiredPaths, h, findSome?_flatMap]
      exact congrArg (List.findSome? · (ways t)) (funext (requiredRounds_eq h k n))

theorem optionalRounds_eq {round : Continuation → Continuation} {ways : Track → List Track}
    (h : ∀ k t, round k t = (ways t).findSome? k) (greedy : Bool) (k : Continuation) :
    ∀ (left : Text) (max : Option Nat) (t : Track),
    optionalRounds round greedy k left max t = (optionalPaths ways greedy left max t).findSome? k
  | [], _, t => (findSome?_singleton t k).symm
  | _ :: left, max, t => by
      have hfurther : (round (fun u => if u.place.index = t.place.index then none
          else optionalRounds round greedy k left (max.map (· - 1)) u) t) =
          ((ways t).flatMap fun u => if u.place.index = t.place.index then []
            else optionalPaths ways greedy left (max.map (· - 1)) u).findSome? k := by
        rw [h, findSome?_flatMap]
        refine congrArg (List.findSome? · (ways t)) (funext fun u => ?_)
        by_cases hu : u.place.index = t.place.index
        · rw [if_pos hu, if_pos hu]
          rfl
        · rw [if_neg hu, if_neg hu]
          exact optionalRounds_eq h greedy k left _ u
      unfold optionalRounds optionalPaths
      rw [hfurther]
      by_cases hmax : max = some 0
      · rw [if_pos hmax, if_pos hmax, findSome?_singleton]
      rw [if_neg hmax, if_neg hmax]
      cases greedy with
      | true =>
        rw [if_pos rfl, if_pos rfl, List.findSome?_append, findSome?_singleton]
        cases List.findSome? k _ <;> rfl
      | false =>
        rw [if_neg Bool.false_ne_true, if_neg Bool.false_ne_true, List.findSome?_cons]
        cases k t <;> rfl

/-- **A run answers the first way that what follows accepts.** -/
theorem Node.run_eq_findSome? (node : Node) (d : Direction) (k : Continuation) (t : Track) :
    node.run d k t = (node.paths d t).findSome? k := by
  induction node generalizing d k t with
  | empty => exact (findSome?_singleton t k).symm
  | atom a =>
    rw [run, paths, findSome?_toList]
    cases a.step d t <;> rfl
  | start lines =>
    rw [run, paths]
    split
    · exact (findSome?_singleton t k).symm
    · rfl
  | stop lines =>
    rw [run, paths]
    split
    · exact (findSome?_singleton t k).symm
    · rfl
  | boundary negated =>
    rw [run, paths]
    split
    · exact (findSome?_singleton t k).symm
    · rfl
  | backref g ignoreCase =>
    rw [run, paths, findSome?_toList]
    cases readGroup d g ignoreCase t <;> rfl
  | seq a b iha ihb =>
    cases d with
    | forward =>
      rw [run_seq_forward, paths, iha, findSome?_flatMap]
      exact congrArg (List.findSome? · _) (funext fun u => ihb .forward k u)
    | backward =>
      rw [run_seq_backward, paths, ihb, findSome?_flatMap]
      exact congrArg (List.findSome? · _) (funext fun u => iha .backward k u)
  | alt a b iha ihb =>
    rw [run, paths, iha, ihb, List.findSome?_append]
    cases List.findSome? k (a.paths d t) <;> rfl
  | group i body ih =>
    rw [run, paths, ih, List.findSome?_map]
    rfl
  | look behind negated body ih =>
    rw [run, paths, ih, findSome?_some]
    cases (body.paths (if behind then .backward else .forward) t).head? with
    | some u => cases negated <;> simp
    | none => cases negated <;> simp
  | loop body min max greedy groups ih =>
    have hround (k : Continuation) (t : Track) : (fun u => body.run d k (u.forget groups)) t =
        (body.paths d (t.forget groups)).findSome? k := ih d k _
    rw [run, paths, requiredRounds_eq hround, findSome?_flatMap]
    exact congrArg (List.findSome? · _) (funext fun u => optionalRounds_eq hround greedy k _ _ u)

/-! ## 2. Ways under another account of the groups -/

section Mapped

variable {f : Track → Track} (hplace : ∀ t, (f t).place = t.place)
  (hgroups : ∀ t p, f { t with place := p } = { f t with place := p })

include hplace hgroups in
/-- A character is read whatever the groups are. -/
theorem Atom.step_map (a : Atom) (d : Direction) (t : Track) :
    a.step d (f t) = (a.step d t).map f := by
  unfold Atom.step
  rw [hplace]
  cases d.next? t.place with
  | none => rfl
  | some next =>
    show (if a.admits next.1 then some { f t with place := next.2 } else none) =
      (if a.admits next.1 then some { t with place := next.2 } else none).map f
    rw [← hgroups t next.2]
    split <;> rfl

include hplace hgroups in
/-- A group is read back alike, if it has matched the same last. -/
theorem readGroup_map {g g' : Nat} {t : Track} (h : (f t).groups.lookup g' = t.groups.lookup g)
    (d : Direction) (ignoreCase : Bool) :
    readGroup d g' ignoreCase (f t) = (readGroup d g ignoreCase t).map f := by
  unfold readGroup
  rw [h]
  cases t.groups.lookup g with
  | none => rfl
  | some s =>
    simp only
    rw [hplace]
    cases readText d ignoreCase _ t.place with
    | none => rfl
    | some p => exact congrArg some (hgroups t p).symm

variable {round round' : Track → List Track} (h : ∀ t, round' (f t) = (round t).map f)

include h in
theorem requiredPaths_map : ∀ (n : Nat) (t : Track),
    requiredPaths round' n (f t) = (requiredPaths round n t).map f
  | 0, _ => rfl
  | n + 1, t => by
      rw [requiredPaths, requiredPaths, h, List.flatMap_map, List.map_flatMap]
      exact congrArg (List.flatMap · (round t)) (funext fun u => requiredPaths_map n u)

include hplace h in
theorem optionalPaths_map (greedy : Bool) : ∀ (left : Text) (max : Option Nat) (t : Track),
    optionalPaths round' greedy left max (f t) = (optionalPaths round greedy left max t).map f
  | [], _, _ => rfl
  | _ :: left, max, t => by
      have hfurther : ((round' (f t)).flatMap fun u =>
          if u.place.index = (f t).place.index then []
          else optionalPaths round' greedy left (max.map (· - 1)) u) =
          ((round t).flatMap fun u => if u.place.index = t.place.index then []
            else optionalPaths round greedy left (max.map (· - 1)) u).map f := by
        rw [h, List.flatMap_map, List.map_flatMap]
        refine congrArg (List.flatMap · (round t)) (funext fun u => ?_)
        rw [hplace, hplace]
        split
        · rfl
        · exact optionalPaths_map greedy left _ u
      unfold optionalPaths
      rw [hfurther]
      split
      · rfl
      split
      · rw [List.map_append]
        rfl
      · rfl

include hplace in
/-- A loop goes the same ways, if its rounds do. -/
theorem Node.paths_loop_map {body body' : Node} {groups groups' : GroupRange} {d : Direction}
    (hround : ∀ t, body'.paths d ((f t).forget groups') = (body.paths d (t.forget groups)).map f)
    (min : Nat) (max : Option Nat) (greedy : Bool) (t : Track) :
    (Node.loop body' min max greedy groups').paths d (f t) =
      ((Node.loop body min max greedy groups).paths d t).map f := by
  rw [paths, paths, requiredPaths_map hround, List.flatMap_map, List.map_flatMap]
  refine congrArg (List.flatMap · _) (funext fun u => ?_)
  rw [hplace]
  exact optionalPaths_map hplace hround greedy _ _ u

end Mapped

/-! ## 3. Ways lead on -/

/-- From one track to another, text is read in a direction, and groups are set to spans of the text. -/
structure Leads (d : Direction) (t u : Track) : Prop where
  reads : (d.span t.place u.place).LiesIn t.place.text
  groups : (∀ g ∈ t.groups, g.2.LiesIn t.place.text) → ∀ g ∈ u.groups, g.2.LiesIn t.place.text

namespace Leads

variable {d : Direction} {t u v : Track}

theorem text_eq (h : Leads d t u) : u.place.text = t.place.text := by
  cases d with
  | forward =>
    obtain ⟨-, w, hw⟩ := h.reads
    exact hw.text_eq
  | backward => exact h.reads.subject

/-- Where no group is set, only what is read matters. -/
theorem of_reads (h : (d.span t.place u.place).LiesIn t.place.text) (hgroups : u.groups = t.groups) :
    Leads d t u := ⟨h, fun ht => hgroups ▸ ht⟩

theorem refl (d : Direction) (t : Track) : Leads d t t := by
  refine of_reads ?_ rfl
  cases d <;> exact ⟨rfl, [], .refl _⟩

theorem trans (h : Leads d t u) (h' : Leads d u v) : Leads d t v where
  reads := by
    have htext := h.text_eq
    obtain ⟨-, w, hw⟩ := h.reads
    obtain ⟨hsubject, w', hw'⟩ := h'.reads
    cases d with
    | forward => exact ⟨rfl, _, hw.trans hw'⟩
    | backward => exact ⟨hsubject.trans htext, _, hw'.trans hw⟩
  groups ht := by
    have hrest := h'.groups
    rw [h.text_eq] at hrest
    exact hrest (h.groups ht)

theorem forget (d : Direction) (t : Track) (r : GroupRange) : Leads d t (t.forget r) := by
  unfold Track.forget
  split
  · exact refl d t
  · exact ⟨(refl d t).reads, fun ht g hg => ht g (List.mem_filter.1 hg).1⟩

/-- A group is set to what has been read. -/
theorem record (h : Leads d t u) (i : Nat) : Leads d t (u.record i (d.span t.place u.place)) where
  reads := h.reads
  groups ht g hg := by
    rcases List.mem_cons.1 hg with rfl | hg
    · exact h.reads
    · exact h.groups ht g hg

end Leads

/-- The next character in a direction is read. -/
theorem Direction.liesIn_of_next? {d : Direction} {p q : Place} {c : Char} (h : d.next? p = some (c, q)) :
    (d.span p q).LiesIn p.text := by
  cases d with
  | forward => exact ⟨rfl, _, Place.stretch_next h⟩
  | backward => exact ⟨(Place.stretch_prev h).text_eq.symm, _, Place.stretch_prev h⟩

theorem Atom.leads_of_step {a : Atom} {d : Direction} {t u : Track} (h : a.step d t = some u) :
    Leads d t u := by
  unfold Atom.step at h
  split at h
  · rename_i c p hp
    split at h <;> cases h
    exact .of_reads (Direction.liesIn_of_next? hp) rfl
  · cases h

theorem leads_of_readText {d : Direction} {ignoreCase : Bool} : ∀ {cs : Text} {t : Track} {q : Place},
    readText d ignoreCase cs t.place = some q → Leads d t { t with place := q }
  | [], t, q, h => by
      cases h
      exact .refl d t
  | c :: cs, t, q, h => by
      unfold readText at h
      split at h
      · rename_i x p' hp
        split at h
        · have hrest := @leads_of_readText d ignoreCase cs { t with place := p' } q h
          have hfirst : Leads d t { t with place := p' } :=
            .of_reads (Direction.liesIn_of_next? hp) rfl
          exact hfirst.trans hrest
        · cases h
      · cases h

theorem leads_of_readGroup {d : Direction} {g : Nat} {ignoreCase : Bool} {t u : Track}
    (h : readGroup d g ignoreCase t = some u) : Leads d t u := by
  unfold readGroup at h
  split at h
  · cases h
    exact .refl d t
  · simp only at h
    split at h
    · rename_i p hp
      cases h
      exact leads_of_readText hp
    · cases h

section Rounds

variable {R : Track → Track → Prop} (hrefl : ∀ t, R t t)
  (htrans : ∀ {t u v : Track}, R t u → R u v → R t v)
  {round : Track → List Track} (h : ∀ t, ∀ u ∈ round t, R t u)

include hrefl htrans h

/-- What every round of a loop keeps, the rounds that it has to take keep. -/
theorem related_of_mem_requiredPaths : ∀ {n : Nat} {t u : Track},
    u ∈ requiredPaths round n t → R t u
  | 0, t, u, hu => List.mem_singleton.1 hu ▸ hrefl t
  | n + 1, t, u, hu => by
      obtain ⟨v, hv, hu⟩ := List.mem_flatMap.1 hu
      exact htrans (h t v hv) (related_of_mem_requiredPaths hu)

/-- So do the rounds that it may take. -/
theorem related_of_mem_optionalPaths {greedy : Bool} : ∀ {left : Text} {max : Option Nat}
    {t u : Track}, u ∈ optionalPaths round greedy left max t → R t u
  | [], _, t, u, hu => List.mem_singleton.1 hu ▸ hrefl t
  | _ :: left, max, t, u, hu => by
      unfold optionalPaths at hu
      have hfurther (hu : u ∈ (round t).flatMap fun v => if v.place.index = t.place.index then []
          else optionalPaths round greedy left (max.map (· - 1)) v) : R t u := by
        obtain ⟨v, hv, hu⟩ := List.mem_flatMap.1 hu
        split at hu
        · cases hu
        · exact htrans (h t v hv) (related_of_mem_optionalPaths hu)
      split at hu
      · exact List.mem_singleton.1 hu ▸ hrefl t
      split at hu
      · rcases List.mem_append.1 hu with hu | hu
        · exact hfurther hu
        · exact List.mem_singleton.1 hu ▸ hrefl t
      · rcases List.mem_cons.1 hu with rfl | hu
        · exact hrefl u
        · exact hfurther hu

end Rounds

/-- What every round of a loop keeps, the loop keeps. -/
theorem Node.related_of_mem_loop {R : Track → Track → Prop} (hrefl : ∀ t, R t t)
    (htrans : ∀ {t u v : Track}, R t u → R u v → R t v) {body : Node} {d : Direction}
    {groups : GroupRange} (h : ∀ t, ∀ u ∈ body.paths d (t.forget groups), R t u) {min : Nat}
    {max : Option Nat} {greedy : Bool} {t u : Track}
    (hu : u ∈ (Node.loop body min max greedy groups).paths d t) : R t u := by
  obtain ⟨v, hv, hu⟩ := List.mem_flatMap.1 hu
  exact htrans (related_of_mem_requiredPaths hrefl htrans h hv)
    (related_of_mem_optionalPaths hrefl htrans h hu)

/-- **Every way through a tree leads on in the text**, and sets groups to spans of the text. -/
theorem Node.leads_of_mem_paths (node : Node) {d : Direction} {t u : Track} (h : u ∈ node.paths d t) :
    Leads d t u := by
  induction node generalizing d t u with
  | empty => exact List.mem_singleton.1 h ▸ .refl d t
  | atom a => exact Atom.leads_of_step (Option.mem_toList.1 h)
  | start lines =>
    rw [paths] at h
    split at h
    · exact List.mem_singleton.1 h ▸ .refl d t
    · cases h
  | stop lines =>
    rw [paths] at h
    split at h
    · exact List.mem_singleton.1 h ▸ .refl d t
    · cases h
  | boundary negated =>
    rw [paths] at h
    split at h
    · exact List.mem_singleton.1 h ▸ .refl d t
    · cases h
  | backref g ignoreCase => exact leads_of_readGroup (Option.mem_toList.1 h)
  | seq a b iha ihb =>
    cases d with
    | forward =>
      obtain ⟨v, hv, hu⟩ := List.mem_flatMap.1 h
      exact (iha hv).trans (ihb hu)
    | backward =>
      obtain ⟨v, hv, hu⟩ := List.mem_flatMap.1 h
      exact (ihb hv).trans (iha hu)
  | alt a b iha ihb =>
    rcases List.mem_append.1 h with h | h
    · exact iha h
    · exact ihb h
  | group i body ih =>
    obtain ⟨v, hv, rfl⟩ := List.mem_map.1 h
    exact (ih hv).record i
  | look behind negated body ih =>
    -- A lookaround reads nothing, wherever its body leads, but keeps the groups that the body sets.
    rw [paths] at h
    split at h
    · rename_i v hv
      split at h
      · cases h
      · obtain rfl := List.mem_singleton.1 h
        exact ⟨(Leads.refl d t).reads, (ih (List.mem_of_mem_head? hv)).groups⟩
    · split at h
      · exact List.mem_singleton.1 h ▸ .refl d t
      · cases h
  | loop body min max greedy groups ih =>
    exact related_of_mem_loop (.refl d) .trans (fun t u hu => (Leads.forget d t groups).trans (ih hu)) h

/-! ## 4. Matches -/

namespace Program

variable {p : Program} {place : Place} {f : Found}

/-- A match is the first way through the tree. -/
theorem matchAt?_eq_head? (p : Program) (place : Place) :
    p.matchAt? place = (p.node.paths .forward ⟨place, []⟩).head?.map fun t =>
      ⟨⟨place, t.place⟩, groupSpans p.groups t.groups⟩ := by
  unfold matchAt?
  rw [Node.run_eq_findSome?, findSome?_some]
  cases (p.node.paths .forward ⟨place, []⟩).head? <;> rfl

theorem stretch_of_matchAt? (h : p.matchAt? place = some f) :
    f.whole.start = place ∧ ∃ w, place.Stretch w f.whole.stop := by
  rw [matchAt?_eq_head?] at h
  obtain ⟨t, ht, rfl⟩ := Option.map_eq_some_iff.1 h
  exact ⟨rfl, (p.node.leads_of_mem_paths (List.mem_of_mem_head? ht)).reads.stretch⟩

theorem stretch_of_searchFrom : ∀ {left : Text} {place : Place} {f : Found},
    p.searchFrom left place = some f →
    (∃ v, place.Stretch v f.whole.start) ∧ ∃ w, f.whole.start.Stretch w f.whole.stop
  | [], place, f, h => by
      obtain ⟨rfl, hw⟩ := stretch_of_matchAt? h
      exact ⟨⟨[], .refl _⟩, hw⟩
  | _ :: left, place, f, h => by
      unfold searchFrom at h
      split at h
      · rename_i g hg
        cases h
        obtain ⟨rfl, hw⟩ := stretch_of_matchAt? hg
        exact ⟨⟨[], .refl _⟩, hw⟩
      · split at h
        · rename_i c q hq
          obtain ⟨⟨v, hv⟩, hw⟩ := stretch_of_searchFrom h
          exact ⟨⟨c :: v, (Place.stretch_next hq).trans hv⟩, hw⟩
        · cases h

/-- Searching tries one place after another, up to the end of the text. -/
theorem searchFrom_places : ∀ (left : Text) (place : Place), left.length = place.ahead.length →
    match p.searchFrom left place with
    | some f => ∃ n ≤ left.length, p.matchAt? (place.advance n) = some f ∧
        ∀ m < n, p.matchAt? (place.advance m) = none
    | none => ∀ n ≤ left.length, p.matchAt? (place.advance n) = none
  | [], place, _ => by
      unfold searchFrom
      cases hmatch : p.matchAt? place with
      | some f => exact ⟨0, Nat.le_refl _, hmatch, fun m hm => absurd hm (Nat.not_lt_zero m)⟩
      | none =>
        intro n hn
        rw [Nat.le_zero.1 hn]
        exact hmatch
  | c :: left, place, hlength => by
      unfold searchFrom
      cases hmatch : p.matchAt? place with
      | some f => exact ⟨0, Nat.zero_le _, hmatch, fun m hm => absurd hm (Nat.not_lt_zero m)⟩
      | none =>
        cases hnext : place.next? with
        | none =>
          have hend : place.ahead = [] := by
            simpa [Place.atEnd] using (Place.next?_eq_none_iff place).1 hnext
          rw [hend] at hlength
          cases hlength
        | some next =>
          obtain ⟨d, q⟩ := next
          have hq : left.length = q.ahead.length := by
            rw [(Place.next?_eq_some hnext).1, List.length_cons, List.length_cons] at hlength
            exact Nat.succ.inj hlength
          have hadvance (n : Nat) : place.advance (n + 1) = q.advance n :=
            Place.advance_succ_of_next? hnext n
          have ih := searchFrom_places left q hq
          show match p.searchFrom left q with | some f => _ | none => _
          cases hsearch : p.searchFrom left q with
          | some f =>
            rw [hsearch] at ih
            obtain ⟨n, hn, hf, hbefore⟩ := ih
            refine ⟨n + 1, Nat.succ_le_succ hn, by rw [hadvance]; exact hf, fun m hm => ?_⟩
            cases m with
            | zero => exact hmatch
            | succ m =>
              rw [hadvance]
              exact hbefore m (Nat.lt_of_succ_lt_succ hm)
          | none =>
            rw [hsearch] at ih
            intro n hn
            cases n with
            | zero => exact hmatch
            | succ n =>
              rw [hadvance]
              exact ih n (Nat.le_of_succ_le_succ hn)

/-- **A search answers the match at the first place that has one.** -/
theorem search?_eq_some (h : p.search? place = some f) : ∃ n ≤ place.ahead.length,
    p.matchAt? (place.advance n) = some f ∧ ∀ m < n, p.matchAt? (place.advance m) = none := by
  have hplaces := searchFrom_places (p := p) place.ahead place rfl
  rwa [show p.searchFrom place.ahead place = some f from h] at hplaces

/-- **A search fails where no place has a match.** -/
theorem search?_eq_none (h : p.search? place = none) :
    ∀ n ≤ place.ahead.length, p.matchAt? (place.advance n) = none := by
  have hplaces := searchFrom_places (p := p) place.ahead place rfl
  rwa [show p.searchFrom place.ahead place = none from h] at hplaces

theorem stretch_of_search? (h : p.search? place = some f) :
    (∃ v, place.Stretch v f.whole.start) ∧ ∃ w, f.whole.start.Stretch w f.whole.stop :=
  stretch_of_searchFrom h

end Program

theorem Engine.stretch_of_searchAt? {e : Engine} {p : Place} {f : Found}
    (h : e.searchAt? p = some f) :
    (∃ v, p.Stretch v f.whole.start) ∧ ∃ w, f.whole.start.Stretch w f.whole.stop := by
  unfold Engine.searchAt? at h
  split at h
  · split at h
    · rename_i g hg
      split at h
      · cases h
        exact Program.stretch_of_search? (f := g) hg
      · cases h
    · cases h
  · split at h
    · rename_i g hg
      split at h
      · cases h
        exact Program.stretch_of_search? hg
      · cases h
    · cases h

end ExtensibleRegex.Native

namespace ExtensibleRegex

/-- **A match of a regex is a stretch of the text ahead.** -/
theorem Regex.stretch_of_searchAt? {re : Regex} {p : Place} {sticky : Bool} {c : Captures}
    (h : re.searchAt? p sticky = some c) :
    (∃ v, p.Stretch v c.whole.start) ∧ ∃ w, c.whole.start.Stretch w c.whole.stop := by
  obtain ⟨f, hf, rfl⟩ := Option.map_eq_some_iff.1 h
  split at hf
  · exact Native.Engine.stretch_of_searchAt? hf
  · exact Native.Program.stretch_of_searchFrom hf

end ExtensibleRegex
