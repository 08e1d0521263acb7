import ExtensibleRegex.Balanced
import ExtensibleRegex.Proofs.Native.Paths
import Mathlib.Tactic

/-!
# Scans for balanced delimiters

What a scan does from round to round, whatever it reports.

* Its outermost pairs lie one after another in the text (`Chain`), and the open one lies behind the
  last of them and before the place where the scan goes on (`Scan.Sound`). `Sound.round` says that a
  round keeps this, that a round with another one after it takes the scan further, and that the labels
  of the parts play no role in what a round leads to.
* `Ends` is a scan without a bound on its rounds; every scan ends, at the latest in a round more than
  it can still take the scan further (`Sound.ends`), and the bound of a run is never reached
  (`run_ends`).
-/

namespace ExtensibleRegex

/-! ## 1. Pairs -/

/-- An outermost pair: where the pair before it ended, and its two delimiters. -/
structure Pair where
  last : Place
  left : Span
  right : Span

namespace Pair

/-- The parts that are reported of a pair. -/
def parts (labels : Option PartLabels) (x : Pair) : List BalancedPart :=
  pairParts labels x.last x.left x.right

/-- The delimiters of a pair come one after the other, behind the pair before. -/
structure Ordered (x : Pair) : Prop where
  before : ∃ w, x.last.Stretch w x.left.start
  left : ∃ w, x.left.start.Stretch w x.left.stop
  inner : ∃ w, x.left.stop.Stretch w x.right.start
  right : ∃ w, x.right.start.Stretch w x.right.stop

end Pair

/-- Pairs that come one after another, from a place up to the end of the last one. -/
def Chain : Place → List Pair → Place → Prop
  | p, [], q => p = q
  | p, x :: xs, q => x.last = p ∧ x.Ordered ∧ Chain x.right.stop xs q

theorem Chain.concat {x : Pair} (hx : x.Ordered) : ∀ {p : Place} {xs : List Pair},
    Chain p xs x.last → Chain p (xs ++ [x]) x.right.stop
  | _, [], h => ⟨h.symm, hx, rfl⟩
  | _, _ :: _, ⟨hlast, hordered, h⟩ => ⟨hlast, hordered, h.concat hx⟩

theorem Chain.exists_stretch : ∀ {p q : Place} {xs : List Pair}, Chain p xs q → ∃ w, p.Stretch w q
  | _, _, [], h => ⟨[], h ▸ .refl _⟩
  | _, _, x :: xs, ⟨hlast, hordered, h⟩ => by
      obtain ⟨⟨_, hbefore⟩, ⟨_, hleft⟩, ⟨_, hinner⟩, ⟨_, hright⟩⟩ := hordered
      obtain ⟨w, hw⟩ := h.exists_stretch
      subst hlast
      exact ⟨_, (((hbefore.trans hleft).trans hinner).trans hright).trans hw⟩

/-! ## 2. What a scan knows -/

namespace Scan

/-- A scan that reports the parts of its pairs under labels. -/
def showing (s : Scan) (labels : Option PartLabels) (pairs : List Pair) : Scan :=
  { s with parts := (pairs.flatMap (Pair.parts labels)).reverse }

/-- The places of a scan with its pairs so far, from a start. While the scan can go on, the open pair
lies between the last pair and the place where it goes on. -/
structure Sound (start : Place) (pairs : List Pair) (s : Scan) : Prop where
  chain : Chain start pairs s.last
  closed : ∀ p, s.next = some p → s.depth = 0 → ∃ w, s.last.Stretch w p
  opened : ∀ p, s.next = some p → s.depth ≠ 0 → (∃ w, s.last.Stretch w s.outer.start) ∧
    (∃ w, s.outer.start.Stretch w s.outer.stop) ∧ ∃ w, s.outer.stop.Stretch w p

/-- How many more rounds can take a scan further. -/
def budget (s : Scan) : Nat :=
  match s.next with
  | some p => p.ahead.length + 1
  | none => 0

end Scan

namespace BalancedSearch

/-- The same search, with parts reported under labels. -/
def reporting (b : BalancedSearch) (labels : Option PartLabels) : BalancedSearch :=
  { b with labels := labels }

variable {b : BalancedSearch} {s : Scan} {start : Place} {pairs : List Pair}

theorem stretch_of_skip {next : Option Place} {q : Place} (h : b.skip next = some q) :
    ∃ p, next = some p ∧ ∃ w, p.Stretch w q := by
  unfold skip at h
  split at h
  · rename_i p skipper _
    split at h
    · rename_i c hc
      cases h
      obtain ⟨⟨_, hv⟩, ⟨_, hw⟩⟩ := Regex.stretch_of_searchAt? hc
      exact ⟨p, rfl, _, hv.trans hw⟩
    · cases h
      exact ⟨q, rfl, [], .refl q⟩
  · exact ⟨q, h, [], .refl q⟩

/-- A delimiter lies in the text ahead. -/
theorem stretch_of_nextDelimiter? {next : Option Place} {isLeft : Bool} {found : Span}
    (h : b.nextDelimiter? next = some (isLeft, found)) :
    ∃ p, next = some p ∧ (∃ w, p.Stretch w found.start) ∧ ∃ w, found.start.Stretch w found.stop := by
  unfold nextDelimiter? at h
  split at h
  · cases h
  · rename_i p
    split at h
    · rename_i l r hl hr
      split at h <;> cases h
      · exact ⟨p, rfl, Regex.stretch_of_searchAt? hl⟩
      · exact ⟨p, rfl, Regex.stretch_of_searchAt? hr⟩
    · rename_i l hl _
      cases h
      exact ⟨p, rfl, Regex.stretch_of_searchAt? hl⟩
    · rename_i r _ hr
      cases h
      exact ⟨p, rfl, Regex.stretch_of_searchAt? hr⟩
    · cases h

/-- After a delimiter, the scan goes on behind it, with less of the text ahead than before. -/
theorem budget_resume {p : Place} {v w : Text} {found : Span} (hnext : s.next = some p)
    (hv : p.Stretch v found.start) (hw : found.start.Stretch w found.stop) {s' : Scan}
    (hresume : s'.next = found.resume?) : s'.budget < s.budget := by
  unfold Scan.budget
  rw [hnext, hresume]
  cases hq : found.resume? with
  | none => exact Nat.succ_pos _
  | some q =>
    obtain ⟨z, hz, hne⟩ := hw.resume hq
    have hlength := congrArg List.length ((hv.trans (hw.trans hz)).ahead)
    have hpos := List.length_pos_iff.2 hne
    simp only [List.length_append] at hlength hpos
    show q.ahead.length + 1 < p.ahead.length + 1
    omega

/-! ## 3. Rounds -/

section Rounds

variable {isLeft : Bool} {found : Span}

/-- Whether the text before a delimiter ends a sticky scan. -/
def Gap (b : BalancedSearch) (s : Scan) (found : Span) : Prop :=
  (b.sticky && s.depth == 0 && decide (s.last.index < found.start.index)) = true

theorem round_of_none (h : b.nextDelimiter? (b.skip s.next) = none) :
    b.round s = if s.depth = 0 then .finished s else .unbalanced := by
  unfold round
  rw [h]

theorem round_of_gap (h : b.nextDelimiter? (b.skip s.next) = some (isLeft, found))
    (hgap : b.Gap s found) : b.round s = .finished s := by
  unfold round
  rw [h]
  exact if_pos hgap

theorem round_of_left (h : b.nextDelimiter? (b.skip s.next) = some (true, found))
    (hgap : ¬b.Gap s found) :
    b.round s = .running { s with next := found.resume?, depth := s.depth + 1
                                  outer := if s.depth = 0 then found else s.outer } := by
  unfold round
  rw [h]
  exact (if_neg hgap).trans (if_pos rfl)

theorem round_of_right (h : b.nextDelimiter? (b.skip s.next) = some (false, found))
    (hgap : ¬b.Gap s found) :
    b.round s = match s.depth with
      | 0 => .unbalanced
      | 1 =>
        let s := { s with next := found.resume?, depth := 0, last := found.stop
                          parts := (pairParts b.labels s.last s.outer found).reverse ++ s.parts }
        if b.global then .running s else .finished s
      | depth + 2 => .running { s with next := found.resume?, depth := depth + 1 } := by
  unfold round
  rw [h]
  exact (if_neg hgap).trans (if_neg Bool.false_ne_true)

end Rounds

/-- What a round can lead to, whatever parts are reported. -/
inductive Turn (b : BalancedSearch) (start : Place) (pairs : List Pair) (s : Scan) : Prop where
  | unbalanced (h : ∀ labels, (b.reporting labels).round (s.showing labels pairs) = .unbalanced)
  | finished (s' : Scan) (pairs' : List Pair) (sound : s'.Sound start pairs')
      (h : ∀ labels, (b.reporting labels).round (s.showing labels pairs) =
        .finished (s'.showing labels pairs'))
  | running (s' : Scan) (pairs' : List Pair) (sound : s'.Sound start pairs')
      (shorter : s'.budget < s.budget)
      (h : ∀ labels, (b.reporting labels).round (s.showing labels pairs) =
        .running (s'.showing labels pairs'))

/-- A left delimiter opens a pair, or stands inside of the one that is open. -/
theorem turn_of_left (h : s.Sound start pairs) {p : Place} {v w : Text} {found : Span}
    (hnext : s.next = some p) (hv : p.Stretch v found.start) (hw : found.start.Stretch w found.stop)
    (hdelimiter : b.nextDelimiter? (b.skip s.next) = some (true, found)) (hgap : ¬b.Gap s found) :
    Turn b start pairs s := by
  refine .running
    { s with next := found.resume?, depth := s.depth + 1
             outer := if s.depth = 0 then found else s.outer } pairs ⟨h.chain, nofun, ?_⟩
    (budget_resume hnext hv hw rfl) fun labels => round_of_left hdelimiter hgap
  intro q hq _
  obtain ⟨z, hz, -⟩ := hw.resume hq
  by_cases hdepth : s.depth = 0
  · obtain ⟨x, hx⟩ := h.closed p hnext hdepth
    simp only [if_pos hdepth]
    exact ⟨⟨_, hx.trans hv⟩, ⟨w, hw⟩, z, hz⟩
  · obtain ⟨hbefore, hleft, y, hy⟩ := h.opened p hnext hdepth
    simp only [if_neg hdepth]
    exact ⟨hbefore, hleft, _, (hy.trans hv).trans (hw.trans hz)⟩

/-- A right delimiter closes the open pair, or stands inside of it. -/
theorem turn_of_right (h : s.Sound start pairs) {p : Place} {v w : Text} {found : Span}
    (hnext : s.next = some p) (hv : p.Stretch v found.start) (hw : found.start.Stretch w found.stop)
    (hdelimiter : b.nextDelimiter? (b.skip s.next) = some (false, found)) (hgap : ¬b.Gap s found) :
    Turn b start pairs s := by
  have hround (labels : Option PartLabels) := round_of_right (b := b.reporting labels)
    (s := s.showing labels pairs) hdelimiter hgap
  cases hdepth : s.depth with
  | zero =>
    refine .unbalanced fun labels => (hround labels).trans ?_
    show (match s.depth with | 0 => _ | 1 => _ | depth + 2 => _) = _
    rw [hdepth]
  | succ depth =>
  obtain ⟨hbefore, hleft, y, hy⟩ := h.opened p hnext (by rw [hdepth]; exact Nat.succ_ne_zero _)
  cases depth with
  | zero =>
    let x : Pair := ⟨s.last, s.outer, found⟩
    let s' : Scan := { s with next := found.resume?, depth := 0, last := found.stop }
    have hpair : x.Ordered := ⟨hbefore, hleft, ⟨_, hy.trans hv⟩, ⟨w, hw⟩⟩
    have hsound : s'.Sound start (pairs ++ [x]) := by
      refine ⟨h.chain.concat hpair, fun q hq _ => ?_, fun q _ hne => absurd rfl hne⟩
      obtain ⟨z, hz, -⟩ := hw.resume hq
      exact ⟨z, hz⟩
    have hparts (labels : Option PartLabels) : s'.showing labels (pairs ++ [x]) =
        { s' with parts := (x.parts labels).reverse ++ (pairs.flatMap (Pair.parts labels)).reverse } := by
      rw [Scan.showing, List.flatMap_append, List.reverse_append, List.flatMap_singleton]
    have hclosed (labels : Option PartLabels) :
        (b.reporting labels).round (s.showing labels pairs) =
          if b.global then .running (s'.showing labels (pairs ++ [x]))
          else .finished (s'.showing labels (pairs ++ [x])) := by
      rw [hround, hparts]
      show (match s.depth with | 0 => _ | 1 => _ | depth + 2 => _) = _
      rw [hdepth]
      rfl
    by_cases hglobal : b.global = true
    · exact .running s' _ hsound (budget_resume hnext hv hw rfl) fun labels =>
        (hclosed labels).trans (if_pos hglobal)
    · exact .finished s' _ hsound fun labels => (hclosed labels).trans (if_neg hglobal)
  | succ depth =>
    refine .running { s with next := found.resume?, depth := depth + 1 } pairs
      ⟨h.chain, nofun, fun q hq _ => ?_⟩ (budget_resume hnext hv hw rfl) fun labels => ?_
    · obtain ⟨z, hz, -⟩ := hw.resume hq
      exact ⟨hbefore, hleft, _, (hy.trans hv).trans (hw.trans hz)⟩
    · rw [hround]
      show (match s.depth with | 0 => _ | 1 => _ | depth + 2 => _) = _
      rw [hdepth]
      rfl

/-- **A round** keeps the pairs of a scan in order, and takes the scan further if another round is to
follow. -/
theorem turn (b : BalancedSearch) (h : s.Sound start pairs) : Turn b start pairs s := by
  cases hdelimiter : b.nextDelimiter? (b.skip s.next) with
  | none =>
    have hround (labels : Option PartLabels) := round_of_none (b := b.reporting labels)
      (s := s.showing labels pairs) hdelimiter
    by_cases hdepth : s.depth = 0
    · exact .finished s pairs h fun labels => (hround labels).trans (if_pos hdepth)
    · exact .unbalanced fun labels => (hround labels).trans (if_neg hdepth)
  | some delimiter =>
    obtain ⟨isLeft, found⟩ := delimiter
    obtain ⟨q, hskip, ⟨v, hv⟩, ⟨w, hw⟩⟩ := stretch_of_nextDelimiter? hdelimiter
    obtain ⟨p, hnext, u, hu⟩ := stretch_of_skip hskip
    by_cases hgap : b.Gap s found
    · exact .finished s pairs h fun labels => round_of_gap (b := b.reporting labels) hdelimiter hgap
    cases isLeft with
    | true => exact turn_of_left h hnext (hu.trans hv) hw hdelimiter hgap
    | false => exact turn_of_right h hnext (hu.trans hv) hw hdelimiter hgap

/-! ## 4. Whole scans -/

/-- A scan that ends in its `n`th round, with what it leads to. -/
inductive Ends (b : BalancedSearch) : Nat → Scan → ScanOutcome → Prop
  | finished {s s' : Scan} (h : b.round s = .finished s') : Ends b 1 s (.finished s')
  | unbalanced {s : Scan} (h : b.round s = .unbalanced) : Ends b 1 s .unbalanced
  | running {n : Nat} {s s' : Scan} {o : ScanOutcome} (h : b.round s = .running s')
      (rest : Ends b n s' o) : Ends b (n + 1) s o

theorem Ends.rounds_eq {n limit : Nat} {o : ScanOutcome} (h : b.Ends n s o) (hle : n ≤ limit) :
    b.rounds limit s = o := by
  induction h generalizing limit with
  | finished h =>
    obtain ⟨k, rfl⟩ := Nat.exists_eq_add_of_le' hle
    unfold rounds
    rw [h]
  | unbalanced h =>
    obtain ⟨k, rfl⟩ := Nat.exists_eq_add_of_le' hle
    unfold rounds
    rw [h]
  | running h _ ih =>
    cases limit with
    | zero => exact absurd hle (Nat.not_succ_le_zero _)
    | succ limit =>
      unfold rounds
      rw [h]
      exact ih (Nat.le_of_succ_le_succ hle)

/-- What a scan leads to, whatever parts are reported: the same round ends it, with the same pairs. -/
inductive Finish (b : BalancedSearch) (start : Place) (pairs : List Pair) (n : Nat) (s : Scan) :
    Prop where
  | unbalanced (h : ∀ labels, (b.reporting labels).Ends n (s.showing labels pairs) .unbalanced)
  | finished (s' : Scan) (pairs' : List Pair) (sound : s'.Sound start pairs')
      (h : ∀ labels, (b.reporting labels).Ends n (s.showing labels pairs)
        (.finished (s'.showing labels pairs')))

/-- **Every scan ends**, after as many rounds as can take it further and one more. -/
theorem finish (b : BalancedSearch) : ∀ (limit : Nat) {s : Scan} {pairs : List Pair},
    s.Sound start pairs → s.budget ≤ limit → ∃ n ≤ limit + 1, Finish b start pairs n s
  | limit, s, pairs, h, hlimit => by
      cases turn b h with
      | unbalanced hround =>
        exact ⟨1, Nat.le_add_left 1 limit, .unbalanced fun labels => .unbalanced (hround labels)⟩
      | finished s' pairs' hsound hround =>
        exact ⟨1, Nat.le_add_left 1 limit,
          .finished s' pairs' hsound fun labels => .finished (hround labels)⟩
      | running s' pairs' hsound hshorter hround =>
        cases limit with
        | zero => exact absurd (Nat.lt_of_lt_of_le hshorter hlimit) (Nat.not_lt_zero _)
        | succ limit =>
          obtain ⟨n, hn, hfinish⟩ := finish b limit hsound
            (Nat.le_of_lt_succ (Nat.lt_of_lt_of_le hshorter hlimit))
          refine ⟨n + 1, Nat.succ_le_succ hn, ?_⟩
          cases hfinish with
          | unbalanced hends => exact .unbalanced fun labels => .running (hround labels) (hends labels)
          | finished s'' pairs'' hsound' hends =>
            exact .finished s'' pairs'' hsound' fun labels => .running (hround labels) (hends labels)

end BalancedSearch

end ExtensibleRegex
