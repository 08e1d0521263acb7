import ExtensibleRegex.Proofs.Native.Equivalence
import ExtensibleRegex.Proofs.Native.Paths
import Mathlib.Tactic

/-!
# Going through the matches of a text

`Regex.allMatches` lists the matches of a text. An iterator finds them one at a time and knows only
offsets: it searches at its offset, goes on behind the match, and once a search has failed it answers
nothing any more (`MatchIterator.next`).

Both follow the same walk (`Regex.Walk`): the match that the search at a place finds, and then the walk
from the place where the scan goes on. `Regex.walk_allMatches` says so of the list, whose bound is never
reached, and `MatchIterator.answer_of_walk` of the iterator. What holds of every walk holds of both;
`Regex.allMatches_complete` puts it together.
-/

namespace ExtensibleRegex

/-! ## 1. Places and their offsets -/

namespace Place

theorem splitAtByte_append : ∀ v behind w : Text,
    splitAtByte (byteLength v) behind (v ++ w) = some (v.reverse ++ behind, w)
  | [], _, _ => by rw [byteLength_nil]; unfold splitAtByte; rfl
  | c :: v, behind, w => by
      obtain ⟨n, hn⟩ := Nat.exists_eq_add_of_lt c.utf8Size_pos
      have hlength : byteLength (c :: v) = n + byteLength v + 1 := by
        rw [byteLength_cons]
        omega
      have hrest : n + byteLength v + 1 - c.utf8Size = byteLength v := by omega
      rw [hlength, List.cons_append, splitAtByte, hrest, splitAtByte_append v (c :: behind) w,
        List.reverse_cons, List.append_assoc]
      rfl

theorem splitAtByte_eq_none : ∀ (n : Nat) (behind t : Text), byteLength t < n →
    splitAtByte n behind t = none
  | 0, _, _, h => absurd h (Nat.not_lt_zero _)
  | _ + 1, _, [], _ => rfl
  | n + 1, behind, c :: t, h => by
      rw [byteLength_cons] at h
      exact splitAtByte_eq_none (n + 1 - c.utf8Size) (c :: behind) t (by omega)

/-- The place at the offset of a place is that place. -/
theorem atOffset?_offset (p : Place) : atOffset? p.text p.offset = some p := by
  have hsplit := splitAtByte_append p.behind.reverse [] p.ahead
  rw [byteLength_reverse, ← p.offset_eq, ← Place.text_eq, List.reverse_reverse,
    List.append_nil] at hsplit
  rw [atOffset?, hsplit]
  exact congrArg some (eq_of_sides rfl rfl)

theorem atOffset?_eq_none {t : Text} {n : Nat} (h : byteLength t < n) : atOffset? t n = none := by
  rw [atOffset?, splitAtByte_eq_none n [] t h]
  rfl

variable {p q : Place} {w : Text}

theorem Stretch.offset_le (h : p.Stretch w q) : p.offset ≤ q.offset :=
  h.offset_eq ▸ Nat.le_add_right _ _

theorem Stretch.offset_lt (h : p.Stretch w q) (hw : w ≠ []) : p.offset < q.offset := by
  obtain ⟨c, v, rfl⟩ := List.exists_cons_of_ne_nil hw
  have hpos := c.utf8Size_pos
  rw [h.offset_eq, byteLength_cons]
  omega

end Place

/-! ## 2. Sticky searches -/

namespace Native

/-- The variant of a pattern has a match at every place. -/
theorem Engine.isSome_matchAt?_anchored {e : Engine} {variant : Program}
    (h : e.anchored = some variant) (p : Place) : (variant.matchAt? p).isSome = true := by
  obtain ⟨ls, q, hq, -⟩ := Program.ofSource?_eq_some_iff.1 e.program_eq
  obtain ⟨ms, r, hr, hvariant⟩ := Program.ofSource?_eq_some_iff.1 (e.anchored_eq.symm.trans h)
  have hms : ls ++ emptyGroupLexemes = ms :=
    Option.some.inj ((lexemes?_withEmptyGroup hq.lexed).symm.trans hr.lexed)
  have hread := hr.read
  rw [← hms, Progress.readAll?_bind] at hread
  obtain ⟨s, -, hread⟩ := Option.bind_eq_some_iff.1 hread
  rw [Progress.readAll?_emptyGroup] at hread
  obtain rfl := Option.some.inj hread
  have hrun := s.run_withEmptyGroup ⟨p, []⟩
  rw [Program.matchAt?, hvariant]
  cases hbody : s.body.run .forward some ⟨p, []⟩ with
  | some u => simp only [hbody] at hrun; simp only [hrun, Option.isSome_some]
  | none => simp only [hbody] at hrun; simp only [hrun, Option.isSome_some]

/-- A search at a place finds nothing but matches that start there. -/
theorem Engine.start_of_searchAt? {e : Engine} {p : Place} {f : Found} (h : e.searchAt? p = some f) :
    f.whole.start = p := by
  unfold searchAt? at h
  split at h
  · rename_i variant hvariant
    obtain ⟨g, hg⟩ := Option.isSome_iff_exists.1 (e.isSome_matchAt?_anchored hvariant p)
    have hsearch : variant.search? p = some g := Program.searchFrom_of_matchAt? hg p.ahead
    rw [hsearch] at h
    simp only at h
    split at h
    · cases h
      exact Program.start_of_matchAt? (f := g) hg
    · cases h
  · split at h
    · rename_i g hg
      split at h
      · rename_i hindex
        cases h
        rcases (Program.searchFrom_eq_some _ p f hg).2 with hstart | ⟨hlt, -⟩
        · exact hstart
        · exact absurd hindex (Nat.ne_of_gt hlt)
      · cases h
    · cases h

/-- The match at the first place, from `p` on, that has one. -/
def Engine.IsLeftmost (e : Engine) (p : Place) (f : Found) : Prop :=
  ∃ n ≤ p.ahead.length, e.program.matchAt? (p.advance n) = some f ∧
    ∀ m < n, e.program.matchAt? (p.advance m) = none

end Native

/-! ## 3. Walks -/

namespace Regex

variable {re : Regex}

/-- The matches that a scan finds which goes on at a place, or nowhere any more: the one that a search
finds there, and those that the scan finds behind it. -/
inductive Walk (re : Regex) : Option Place → List Captures → Prop
  | past : Walk re none []
  | ended {p : Place} (h : re.searchAt? p re.sticky = none) : Walk re (some p) []
  | found {p : Place} {c : Captures} {cs : List Captures} (h : re.searchAt? p re.sticky = some c)
      (rest : Walk re c.whole.resume? cs) : Walk re (some p) (c :: cs)

/-- How many matches a walk may still find. -/
def room : Option Place → Nat
  | some p => p.ahead.length + 1
  | none => 0

/-- Behind a match, the scan goes on further than where the match starts. -/
theorem stretch_of_resume {p q : Place} {sticky : Bool} {c : Captures}
    (h : re.searchAt? p sticky = some c) (hq : c.whole.resume? = some q) :
    (∃ v, v ≠ [] ∧ c.whole.start.Stretch v q) ∧ ∃ w, c.whole.stop.Stretch w q := by
  obtain ⟨-, w, hw⟩ := stretch_of_searchAt? h
  obtain ⟨v, hv, hne⟩ := hw.resume hq
  exact ⟨⟨w ++ v, hne, hw.trans hv⟩, v, hv⟩

theorem room_resume {p : Place} {sticky : Bool} {c : Captures} (h : re.searchAt? p sticky = some c) :
    room c.whole.resume? < room (some p) := by
  cases hq : c.whole.resume? with
  | none => exact Nat.succ_pos _
  | some q =>
    obtain ⟨⟨u, hu⟩, -⟩ := stretch_of_searchAt? h
    obtain ⟨⟨v, hne, hv⟩, -⟩ := stretch_of_resume h hq
    have hlength := congrArg List.length (hu.trans hv).ahead
    have hpos := List.length_pos_iff.2 hne
    simp only [List.length_append] at hlength
    show q.ahead.length + 1 < p.ahead.length + 1
    omega

/-- The matches from a place on are a walk: their bound is never reached. -/
theorem walk_matchesFrom : ∀ (left : Text) (p : Place), p.ahead.length ≤ left.length →
    re.Walk (some p) (re.matchesFrom left p)
  | left, p, hleft => by
      unfold matchesFrom
      cases hfound : re.searchAt? p re.sticky with
      | none => exact .ended hfound
      | some c =>
        have hroom := room_resume hfound
        simp only
        cases hq : c.whole.resume? with
        | none => exact .found hfound (hq ▸ .past)
        | some q =>
          rw [hq] at hroom
          change q.ahead.length + 1 < p.ahead.length + 1 at hroom
          cases left with
          | nil =>
            rw [List.length_nil] at hleft
            omega
          | cons d left =>
            refine .found hfound ?_
            rw [hq]
            rw [List.length_cons] at hleft
            exact walk_matchesFrom left q (by omega)

/-- **The list of all matches is the walk from the start of the text.** -/
theorem walk_allMatches (re : Regex) (text : Text) :
    re.Walk (some (.first text)) (re.allMatches text) :=
  walk_matchesFrom text (.first text) (Nat.le_refl _)

namespace Walk

variable {o : Option Place} {cs : List Captures}

theorem length_le (h : re.Walk o cs) : cs.length ≤ room o := by
  induction h with
  | past => exact Nat.le_refl 0
  | ended => exact Nat.zero_le _
  | found h _ ih =>
    have hroom := room_resume h
    rw [List.length_cons]
    omega

/-- Every match of a walk starts where the walk does or further. -/
theorem stretch_of_mem (h : re.Walk o cs) :
    ∀ c ∈ cs, ∃ p w, o = some p ∧ p.Stretch w c.whole.start := by
  induction h with
  | past => exact fun _ hc => absurd hc List.not_mem_nil
  | ended => exact fun _ hc => absurd hc List.not_mem_nil
  | @found p c cs h _ ih =>
    intro d hd
    obtain ⟨⟨u, hu⟩, -⟩ := stretch_of_searchAt? h
    rcases List.mem_cons.1 hd with rfl | hd
    · exact ⟨p, u, rfl, hu⟩
    · obtain ⟨q, w, hq, hw⟩ := ih d hd
      obtain ⟨⟨v, -, hv⟩, -⟩ := stretch_of_resume h hq
      exact ⟨p, _, rfl, hu.trans (hv.trans hw)⟩

/-- One match after another: each starts behind where the ones before it start, and not before these
end. -/
theorem ordered (h : re.Walk o cs) : cs.Pairwise fun c d =>
    c.whole.start.offset < d.whole.start.offset ∧ c.whole.stop.offset ≤ d.whole.start.offset := by
  induction h with
  | past => exact .nil
  | ended => exact .nil
  | @found p c cs h rest ih =>
    refine .cons (fun d hd => ?_) ih
    obtain ⟨q, w, hq, hw⟩ := rest.stretch_of_mem d hd
    obtain ⟨⟨v, hne, hv⟩, u, hu⟩ := stretch_of_resume h hq
    exact ⟨Nat.lt_of_lt_of_le (hv.offset_lt hne) hw.offset_le, hu.offset_le.trans hw.offset_le⟩

end Walk

/-- Where a scan goes on after some matches: behind the last of them, or where it began. -/
def goesOnAt? (o : Option Place) (found : List Captures) : Option Place :=
  found.foldl (fun _ c => c.whole.resume?) o

/-- What is left of a walk after some of its matches is a walk. -/
theorem Walk.after : ∀ {o : Option Place} {cs : List Captures} (ms : List Captures),
    re.Walk o (ms ++ cs) → re.Walk (goesOnAt? o ms) cs
  | _, _, [], h => h
  | _, _, _ :: ms, .found _ h => Walk.after ms h

end Regex

/-! ## 4. Iterators -/

/-- An iterator over the matches of a text: where it searches next, and whether a search has failed. -/
structure MatchIterator where
  offset : Nat
  exhausted : Bool

namespace MatchIterator

/-- An iterator that has not been asked yet. -/
def start : MatchIterator := ⟨0, false⟩

/-- The offset behind the character at an offset. Behind the end of a text it is one further. -/
def nextBoundary (text : Text) (offset : Nat) : Nat :=
  match (Place.atOffset? text offset).bind Place.next? with
  | some (c, _) => offset + c.utf8Size
  | none => offset + 1

/-- Answers the next match, if there is one. -/
def next (re : Regex) (text : Text) (it : MatchIterator) : Option Captures × MatchIterator :=
  if it.exhausted then (none, it)
  else
    match re.searchFrom? text it.offset re.sticky with
    | some c =>
      let stop := c.whole.stop.offset
      (some c, { it with offset := if c.whole.isEmpty then nextBoundary text stop else stop })
    | none => (none, { it with exhausted := true })

/-- What an iterator answers after it has been asked `n` times. -/
def answer (re : Regex) (text : Text) : (n : Nat) → MatchIterator → Option Captures
  | 0, it => (it.next re text).1
  | n + 1, it => answer re text n (it.next re text).2

/-- An iterator over a text stands at a place, or nowhere in the text any more. -/
def StandsAt (text : Text) (it : MatchIterator) : Option Place → Prop
  | some p => p.text = text ∧ it = ⟨p.offset, false⟩
  | none => it.exhausted = true ∨ byteLength text < it.offset

variable {re : Regex} {text : Text} {it : MatchIterator}

/-- Nowhere in the text, nothing is answered any more. -/
theorem answer_eq_none : ∀ (n : Nat) {it : MatchIterator}, StandsAt text it none →
    answer re text n it = none
  | n, it, h => by
      have hnext : (it.next re text).1 = none ∧ StandsAt text (it.next re text).2 none := by
        unfold next
        by_cases hexhausted : it.exhausted = true
        · rw [if_pos hexhausted]
          exact ⟨rfl, .inl hexhausted⟩
        · have hnowhere := Place.atOffset?_eq_none (h.resolve_left hexhausted)
          rw [if_neg hexhausted, Regex.searchFrom?, hnowhere]
          exact ⟨rfl, .inl rfl⟩
      cases n with
      | zero => exact hnext.1
      | succ n => exact answer_eq_none n hnext.2

/-- Behind a match, an iterator stands where a scan goes on. -/
theorem standsAt_resume {s : Span} (h : s.stop.text = text) :
    StandsAt text ⟨if s.isEmpty then nextBoundary text s.stop.offset else s.stop.offset, false⟩
      s.resume? := by
  have hplace : Place.atOffset? text s.stop.offset = some s.stop := h ▸ s.stop.atOffset?_offset
  unfold Span.resume?
  by_cases hempty : s.isEmpty = true
  · rw [if_pos hempty, if_pos hempty, nextBoundary, hplace, Option.bind_some]
    cases hnext : s.stop.next? with
    | none =>
      have hend : s.stop.ahead = [] := by
        simpa [Place.atEnd] using (Place.next?_eq_none_iff s.stop).1 hnext
      refine .inr ?_
      rw [← h, Place.text_eq, hend, List.append_nil, byteLength_reverse, ← s.stop.offset_eq]
      exact Nat.lt_succ_self _
    | some next =>
      obtain ⟨c, q⟩ := next
      have hq := Place.stretch_next hnext
      have hoffset : q.offset = s.stop.offset + c.utf8Size := by
        rw [hq.offset_eq, byteLength_cons, byteLength_nil, Nat.add_zero]
      refine ⟨hq.text_eq.trans h, ?_⟩
      rw [hoffset]
  · rw [if_neg hempty, if_neg hempty]
    exact ⟨h, rfl⟩

/-- **An iterator answers a walk**, match by match, and after that nothing any more. -/
theorem answer_of_walk {o : Option Place} {cs : List Captures} (h : re.Walk o cs) :
    ∀ {it : MatchIterator}, StandsAt text it o → ∀ n, answer re text n it = cs[n]? := by
  induction h with
  | past => exact fun hit n => answer_eq_none n hit
  | @ended p h =>
    rintro it ⟨htext, rfl⟩ n
    have hsearch : re.searchFrom? text p.offset re.sticky = none := by
      rw [Regex.searchFrom?, ← htext, p.atOffset?_offset]
      exact h
    have hnext : next re text ⟨p.offset, false⟩ = (none, ⟨p.offset, true⟩) := by
      rw [next, if_neg Bool.false_ne_true, hsearch]
    cases n with
    | zero => rw [answer, hnext]; rfl
    | succ n => rw [answer, hnext]; exact answer_eq_none n (.inl rfl)
  | @found p c cs h _ ih =>
    rintro it ⟨htext, rfl⟩ n
    have hsearch : re.searchFrom? text p.offset re.sticky = some c := by
      rw [Regex.searchFrom?, ← htext, p.atOffset?_offset]
      exact h
    obtain ⟨⟨u, hu⟩, w, hw⟩ := Regex.stretch_of_searchAt? h
    have hstands := standsAt_resume ((hu.trans hw).text_eq.trans htext)
    cases n with
    | zero => rw [answer, next, if_neg Bool.false_ne_true, hsearch]; rfl
    | succ n =>
      rw [answer, next, if_neg Bool.false_ne_true, hsearch]
      exact ih hstands n

end MatchIterator

/-! ## 5. All matches -/

namespace Regex

/-- **The matches of a text are found completely and in order.** An iterator answers them one after
another, and then nothing for ever. There is at most one more than the text has characters. Each starts
behind where the ones before it start, and not before these end. A sticky regex has each of its matches
right where the scan goes on after those before it; any other regex has there the leftmost match of its
engine. And where the scan goes on after the last one, if that is in the text, there is none. -/
theorem allMatches_complete (re : Regex) (text : Text) :
    (∀ n, MatchIterator.start.answer re text n = (re.allMatches text)[n]?) ∧
    (re.allMatches text).length ≤ text.length + 1 ∧
    ((re.allMatches text).Pairwise fun c d =>
      c.whole.start.offset < d.whole.start.offset ∧ c.whole.stop.offset ≤ d.whole.start.offset) ∧
    (∀ found c rest, re.allMatches text = found ++ c :: rest →
      ∃ p, goesOnAt? (some (.first text)) found = some p ∧
        if re.sticky then c.whole.start = p else ∃ f, re.engine.IsLeftmost p f ∧ c = re.captures f) ∧
    ∀ p, goesOnAt? (some (.first text)) (re.allMatches text) = some p →
      re.searchAt? p re.sticky = none ∧
        (re.sticky = false → ∀ n ≤ p.ahead.length, re.engine.program.matchAt? (p.advance n) = none) := by
  have hwalk := re.walk_allMatches text
  refine ⟨MatchIterator.answer_of_walk hwalk ⟨rfl, rfl⟩, hwalk.length_le, hwalk.ordered,
    fun found c rest hsplit => ?_, fun p hp => ?_⟩
  · rw [hsplit] at hwalk
    generalize hplace : goesOnAt? (some (.first text)) found = o
    have hrest := hwalk.after found
    rw [hplace] at hrest
    cases hrest with
    | @found p _ _ h _ =>
      refine ⟨p, rfl, ?_⟩
      obtain ⟨f, hf, rfl⟩ := Option.map_eq_some_iff.1 h
      split
      · rename_i hsticky
        rw [if_pos hsticky] at hf
        exact Native.Engine.start_of_searchAt? hf
      · rename_i hsticky
        rw [if_neg hsticky] at hf
        exact ⟨f, Native.Program.search?_eq_some hf, rfl⟩
  · rw [← (re.allMatches text).append_nil] at hwalk
    have hrest := hwalk.after (re.allMatches text)
    rw [hp] at hrest
    cases hrest with
    | ended h =>
      refine ⟨h, fun hsticky => Native.Program.search?_eq_none ?_⟩
      rw [hsticky, searchAt?, if_neg Bool.false_ne_true] at h
      exact Option.map_eq_none_iff.1 h

end Regex

end ExtensibleRegex
