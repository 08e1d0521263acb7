import ExtensibleRegex.Proofs.Balanced.Scan
import ExtensibleRegex.Proofs.Balanced.Setup
import ExtensibleRegex.Proofs.Combine.Alternatives
import Mathlib.Tactic

/-!
# Escape characters that do not occur

Before a text without the escape character, a skipper only passes places at which its delimiters have no
match (`Skipper.passes_node`). So the next delimiter is the same with it and without it
(`BalancedSearch.nextDelimiter?_skip`), and a scan leads to the same (`BalancedSearch.run_of_absent`).

The delimiters of a skipper are a union, which is made without flags and matched in the modes that the
flags say. `Context.balanced_absent` is for the delimiters that are the same there: those that match in
these modes themselves, and that can be put together in a union. Under flag `u` the union reads them in
another grammar than the skipper does, but to the same (`Context.exists_delimiters`). A mode modifier of a
delimiter is not seen by the skipper (`Context.balanced_absent_modifier`).
-/

namespace ExtensibleRegex

open Native

/-! ## 1. What a skipper passes -/

theorem Native.Track.forget_of_nil {t : Track} (h : t.groups = []) (r : GroupRange) :
    t.forget r = t := by
  unfold Track.forget
  split
  · rfl
  · obtain ⟨place, groups⟩ := t
    obtain rfl : groups = [] := h
    rfl

theorem Native.Node.mem_seq_empty {n : Node} {t u : Track}
    (h : u ∈ (Node.seq n .empty).paths .forward t) : u ∈ n.paths .forward t := by
  obtain ⟨v, hv, hu⟩ := List.mem_flatMap.1 h
  obtain rfl := List.mem_singleton.1 hu
  exact hv

theorem admits_literal_eq_sameChar (e : Char) (ignoreCase : Bool) (d : Char) :
    (Atom.literal e.toNat ignoreCase).admits d = sameChar ignoreCase e d := by
  cases ignoreCase with
  | true => rfl
  | false =>
    show (e.toNat == d.toNat) = (e == d)
    rw [Bool.eq_iff_iff, beq_iff_eq, beq_iff_eq, Char.toNat_inj]

namespace Skipper

variable {e : Char} {ignoreCase : Bool} {delimiters : Node} {t u v : Track}

/-- From a track without groups, before a text without the escape character, only places are passed at
which the delimiters have no match. -/
def Passes (e : Char) (ignoreCase : Bool) (delimiters : Node) (t u : Track) : Prop :=
  t.groups = [] → (∀ d ∈ t.place.ahead, sameChar ignoreCase e d = false) →
    u.groups = [] ∧ ∃ w, t.place.Stretch w u.place ∧
      ∀ n < w.length, delimiters.ends (t.place.advance n) = []

theorem Passes.refl (t : Track) : Passes e ignoreCase delimiters t t := fun hgroups _ =>
  ⟨hgroups, [], .refl _, fun _ hn => absurd hn (Nat.not_lt_zero _)⟩

theorem Passes.trans (h : Passes e ignoreCase delimiters t u) (h' : Passes e ignoreCase delimiters u v) :
    Passes e ignoreCase delimiters t v := by
  intro hgroups habsent
  obtain ⟨hgroups, w, hw, hfirst⟩ := h hgroups habsent
  obtain ⟨hgroups, w', hw', hrest⟩ := h' hgroups fun d hd =>
    habsent d (hw.ahead ▸ List.mem_append_right w hd)
  refine ⟨hgroups, w ++ w', hw.trans hw', fun n hn => ?_⟩
  rw [List.length_append] at hn
  by_cases hlt : n < w.length
  · exact hfirst n hlt
  · have hplace := hrest (n - w.length) (by omega)
    rwa [hw.eq_advance, Place.advance_advance, Nat.add_sub_cancel' (Nat.le_of_not_lt hlt)] at hplace

/-- No escape character is there to be taken. -/
theorem passes_pair (h : u ∈ (pair e ignoreCase).paths .forward t) :
    Passes e ignoreCase delimiters t u := by
  intro _ habsent
  obtain ⟨v, hv, -⟩ := List.mem_flatMap.1 h
  have hstep := Option.mem_toList.1 hv
  unfold Atom.step at hstep
  split at hstep
  · rename_i d q hq
    have hahead : d ∈ t.place.ahead := by
      rw [(Place.next?_eq_some hq).1]
      exact List.mem_cons_self
    rw [admits_literal_eq_sameChar, habsent d hahead] at hstep
    cases hstep
  · cases hstep

/-- A character is taken only where no delimiter is. -/
theorem passes_other (h : u ∈ (other e ignoreCase delimiters).paths .forward t) :
    Passes e ignoreCase delimiters t u := by
  intro hgroups _
  obtain ⟨place, groups⟩ := t
  obtain rfl : groups = [] := hgroups
  obtain ⟨v, hv, hu⟩ := List.mem_flatMap.1 h
  have hnone : delimiters.paths .forward ⟨place, []⟩ = [] ∧ v = ⟨place, []⟩ := by
    rw [Node.paths] at hv
    split at hv
    · exact absurd hv List.not_mem_nil
    · rename_i hhead
      exact ⟨List.head?_eq_none_iff.1 hhead, List.mem_singleton.1 hv⟩
  obtain ⟨hnone, rfl⟩ := hnone
  have hstep := Option.mem_toList.1 (Node.mem_seq_empty hu)
  unfold Atom.step at hstep
  split at hstep
  · rename_i d q hq
    split at hstep <;> cases hstep
    refine ⟨rfl, [d], Place.stretch_next hq, fun n hn => ?_⟩
    obtain rfl : n = 0 := by
      rw [List.length_singleton] at hn
      omega
    show (delimiters.paths .forward ⟨place, []⟩).map Track.place = []
    rw [hnone]
    rfl
  · cases hstep

/-- **A skipper passes no delimiter**, as long as there is no escape character. -/
theorem passes_node {p : Program} (h : u ∈ (node e ignoreCase p).paths .forward t) :
    Passes e ignoreCase p.node t u := by
  have hround {n : Node} {t u : Track} (hn : ∀ {t u}, u ∈ n.paths .forward t →
      Passes e ignoreCase p.node t u)
      (h : u ∈ (Node.loop n 1 none true ⟨0, p.groups⟩).paths .forward t) :
      Passes e ignoreCase p.node t u :=
    Node.related_of_mem_loop Passes.refl Passes.trans
      (fun t u hu hgroups => hn (Track.forget_of_nil hgroups _ ▸ hu) hgroups) h
  refine hround (fun {t u} hu => ?_) (Node.mem_seq_empty h)
  rcases List.mem_append.1 hu with hu | hu
  · exact passes_pair hu
  · exact hround passes_other (Node.mem_seq_empty hu)

end Skipper

/-! ## 2. Scans -/

/-- A search may begin later, where there is no match before. -/
theorem Native.Program.search?_advance {p : Program} {place : Place} {n : Nat}
    (hle : n ≤ place.ahead.length) (h : ∀ m < n, p.matchAt? (place.advance m) = none) :
    p.search? (place.advance n) = p.search? place := by
  have hlength := length_ahead_advance n place
  cases hlate : p.search? (place.advance n) with
  | some f =>
    obtain ⟨k, hk, hmatch, hbefore⟩ := search?_eq_some hlate
    rw [Place.advance_advance] at hmatch
    refine (search?_of_matchAt? (by omega) hmatch fun m hm => ?_).symm
    by_cases hlt : m < n
    · exact h m hlt
    · have hnone := hbefore (m - n) (by omega)
      rwa [Place.advance_advance, Nat.add_sub_cancel' (Nat.le_of_not_lt hlt)] at hnone
  | none =>
    cases hearly : p.search? place with
    | none => rfl
    | some f =>
      obtain ⟨k, hk, hmatch, -⟩ := search?_eq_some hearly
      by_cases hlt : k < n
      · rw [h k hlt] at hmatch
        cases hmatch
      · have hnone := search?_eq_none hlate (k - n) (by omega)
        rw [Place.advance_advance, Nat.add_sub_cancel' (Nat.le_of_not_lt hlt), hmatch] at hnone
        cases hnone

namespace BalancedSearch

variable {b : BalancedSearch} {s : Scan}

/-- A scan with a skipper that stops where one of the delimiters has a match. -/
def Skips (b : BalancedSearch) (e : Char) (ignoreCase : Bool) : Prop :=
  ∃ skipper p, b.skipper = some skipper ∧
    skipper.engine.program = ⟨Skipper.node e ignoreCase p, p.groups⟩ ∧ skipper.engine.NoNextGroup ∧
    ∀ place, p.node.ends place = [] → b.left.engine.program.node.ends place = [] ∧
      b.right.engine.program.node.ends place = []

/-- The same scan without a skipper. -/
def plain (b : BalancedSearch) : BalancedSearch := { b with skipper := none }

variable {e : Char} {ignoreCase : Bool}

/-- **The next delimiter is the same** with a skipper, before a text without the escape character. -/
theorem nextDelimiter?_skip (h : b.Skips e ignoreCase) {place : Place}
    (habsent : ∀ d ∈ place.ahead, sameChar ignoreCase e d = false) :
    b.nextDelimiter? (b.skip (some place)) = b.nextDelimiter? (some place) := by
  obtain ⟨skipper, p, hskipper, hprogram, hnext, hends⟩ := h
  have hmatch : skipper.searchAt? place true =
      (skipper.engine.program.matchAt? place).map skipper.captures := by
    show (skipper.engine.searchAt? place).map skipper.captures = _
    rw [Engine.searchAt?_eq_matchAt? _ (.inr hnext)]
  unfold skip
  rw [hskipper]
  simp only [hmatch]
  cases hfound : skipper.engine.program.matchAt? place with
  | none => rfl
  | some f =>
    rw [Program.matchAt?_eq_head?, hprogram] at hfound
    obtain ⟨u, hu, rfl⟩ := Option.map_eq_some_iff.1 hfound
    obtain ⟨-, w, hw, hpassed⟩ := Skipper.passes_node (List.mem_of_mem_head? hu) rfl habsent
    have hle : w.length ≤ place.ahead.length := by
      have hlength := congrArg List.length hw.ahead
      rw [List.length_append] at hlength
      exact hlength ▸ Nat.le_add_right _ _
    have hsame {re : Regex} (hre : ∀ n < w.length, re.engine.program.node.ends (place.advance n) = []) :
        re.searchAt? u.place false = re.searchAt? place false := by
      have hsearch := Program.search?_advance hle fun n hn =>
        Program.matchAt?_eq_none_iff.2 (hre n hn)
      rw [← hw.eq_advance] at hsearch
      exact congrArg (Option.map re.captures) hsearch
    show b.nextDelimiter? (some u.place) = _
    unfold nextDelimiter?
    simp only [hsame fun n hn => (hends _ (hpassed n hn)).1, hsame fun n hn => (hends _ (hpassed n hn)).2]

/-- A round that leads to another one goes on further in the text. -/
theorem next_of_round {s' : Scan} (h : b.round s = .running s') {q : Place} (hq : s'.next = some q) :
    ∃ p w, s.next = some p ∧ p.Stretch w q := by
  unfold round at h
  split at h
  · split at h <;> cases h
  rename_i isLeft found hdelimiter
  obtain ⟨p', hskip, ⟨v, hv⟩, ⟨w, hw⟩⟩ := stretch_of_nextDelimiter? hdelimiter
  obtain ⟨p, hnext, x, hx⟩ := stretch_of_skip hskip
  have hresume (hnext' : s'.next = found.resume?) : ∃ p w, s.next = some p ∧ p.Stretch w q := by
    rw [hnext'] at hq
    obtain ⟨z, hz, -⟩ := hw.resume hq
    exact ⟨p, _, hnext, (hx.trans hv).trans (hw.trans hz)⟩
  split at h
  · cases h
  split at h
  · cases h
    exact hresume rfl
  split at h
  · cases h
  · simp only at h
    split at h <;> cases h
    exact hresume rfl
  · cases h
    exact hresume rfl

theorem round_of_absent (h : b.Skips e ignoreCase)
    (habsent : ∀ p, s.next = some p → ∀ d ∈ p.ahead, sameChar ignoreCase e d = false) :
    b.round s = b.plain.round s := by
  have hnext : b.nextDelimiter? (b.skip s.next) = b.plain.nextDelimiter? (b.plain.skip s.next) := by
    cases hplace : s.next with
    | none => rfl
    | some p => exact nextDelimiter?_skip h (habsent p hplace)
  unfold round
  rw [hnext]
  rfl

theorem rounds_of_absent (h : b.Skips e ignoreCase) : ∀ (limit : Nat) {s : Scan},
    (∀ p, s.next = some p → ∀ d ∈ p.ahead, sameChar ignoreCase e d = false) →
    b.rounds limit s = b.plain.rounds limit s
  | 0, _, _ => rfl
  | limit + 1, s, habsent => by
      unfold rounds
      rw [← round_of_absent h habsent]
      cases hround : b.round s with
      | finished s' => rfl
      | unbalanced => rfl
      | running s' =>
        refine rounds_of_absent h limit fun q hq d hd => ?_
        obtain ⟨p, w, hp, hw⟩ := next_of_round hround hq
        exact habsent p hp d (hw.ahead ▸ List.mem_append_right w hd)

/-- **A scan of a text without the escape character** leads to the same with a skipper and without. -/
theorem run_of_absent (h : b.Skips e ignoreCase) {text : Text}
    (habsent : ∀ d ∈ text, sameChar ignoreCase e d = false) : b.run text = b.plain.run text := by
  unfold run
  simp only
  rw [rounds_of_absent h _ fun p hp => by cases hp; exact habsent]
  rfl

end BalancedSearch

/-! ## 3. The whole operation -/

namespace Context

variable {c : Context} {l r : Regex} {flags : Text}

/-- **The union that a skipper is made of** is read in the grammar of its delimiters as well, and the ways
through it are then those through the left one and those through the right one. -/
theorem exists_delimiters {ps : List PartWords} {d : Regex} {mode : Mode}
    (hps : List.Forall₂ Needle.Words [.regex l, .regex r] ps)
    (hleftMode : l.engine.mode = mode) (hrightMode : r.engine.mode = mode)
    (hunion : freshUnion [.regex l, .regex r] [] .or = .ok d)
    (hfew : (ps.flatMap PartWords.groupNames).length ≤ maxGroups) :
    lexemes? mode.unicode d.nativeSource = some (unionLexemes .or (ps.map PartWords.lexemes)) ∧
      ∃ p, Program.ofSource? d.nativeSource mode = some p ∧
        p.groups = (ps.flatMap PartWords.groupNames).length ∧
        ∀ place, p.node.ends place =
          l.engine.program.node.ends place ++ r.engine.program.node.ends place := by
  have hmodes : ∀ part ∈ [l, r], part.engine.mode = mode := by
    rw [List.forall_mem_cons, List.forall_mem_singleton]
    exact ⟨hleftMode, hrightMode⟩
  have hown : ∀ p ∈ ps, FitsIn mode.unicode p.words := by
    obtain ⟨p, q, rfl, hp, hq⟩ : ∃ p q, ps = [p, q] ∧ l.Words p ∧ r.Words q := by
      cases hps with
      | cons hp hps =>
        cases hps with
        | cons hq hps =>
          cases hps
          exact ⟨_, _, rfl, hp.1, hq.1⟩
    rw [List.forall_mem_cons, List.forall_mem_singleton]
    exact ⟨hleftMode ▸ hp.fits, hrightMode ▸ hq.fits⟩
  have hnumbers := numbers_of_words hps
  have hsettled := settled_of_words hps
  have hfits := (together_or hnumbers hsettled).1
  obtain ⟨-, hsource, -⟩ := native_of_union (fun _ hf => absurd hf List.not_mem_nil) hps hfits hunion
  have hlexed := hsource ▸ lexed_alternatives hnumbers hsettled hown
  have hcaptures : (ps.map PartWords.lexemes).flatMap captureNames =
      List.replicate (ps.flatMap PartWords.groupNames).length none :=
    (captureNames_alternatives 0 _).symm.trans (lexed_joined hfits).2
  have hne : ps.map PartWords.lexemes ≠ [] := by
    rw [Ne, List.map_eq_nil_iff]
    rintro rfl
    cases hps
  obtain ⟨p, hp, hgroups, hends⟩ := Program.exists_alternatives hne hlexed
    (by rwa [hcaptures, List.length_replicate])
    (distinctNames_of_none fun name hname => List.eq_of_mem_replicate (hcaptures ▸ hname))
    (@programs_of_words mode [l, r] ps hps hmodes)
  refine ⟨hlexed, p, hp, by rw [hgroups, hcaptures, List.length_replicate], fun place => ?_⟩
  rw [hends place, List.map_cons, List.map_singleton, List.flatMap_cons, List.flatMap_singleton]

/-- The skipper of numbered delimiters that match in the modes of the flags. -/
theorem exists_skips (hleft : l.Numbered) (hright : r.Numbered)
    (hleftMode : l.engine.mode = (NativeFlags.ofText flags).mode)
    (hrightMode : r.engine.mode = (NativeFlags.ofText flags).mode)
    (hnames : ((Needle.groupNames (.regex l) ++ Needle.groupNames (.regex r)).filterMap id).Nodup)
    (hfew : (Needle.groupNames (.regex l) ++ Needle.groupNames (.regex r)).length ≤ maxGroups)
    (hnodup : (flags.filter (· != 'y')).Nodup) (e : Char) :
    ∃ skipper, freshInertRuns e l r flags = .ok skipper ∧ ∀ global sticky labels,
      BalancedSearch.Skips ⟨l, r, some skipper, global, sticky, labels⟩ e (flags.contains 'i') := by
  have hgroups : [Needle.regex l, .regex r].flatMap Needle.groupNames =
      Needle.groupNames (.regex l) ++ Needle.groupNames (.regex r) := by
    rw [List.flatMap_cons, List.flatMap_singleton]
  rw [← hgroups] at hnames hfew
  obtain ⟨d, ps, -, hd, hps, hlisted, hfits, hstanding, -⟩ :=
    @exists_union [.regex l, .regex r] [] .or (List.cons_ne_nil _ _) (by
      rw [List.forall_mem_cons, List.forall_mem_singleton]
      exact ⟨hleft, hright⟩) hnames hfew (fun _ hf => absurd hf List.not_mem_nil) List.nodup_nil nofun
  obtain ⟨hlexed, p, hp, hcount, hends⟩ :=
    exists_delimiters hps hleftMode hrightMode hd (hlisted ▸ hfew)
  have hnone : ∀ name ∈ captureNames (unionLexemes .or (ps.map PartWords.lexemes)), name = none :=
    fun name hname => List.eq_of_mem_replicate ((lexed_joined hfits).2 ▸ hname)
  have hmovable : ∀ l ∈ unionLexemes .or (ps.map PartWords.lexemes), l.Movable p.groups := by
    intro l hl
    refine ⟨ne_namedRef_joined hfits l hl, ?_⟩
    rintro digits rfl
    exact hcount ▸ (references_joined hfits hstanding hl).2
  have hnodup' : (flags.filter fun c => c == 'i' || c == 'm' || c == 'u').Nodup := by
    have hfilter := hnodup.filter fun c => c == 'i' || c == 'm' || c == 'u'
    rw [List.filter_filter] at hfilter
    refine (List.filter_congr fun f _ => ?_) ▸ hfilter
    rw [Bool.eq_iff_iff]
    simp only [Bool.and_eq_true, Bool.or_eq_true, beq_iff_eq, bne_iff_ne, and_iff_left_iff_imp]
    rintro ((rfl | rfl) | rfl) <;> decide
  obtain ⟨skipper, hskipper, hprogram, hnext⟩ :=
    exists_freshInertRuns e hd hnodup' hlexed hnone hmovable hp
  refine ⟨skipper, hskipper, fun global sticky labels => ⟨skipper, p, rfl, hprogram, hnext, ?_⟩⟩
  exact fun place hplace => List.append_eq_nil_iff.1 ((hends place).symm.trans hplace)

/-- **An escape character that does not occur changes nothing.** In a fresh context, let the regexes of two
delimiters match in the modes that the flag string says, and let a union see their groups and references
(under flag `u` there may be no code points in braces), with no name given twice and not too many groups.
Then the answer for a text is the same with an escape character as without one, if no character of the
text is the escape character, or the same but for case where case is ignored. -/
theorem balanced_absent (h : c.Fresh) {left right : Text}
    (hl : freshRegex left (flags.filter (· != 'y')) = .ok l)
    (hr : freshRegex right (flags.filter (· != 'y')) = .ok r)
    (hleft : l.Numbered) (hright : r.Numbered)
    (hleftMode : l.engine.mode = (NativeFlags.ofText flags).mode)
    (hrightMode : r.engine.mode = (NativeFlags.ofText flags).mode)
    (hnames : ((Needle.groupNames (.regex l) ++ Needle.groupNames (.regex r)).filterMap id).Nodup)
    (hfew : (Needle.groupNames (.regex l) ++ Needle.groupNames (.regex r)).length ≤ maxGroups)
    {e : Char} {text : Text} (habsent : ∀ d ∈ text, sameChar (flags.contains 'i') e d = false)
    (labels : Option PartLabels) :
    (answer (balanced text left right flags (some e) labels) c).1 =
      (answer (balanced text left right flags none labels) c).1 := by
  have hnodup : (flags.filter (· != 'y')).Nodup := by
    obtain ⟨prepared, -, hprepare, -⟩ := segments_of_freshRegex hl
    exact KnownFlags.nodup_of_prepare hprepare
  obtain ⟨skipper, hskipper, hskips⟩ :=
    exists_skips hleft hright hleftMode hrightMode hnames hfew hnodup e
  have hwith : freshSearch left right flags (some e) =
      .ok ⟨l, r, some skipper, flags.contains 'g', flags.contains 'y', none⟩ := by
    refine bind_eq_ok.2 ⟨l, hl, bind_eq_ok.2 ⟨r, hr, bind_eq_ok.2 ⟨some skipper, ?_, rfl⟩⟩⟩
    rw [hskipper]
    rfl
  have hwithout : freshSearch left right flags none =
      .ok ⟨l, r, none, flags.contains 'g', flags.contains 'y', none⟩ :=
    bind_eq_ok.2 ⟨l, hl, bind_eq_ok.2 ⟨r, hr, rfl⟩⟩
  rw [answer_balanced ((h.answer_balancedSearch _ _ _ _).trans hwith),
    answer_balanced ((h.answer_balancedSearch _ _ _ _).trans hwithout)]
  exact BalancedSearch.run_of_absent (hskips _ _ labels) habsent

/-- Doubled brackets, of which the second one is a reference, with characters read as code points. -/
theorem balanced_absent_doubled :
    (answer (balanced "<<a>>".toList "(<)\\1".toList "(>)\\1".toList ['u'] (some '~') none)
      initial).1 =
    (answer (balanced "<<a>>".toList "(<)\\1".toList "(>)\\1".toList ['u'] none none) initial).1 := by
  obtain ⟨l, hl, hleft, hleftSource, hleftMode, hleftNames⟩ := @exists_numbered ['u']
    "(<)\\1".toList "(<)\\1".toList [none] (by simp) (by simp) rfl rfl rfl rfl rfl (by decide) rfl
  obtain ⟨r, hr, hright, hrightSource, hrightMode, hrightNames⟩ := @exists_numbered ['u']
    "(>)\\1".toList "(>)\\1".toList [none] (by simp) (by simp) rfl rfl rfl rfl rfl (by decide) rfl
  have hgroups : Needle.groupNames (.regex l) ++ Needle.groupNames (.regex r) = [none, none] := by
    simp only [Needle.groupNames, hleftNames, hrightNames, Regex.groupCount, hleftSource, hrightSource]
    rfl
  have hnames : ((Needle.groupNames (.regex l) ++ Needle.groupNames (.regex r)).filterMap id).Nodup := by
    rw [hgroups]
    exact List.nodup_nil
  have hfew : (Needle.groupNames (.regex l) ++ Needle.groupNames (.regex r)).length ≤ maxGroups := by
    rw [hgroups]
    decide
  have habsent : ∀ d ∈ "<<a>>".toList, sameChar (List.contains ['u'] 'i') '~' d = false := by
    show ∀ d ∈ ['<', '<', 'a', '>', '>'], ('~' == d) = false
    simp only [List.forall_mem_cons]
    exact ⟨rfl, rfl, rfl, rfl, rfl, fun _ h => absurd h List.not_mem_nil⟩
  have hfilter : ['u'].filter (· != 'y') = ['u'] := rfl
  have hmode : (Reader.nativeFlags ['u']).mode = (NativeFlags.ofText ['u']).mode := rfl
  rw [← hfilter] at hl hr
  rw [hmode] at hleftMode hrightMode
  exact balanced_absent fresh_initial hl hr hleft hright hleftMode hrightMode hnames hfew habsent none

/-- The skipper does not see that the left delimiter ignores case, and passes it. -/
theorem balanced_absent_modifier : '~' ∉ "xAb".toList ∧
    (answer (balanced "xAb".toList "(?i)a".toList ['b'] ['g'] none none) initial).1.map
      (List.map fun part => part.span.text) = .ok [[]] ∧
    (answer (balanced "xAb".toList "(?i)a".toList ['b'] ['g'] (some '~') none) initial).1 =
      .error .unbalanced := by
  let l : Regex := ⟨⟨['a'], ⟨true, false, false⟩, _, _, rfl, rfl⟩, true, false, none,
    some "(?i)a".toList, some (orderFlags ['g']), false⟩
  let r : Regex := ⟨⟨['b'], {}, _, _, rfl, rfl⟩, true, false, none, some ['b'],
    some (orderFlags ['g']), false⟩
  let d : Regex := ⟨⟨['a', '|', 'b'], {}, _, _, rfl, rfl⟩, false, false, none, some ['a', '|', 'b'],
    some (orderFlags []), false⟩
  let skipper : Regex := ⟨⟨Skipper.source ['~'] ['a', '|', 'b'], {}, _, _, rfl, rfl⟩, false, false, none,
    none, none, false⟩
  have hl : freshRegex "(?i)a".toList ['g'] = .ok l := by
    unfold freshRegex Reader.expansion
    rw [Dialect.initial_flags]
    rfl
  have hr : freshRegex ['b'] ['g'] = .ok r := by
    unfold freshRegex Reader.expansion
    rw [Dialect.initial_flags]
    rfl
  have hd : freshUnion [.regex l, .regex r] [] .or = .ok d := by
    unfold freshUnion writtenParts writtenPart freshRegex Reader.expansion
    rw [Dialect.initial_flags]
    rfl
  have hskipper : freshInertRuns '~' l r ['g'] = .ok skipper := by
    unfold freshInertRuns
    rw [hd]
    rfl
  have hplain : freshSearch "(?i)a".toList ['b'] ['g'] none = .ok ⟨l, r, none, true, false, none⟩ :=
    bind_eq_ok.2 ⟨l, hl, bind_eq_ok.2 ⟨r, hr, rfl⟩⟩
  have hskips : freshSearch "(?i)a".toList ['b'] ['g'] (some '~') =
      .ok ⟨l, r, some skipper, true, false, none⟩ := by
    refine bind_eq_ok.2 ⟨l, hl, bind_eq_ok.2 ⟨r, hr, bind_eq_ok.2 ⟨some skipper, ?_, rfl⟩⟩⟩
    rw [hskipper]
    rfl
  refine ⟨by decide, ?_, ?_⟩
  · rw [answer_balanced ((fresh_initial.answer_balancedSearch _ _ _ _).trans hplain)]
    rfl
  · rw [answer_balanced ((fresh_initial.answer_balancedSearch _ _ _ _).trans hskips)]
    rfl

end Context

end ExtensibleRegex
