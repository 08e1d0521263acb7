import ExtensibleRegex.Proofs.Balanced.Scan
import ExtensibleRegex.Proofs.Dialect.Fresh
import Mathlib.Tactic

/-!
# The parts of a text with balanced delimiters

A scan for all outermost pairs that reports every part of the text, each under its label, cuts the
text: the parts follow each other without a gap from the start of the text to its end
(`tiles_parts`, `tiles_trailing`), and those between outermost delimiters are what the same scan
reports without labels (`inner_roles`). `Context.balanced_parts` says this of the whole operation,
together with the fact that its scan ends.
-/

namespace ExtensibleRegex

/-! ## 1. Roles -/

/-- What a part of the text is. -/
inductive PartRole where
  | between
  | left
  | inner
  | right
  deriving DecidableEq, Repr

namespace PartLabels

/-- The label of a part of the text. -/
def of (ls : PartLabels) : PartRole → Option Text
  | .between => ls.between
  | .left => ls.left
  | .inner => ls.inner
  | .right => ls.right

/-- Labels for all parts. -/
def Complete (ls : PartLabels) : Prop := ∀ role, (ls.of role).isSome = true

/-- A part of the text with its label. -/
def mark (ls : PartLabels) (part : PartRole × Span) : BalancedPart := ⟨ls.of part.1, part.2⟩

end PartLabels

/-- The order of the parts of a text: pairs, and what lies before, between and after them. -/
inductive Layout : List PartRole → Prop
  | nil : Layout []
  | between : Layout [.between]
  | pair {roles : List PartRole} (h : Layout roles) : Layout (.left :: .inner :: .right :: roles)
  | pairBehind {roles : List PartRole} (h : Layout roles) :
      Layout (.between :: .left :: .inner :: .right :: roles)

namespace Pair

variable {ls : PartLabels}

/-- The text between a pair and the one before it, if there is any. -/
def gap (x : Pair) : List (PartRole × Span) :=
  if x.last.index < x.left.start.index then [(.between, ⟨x.last, x.left.start⟩)] else []

/-- The parts of the text up to the end of a pair, from the end of the one before it. -/
def roles (x : Pair) : List (PartRole × Span) :=
  x.gap ++ [(.left, x.left), (.inner, ⟨x.left.stop, x.right.start⟩), (.right, x.right)]

/-- With labels for all of them, all parts of a pair are reported. -/
theorem parts_eq_roles (hls : ls.Complete) (x : Pair) : x.parts (some ls) = x.roles.map ls.mark := by
  unfold parts pairParts roles gap
  simp only [if_pos (show ls.between.isSome = true from hls .between),
    if_pos (show ls.left.isSome = true from hls .left),
    if_pos (show ls.inner.isSome = true from hls .inner),
    if_pos (show ls.right.isSome = true from hls .right)]
  split <;> rfl

theorem tiles_gap {x : Pair} (hx : x.Ordered) :
    Tiles x.last (x.gap.map Prod.snd) x.left.start := by
  obtain ⟨w, hw⟩ := hx.before
  unfold gap
  by_cases hlt : x.last.index < x.left.start.index
  · rw [if_pos hlt]
    exact ⟨rfl, ⟨w, hw⟩, rfl⟩
  · rw [if_neg hlt]
    have hnil : w = [] := by
      by_contra hne
      exact hlt (hw.index_lt_iff.2 hne)
    exact (hnil ▸ hw).eq_of_nil

/-- The parts of a pair lead from the end of the one before it to its own end. -/
theorem tiles_roles {x : Pair} (hx : x.Ordered) :
    Tiles x.last (x.roles.map Prod.snd) x.right.stop := by
  unfold roles
  rw [List.map_append]
  exact tiles_append (tiles_gap hx) ⟨rfl, hx.left, rfl, hx.inner, rfl, hx.right, rfl⟩

theorem layout_roles (x : Pair) {rest : List PartRole} (h : Layout rest) :
    Layout (x.roles.map Prod.fst ++ rest) := by
  unfold roles gap
  split
  · exact .pairBehind h
  · exact .pair h

/-- What lies between the delimiters of a pair. -/
theorem inner_roles (x : Pair) :
    (x.roles.filter fun part => part.1 = .inner).map Prod.snd = [⟨x.left.stop, x.right.start⟩] := by
  unfold roles gap
  split <;> rfl

end Pair

/-! ## 2. Pairs one after another -/

/-- The parts of the text up to the end of the last pair. -/
def rolesOf (pairs : List Pair) : List (PartRole × Span) := pairs.flatMap Pair.roles

theorem tiles_rolesOf : ∀ {p q : Place} {pairs : List Pair}, Chain p pairs q →
    Tiles p ((rolesOf pairs).map Prod.snd) q
  | _, _, [], h => h
  | _, _, x :: xs, ⟨hlast, hordered, h⟩ => by
      rw [rolesOf, List.flatMap_cons, List.map_append]
      exact tiles_append (hlast ▸ Pair.tiles_roles hordered) (tiles_rolesOf h)

theorem layout_rolesOf {rest : List PartRole} (hrest : Layout rest) : ∀ pairs : List Pair,
    Layout ((rolesOf pairs).map Prod.fst ++ rest)
  | [] => hrest
  | x :: xs => by
      rw [rolesOf, List.flatMap_cons, List.map_append, List.append_assoc]
      exact x.layout_roles (layout_rolesOf hrest xs)

theorem parts_eq_rolesOf {ls : PartLabels} (hls : ls.Complete) : ∀ pairs : List Pair,
    pairs.flatMap (Pair.parts (some ls)) = (rolesOf pairs).map ls.mark
  | [] => rfl
  | x :: xs => by
      rw [rolesOf, List.flatMap_cons, List.flatMap_cons, List.map_append, x.parts_eq_roles hls,
        parts_eq_rolesOf hls xs]
      rfl

/-- **What lies between outermost delimiters** is what is reported without labels. -/
theorem inner_rolesOf : ∀ pairs : List Pair,
    ((rolesOf pairs).filter fun part => part.1 = .inner).map Prod.snd =
      (pairs.flatMap (Pair.parts none)).map BalancedPart.span
  | [] => rfl
  | x :: xs => by
      rw [rolesOf, List.flatMap_cons, List.filter_append, List.map_append, x.inner_roles,
        List.flatMap_cons, List.map_append]
      exact congrArg (_ ++ ·) (inner_rolesOf xs)

/-! ## 3. Runs -/

namespace BalancedSearch

/-- The scan at the start of a text. -/
def start (text : Text) : Scan :=
  ⟨some (.first text), 0, ⟨.first text, .first text⟩, .first text, []⟩

/-- What is reported where a scan has ended. -/
def result (b : BalancedSearch) (text : Text) : ScanOutcome → Except Error (List BalancedPart)
  | .running s => .ok (s.parts.reverse ++ b.trailingParts text s)
  | .finished s => .ok (s.parts.reverse ++ b.trailingParts text s)
  | .unbalanced => .error .unbalanced

variable {b : BalancedSearch} {text : Text}

theorem sound_start (text : Text) : (start text).Sound (.first text) [] :=
  ⟨rfl, fun _ hp _ => Option.some.inj hp ▸ ⟨[], .refl _⟩, fun _ _ hne => absurd rfl hne⟩

/-- A run is the scan up to the round that ends it. -/
theorem run_eq {n : Nat} {o : ScanOutcome} (h : b.Ends n (start text) o) (hn : n ≤ text.length + 2) :
    b.run text = b.result text o := by
  have hrounds : b.rounds (text.length + 2) (start text) = o := h.rounds_eq hn
  unfold start at hrounds
  unfold run
  simp only [hrounds]
  cases o <;> rfl

/-- **The scan of a text ends**, in a round that does not depend on what is reported. -/
theorem finish_start (b : BalancedSearch) (text : Text) :
    ∃ n ≤ text.length + 2, Finish b (.first text) [] n (start text) :=
  finish b (text.length + 1) (sound_start text) (Nat.le_refl _)

/-- The text after the last pair, if there is any. -/
def rest (text : Text) (s : Scan) : List (PartRole × Span) :=
  if s.last.atEnd then []
  else [(.between, ⟨s.last, (Place.first text).advance text.length⟩)]

theorem tiles_rest {s : Scan} (h : s.last.text = text) :
    Tiles s.last ((rest text s).map Prod.snd) ((Place.first text).advance text.length) := by
  subst h
  have hend := s.last.stretch_to_end
  unfold rest
  split
  · rename_i hatEnd
    have hnil : s.last.ahead = [] := by simpa [Place.atEnd] using hatEnd
    rw [hnil] at hend
    exact hend.eq_of_nil
  · exact ⟨rfl, ⟨_, hend⟩, rfl⟩

theorem layout_rest (text : Text) (s : Scan) : Layout ((rest text s).map Prod.fst) := by
  unfold rest
  split
  · exact .nil
  · exact .between

theorem inner_rest (text : Text) (s : Scan) :
    (rest text s).filter (fun part => part.1 = .inner) = [] := by
  unfold rest
  split <;> rfl

/-- The text after the last pair is reported where all pairs are looked for. -/
theorem trailingParts_eq_rest {ls : PartLabels} (hls : ls.Complete) {s : Scan}
    (hglobal : b.global = true) (hsticky : b.sticky = false) (hparts : s.parts ≠ []) :
    (b.reporting (some ls)).trailingParts text s = (rest text s).map ls.mark := by
  obtain ⟨label, hlabel⟩ := Option.isSome_iff_exists.1 (hls .between)
  have hbetween : ls.between = some label := hlabel
  unfold trailingParts rest reporting
  simp only [Option.bind_some, hbetween, hglobal, hsticky, List.isEmpty_eq_false_iff.2 hparts]
  cases s.last.atEnd with
  | true => rfl
  | false =>
    show _ = [ls.mark _]
    rw [PartLabels.mark, PartLabels.of, hbetween]
    rfl

/-- Nothing comes after the last pair where there is none. -/
theorem trailingParts_of_nil {s : Scan} (h : s.parts = []) : b.trailingParts text s = [] := by
  unfold trailingParts
  split
  · rw [h]
    exact if_neg (by simp)
  · rfl

/-- What a scan that shows its pairs reports. -/
theorem result_showing (labels : Option PartLabels) (s : Scan) (pairs : List Pair) :
    (b.reporting labels).result text (.finished (s.showing labels pairs)) =
      .ok (pairs.flatMap (Pair.parts labels) ++
        (b.reporting labels).trailingParts text (s.showing labels pairs)) := by
  show Except.ok ((pairs.flatMap (Pair.parts labels)).reverse.reverse ++ _) = _
  rw [List.reverse_reverse]

/-- **The parts of a run that reports all of them** cut the text, in pairs with text between them, and
the parts between delimiters are those of the run that reports nothing else. -/
theorem run_parts {ls : PartLabels} {parts : List BalancedPart} (hls : ls.Complete)
    (hglobal : b.global = true) (hsticky : b.sticky = false)
    (h : (b.reporting (some ls)).run text = .ok parts) (hne : parts ≠ []) :
    ∃ (roles : List (PartRole × Span)) (inner : List BalancedPart),
      (b.reporting none).run text = .ok inner ∧ parts = roles.map ls.mark ∧
      Layout (roles.map Prod.fst) ∧
      Tiles (.first text) (roles.map Prod.snd) ((Place.first text).advance text.length) ∧
      (roles.filter fun part => part.1 = .inner).map Prod.snd = inner.map BalancedPart.span := by
  obtain ⟨n, hn, hfinish⟩ := finish_start b text
  cases hfinish with
  | unbalanced hends =>
    rw [run_eq (hends (some ls)) hn] at h
    cases h
  | finished s pairs hsound hends =>
    rw [run_eq (hends (some ls)) hn, result_showing] at h
    have hshown : (s.showing (some ls) pairs).parts ≠ [] := by
      intro hnil
      have hflat : pairs.flatMap (Pair.parts (some ls)) = [] := List.reverse_eq_nil_iff.1 hnil
      rw [hflat, trailingParts_of_nil hnil] at h
      exact hne (Except.ok.inj h).symm
    rw [parts_eq_rolesOf hls, trailingParts_eq_rest hls hglobal hsticky hshown,
      ← List.map_append] at h
    have hlast : s.last.text = text := by
      obtain ⟨w, hw⟩ := hsound.chain.exists_stretch
      exact hw.text_eq
    refine ⟨rolesOf pairs ++ rest text s, pairs.flatMap (Pair.parts none), ?_,
      (Except.ok.inj h).symm, ?_, ?_, ?_⟩
    · rw [run_eq (hends none) hn, result_showing]
      exact congrArg Except.ok (List.append_nil _)
    · rw [List.map_append]
      exact layout_rolesOf (layout_rest text s) pairs
    · rw [List.map_append]
      exact tiles_append (tiles_rolesOf hsound.chain) (tiles_rest hlast)
    · rw [List.filter_append, inner_rest, List.append_nil]
      exact inner_rolesOf pairs

end BalancedSearch

/-! ## 4. Cuts -/

/-- Spans that cut a text: the first begins where the text does, each of the others where the one
before it ends, and the last ends where the text does. -/
structure Partition (text : Text) (spans : List Span) : Prop where
  first : spans.head?.map (fun s => s.start.offset) = some 0
  next : spans.IsChain fun s s' => s.stop = s'.start
  last : spans.getLast?.map (fun s => s.stop.offset) = some (byteLength text)
  text : spans.flatMap Span.text = text

theorem Tiles.isChain : ∀ {p q : Place} {ss : List Span}, Tiles p ss q →
    ss.IsChain fun s s' => s.stop = s'.start
  | _, _, [], _ => .nil
  | _, _, [_], _ => .singleton _
  | _, _, _ :: _ :: _, ⟨_, _, h⟩ => .cons_cons h.1.symm h.isChain

theorem Tiles.getLast? : ∀ {p q : Place} {ss : List Span}, Tiles p ss q → ss ≠ [] →
    ss.getLast?.map Span.stop = some q
  | _, _, [], _, hne => absurd rfl hne
  | _, _, [_], ⟨_, _, h⟩, _ => congrArg some h
  | _, _, _ :: s :: ss, ⟨_, _, h⟩, _ => h.getLast? (List.cons_ne_nil s ss)

/-- Spans that lead from the start of a text to its end cut the text. -/
theorem Tiles.partition {text : Text} {ss : List Span}
    (h : Tiles (.first text) ss ((Place.first text).advance text.length)) (hne : ss ≠ []) :
    Partition text ss := by
  have hend : (Place.first text).Stretch text ((Place.first text).advance text.length) :=
    (Place.first text).stretch_to_end
  refine ⟨?_, h.isChain, ?_, ?_⟩
  · obtain ⟨s, ss, rfl⟩ := List.exists_cons_of_ne_nil hne
    show some s.start.offset = some 0
    rw [h.1]
    rfl
  · have hlast := congrArg (Option.map Place.offset) (h.getLast? hne)
    rw [Option.map_map] at hlast
    refine hlast.trans (congrArg some ?_)
    rw [Place.offset_eq, hend.behind, byteLength_append, byteLength_reverse]
    rfl
  · exact List.append_cancel_right (h.stretch.ahead.symm.trans hend.ahead)

/-! ## 5. The whole operation -/

namespace Context

open BalancedSearch

/-- Sets up the scan of a text, without labels. -/
def balancedSearch (left right flags : Text) (escapeChar : Option Char) :
    ContextM BalancedSearch := do
  let basic := flags.filter (· != 'y')
  let left ← regex left basic
  let right ← regex right basic
  let skipper ← (match escapeChar with
    | some c => some <$> inertRuns c left right flags
    | none => pure none : ContextM (Option Regex))
  return ⟨left, right, skipper, flags.contains 'g', flags.contains 'y', none⟩

variable {c : Context} {text left right flags : Text} {escapeChar : Option Char}

/-- In a fresh context, the scan without an escape character is for two regexes. -/
theorem Fresh.answer_balancedSearch_none (h : c.Fresh) (left right flags : Text) :
    (answer (balancedSearch left right flags none) c).1 = (do
      let l ← freshRegex left (flags.filter (· != 'y'))
      let r ← freshRegex right (flags.filter (· != 'y'))
      return ⟨l, r, none, flags.contains 'g', flags.contains 'y', none⟩) := by
  obtain ⟨hleft, hfresh⟩ := h.answer_freshRegex left (flags.filter (· != 'y'))
  unfold balancedSearch
  rw [answer_bind]
  generalize answer (regex left (flags.filter (· != 'y'))) c = first at hleft hfresh
  obtain ⟨first, c'⟩ := first
  simp only at hleft hfresh ⊢
  rw [← hleft]
  cases first with
  | error e => rfl
  | ok l =>
    obtain ⟨hright, -⟩ := hfresh.answer_freshRegex right (flags.filter (· != 'y'))
    simp only [answer_bind]
    generalize answer (regex right (flags.filter (· != 'y'))) c' = second at hright
    obtain ⟨second, c''⟩ := second
    simp only at hright ⊢
    rw [← hright]
    cases second <;> rfl

/-- The operation sets up a scan, and reports what the scan leads to. -/
theorem balanced_eq (text left right flags : Text) (escapeChar : Option Char)
    (labels : Option PartLabels) :
    balanced text left right flags escapeChar labels = (do
      let b ← balancedSearch left right flags escapeChar
      (b.reporting labels).run text) := by
  unfold balanced balancedSearch
  cases escapeChar with
  | none =>
    simp only [bind_assoc, pure_bind]
    rfl
  | some e =>
    simp only [bind_assoc, pure_bind]
    rfl

/-- In a fresh context, the operation without an escape character scans for two regexes. -/
theorem Fresh.answer_balanced_none (h : c.Fresh) (text left right flags : Text)
    (labels : Option PartLabels) :
    (answer (balanced text left right flags none labels) c).1 = (do
      let l ← freshRegex left (flags.filter (· != 'y'))
      let r ← freshRegex right (flags.filter (· != 'y'))
      BalancedSearch.run ⟨l, r, none, flags.contains 'g', flags.contains 'y', labels⟩ text) := by
  have hsearch := h.answer_balancedSearch_none left right flags
  rw [balanced_eq, answer_bind]
  generalize answer (balancedSearch left right flags none) c = found at hsearch
  obtain ⟨found, c'⟩ := found
  simp only at hsearch ⊢
  subst hsearch
  cases freshRegex left (flags.filter (· != 'y')) with
  | error e => rfl
  | ok l =>
    cases freshRegex right (flags.filter (· != 'y')) with
    | error e => rfl
    | ok r => exact congrArg Prod.fst (answer_lift _ c')

/-- Whatever is to be reported, the scan is the one that was set up. -/
theorem answer_balanced {b : BalancedSearch}
    (hb : (answer (balancedSearch left right flags escapeChar) c).1 = .ok b) (text : Text)
    (labels : Option PartLabels) :
    (answer (balanced text left right flags escapeChar labels) c).1 =
      (b.reporting labels).run text := by
  rw [balanced_eq, answer_bind]
  generalize answer (balancedSearch left right flags escapeChar) c = found at hb
  obtain ⟨found, c'⟩ := found
  obtain rfl : found = .ok b := hb
  simp only [answer_lift]

theorem answer_balanced_eq_ok {labels : Option PartLabels} {parts : List BalancedPart} :
    (answer (balanced text left right flags escapeChar labels) c).1 = .ok parts ↔
      ∃ b, (answer (balancedSearch left right flags escapeChar) c).1 = .ok b ∧
        (b.reporting labels).run text = .ok parts := by
  rw [balanced_eq, answer_bind_eq_ok]
  simp only [answer_lift]

/-- The flags that a scan looks at. -/
theorem flags_of_balancedSearch {b : BalancedSearch}
    (h : (answer (balancedSearch left right flags escapeChar) c).1 = .ok b) :
    b.global = flags.contains 'g' ∧ b.sticky = flags.contains 'y' := by
  unfold balancedSearch at h
  obtain ⟨_, _, h⟩ := answer_bind_eq_ok.1 h
  obtain ⟨_, _, h⟩ := answer_bind_eq_ok.1 h
  obtain ⟨_, _, h⟩ := answer_bind_eq_ok.1 h
  cases h
  exact ⟨rfl, rfl⟩

/-- A label that no other part has picks the parts that are it. -/
theorem filter_mark {ls : PartLabels} {role : PartRole}
    (h : ∀ role', ls.of role' = ls.of role → role' = role) (roles : List (PartRole × Span)) :
    ((roles.map ls.mark).filter fun part => part.label = ls.of role).map BalancedPart.span =
      (roles.filter fun part => part.1 = role).map Prod.snd := by
  have hlabel (part : PartRole × Span) : (ls.mark part).label = ls.of role ↔ part.1 = role :=
    ⟨h part.1, fun heq => congrArg ls.of heq⟩
  rw [List.filter_map, List.map_map]
  exact congrArg (List.map Prod.snd)
    (List.filter_congr fun part _ => decide_eq_decide.2 (hlabel part))

/-- **Balanced delimiters.** The scan of a text ends, whatever the delimiters are. With flag `g`,
without flag `y` and with labels for all parts, a result that is not empty cuts the text: its parts
are pairs with text between them, and those between the delimiters of pairs are, in order, the result
without labels. -/
theorem balanced_parts (c : Context) (text left right flags : Text) (escapeChar : Option Char) :
    (∀ b, (answer (balancedSearch left right flags escapeChar) c).1 = .ok b → ∀ labels,
      ∃ n o, n ≤ text.length + 2 ∧ (b.reporting labels).Ends n (start text) o ∧
        (answer (balanced text left right flags escapeChar labels) c).1 =
          (b.reporting labels).result text o) ∧
    ∀ ls parts, 'g' ∈ flags → 'y' ∉ flags → ls.Complete →
      (answer (balanced text left right flags escapeChar (some ls)) c).1 = .ok parts → parts ≠ [] →
      Partition text (parts.map BalancedPart.span) ∧
      ∃ inner, (answer (balanced text left right flags escapeChar none) c).1 = .ok inner ∧
        (∃ roles : List (PartRole × Span), parts = roles.map ls.mark ∧ Layout (roles.map Prod.fst) ∧
          (roles.filter fun part => part.1 = .inner).map Prod.snd = inner.map BalancedPart.span) ∧
        ((∀ role, ls.of role = ls.inner → role = .inner) →
          (parts.filter fun part => part.label = ls.inner).map BalancedPart.span =
            inner.map BalancedPart.span) := by
  constructor
  · intro b hb labels
    have hanswer := answer_balanced hb text labels
    obtain ⟨n, hn, hfinish⟩ := finish_start b text
    cases hfinish with
    | unbalanced hends => exact ⟨n, _, hn, hends labels, hanswer.trans (run_eq (hends labels) hn)⟩
    | finished s pairs _ hends =>
      exact ⟨n, _, hn, hends labels, hanswer.trans (run_eq (hends labels) hn)⟩
  · intro ls parts hg hy hls hparts hne
    obtain ⟨b, hb, hrun⟩ := answer_balanced_eq_ok.1 hparts
    obtain ⟨hglobal, hsticky⟩ := flags_of_balancedSearch hb
    obtain ⟨roles, inner, hinner, rfl, hlayout, htiles, hroles⟩ := run_parts hls
      (hglobal.trans (by simpa using hg)) (hsticky.trans (by simpa using hy)) hrun hne
    have hspans : (roles.map ls.mark).map BalancedPart.span = roles.map Prod.snd := by
      rw [List.map_map]
      rfl
    refine ⟨?_, inner, answer_balanced_eq_ok.2 ⟨b, hb, hinner⟩, ⟨roles, rfl, hlayout, hroles⟩, ?_⟩
    · rw [hspans]
      refine htiles.partition fun hnil => hne ?_
      rw [List.map_eq_nil_iff.1 hnil]
      rfl
    · intro hlabel
      exact (@filter_mark _ .inner hlabel roles).trans hroles

/-- The parts of `a(b(c))`: text before a pair, and the pair with what it encloses. -/
theorem balanced_parts_nested :
    ∃ parts inner, (answer (balanced "a(b(c))".toList "\\(".toList "\\)".toList ['g'] none
        (some ⟨some ['o'], some ['l'], some ['i'], some ['r']⟩)) initial).1 = .ok parts ∧
      parts.map (fun part => part.span.text) = ["a".toList, "(".toList, "b(c)".toList, ")".toList] ∧
      Partition "a(b(c))".toList (parts.map BalancedPart.span) ∧
      (answer (balanced "a(b(c))".toList "\\(".toList "\\)".toList ['g'] none none) initial).1 =
        .ok inner ∧
      (parts.filter fun part => part.label = some ['i']).map BalancedPart.span =
        inner.map BalancedPart.span := by
  have hvalue : (answer (balanced "a(b(c))".toList "\\(".toList "\\)".toList ['g'] none
      (some ⟨some ['o'], some ['l'], some ['i'], some ['r']⟩)) initial).1.toOption.map
        (fun parts => parts.map fun part => part.span.text) =
      some ["a".toList, "(".toList, "b(c)".toList, ")".toList] := by
    rw [fresh_initial.answer_balanced_none]
    decide +kernel
  obtain ⟨parts, hsome, htexts⟩ := Option.map_eq_some_iff.1 hvalue
  have hparts := eq_ok_of_toOption hsome
  have hcomplete : PartLabels.Complete ⟨some ['o'], some ['l'], some ['i'], some ['r']⟩ := by
    intro role
    cases role <;> rfl
  have hne : parts ≠ [] := by
    rintro rfl
    cases htexts
  obtain ⟨hpartition, inner, hinner, -, hlabels⟩ := (balanced_parts initial "a(b(c))".toList
    "\\(".toList "\\)".toList ['g'] none).2 _ parts (by decide) (by decide) hcomplete hparts hne
  refine ⟨parts, inner, hparts, htexts, hpartition, hinner, hlabels fun role hrole => ?_⟩
  cases role with
  | inner => rfl
  | between => exact absurd hrole (by decide)
  | left => exact absurd hrole (by decide)
  | right => exact absurd hrole (by decide)

end Context

end ExtensibleRegex
