import ExtensibleRegex.Proofs.Native.Dollar
import ExtensibleRegex.Proofs.Native.Shifting
import Mathlib.Tactic

/-!
# Patterns between anchors

A pattern can stand between two anchors as it is, or in a group. Without the group the first anchor
belongs to the first alternative only, and the second one to the last:

* the lexemes of a pattern behind a term are read as they are alone, with the term in front of the first
  alternative (`Progress.readAll?_behind`);
* so a place where the pattern matches in a group between the anchors is one where it matches between
  them (`Progress.ends_between`), though not by the same match;
* **a pattern of one alternative matches the same in both cases** (`Progress.run_between`, and
  `exists_program_enclosed` for whole patterns).
-/

namespace ExtensibleRegex.Native

/-! ## 1. Terms in front of the first alternative -/

/-- The nodes of a list one after another, and a node behind them. -/
def Node.led (ns : List Node) (n : Node) : Node := ns.foldr .seq n

theorem Node.led_seqOf (ns ms : List Node) : Node.led ns (.seqOf ms) = .seqOf (ns ++ ms) :=
  List.foldr_append.symm

/-- Alternatives, latest first, the first one of them behind other nodes. -/
def leadFirst (ns : List Node) : List Node → List Node
  | [] => []
  | [first] => [Node.led ns first]
  | last :: before :: earlier => last :: leadFirst ns (before :: earlier)

/-- The terms of an alternative, latest first, behind other ones if it is the first alternative. -/
def leadTerms (ts : List Term) : (alternatives : List Node) → List Term → List Term
  | [], terms => terms ++ ts
  | _ :: _, terms => terms

/-- What has been read of the innermost group and of those around it, with other terms in front of what
has been read outside of all groups. -/
def leadOutermost (ts : List Term) : List Node → List Term → List Frame →
    (List Node × List Term) × List Frame
  | alternatives, terms, [] =>
    ((leadFirst (ts.reverse.map Term.node) alternatives, leadTerms ts alternatives terms), [])
  | alternatives, terms, f :: frames =>
    let outer := leadOutermost ts f.alternatives f.terms frames
    ((alternatives, terms),
      { f with alternatives := outer.1.1, terms := outer.1.2 } :: outer.2)

theorem mem_leadFirst {ns : List Node} {n : Node} : ∀ {alternatives : List Node},
    n ∈ alternatives →
    n ∈ leadFirst ns alternatives ∨ Node.led ns n ∈ leadFirst ns alternatives
  | [_], h => by
      obtain rfl := List.mem_singleton.1 h
      exact .inr (List.mem_singleton_self _)
  | last :: before :: earlier, h => by
      rcases List.mem_cons.1 h with rfl | h
      · exact .inl List.mem_cons_self
      · exact (mem_leadFirst h).imp (List.mem_cons_of_mem _) (List.mem_cons_of_mem _)

namespace Progress

variable {ts : List Term} {g : Grammar} {p : Progress}

/-- A pass that has read other terms before the pattern. -/
def behind (ts : List Term) (p : Progress) : Progress :=
  let r := leadOutermost ts p.alternatives p.terms p.frames
  { p with alternatives := r.1.1, terms := r.1.2, frames := r.2 }

theorem behind_push (node : Node) (repeatable : Bool) :
    (p.push node repeatable).behind ts = (p.behind ts).push node repeatable := by
  obtain ⟨groups, modes, alternatives, terms, frames⟩ := p
  cases frames with
  | nil => cases alternatives <;> rfl
  | cons f frames => rfl

theorem behind_literal (n : Nat) : (p.literal n).behind ts = (p.behind ts).literal n :=
  behind_push _ true

theorem behind_literals : ∀ (ds : Text) (p : Progress),
    (ds.foldl (fun p d => p.literal d.toNat) p).behind ts =
      ds.foldl (fun p d => p.literal d.toNat) (p.behind ts)
  | [], _ => rfl
  | d :: ds, p => by
      rw [List.foldl_cons, List.foldl_cons, behind_literals ds, behind_literal]

theorem behind_bar : p.bar.behind ts = (p.behind ts).bar := by
  obtain ⟨groups, modes, alternatives, terms, frames⟩ := p
  cases frames with
  | cons f frames => rfl
  | nil =>
    cases alternatives with
    | cons last earlier => rfl
    | nil =>
      have hcurrent : Node.led (ts.reverse.map Term.node) (.seqOf (terms.reverse.map Term.node)) =
          .seqOf ((terms ++ ts).reverse.map Term.node) := by
        rw [Node.led_seqOf, List.reverse_append, List.map_append]
      exact congrArg (fun n => (⟨groups, modes, [n], [], []⟩ : Progress)) hcurrent

theorem behind_openGroup (kind : Opening) :
    (p.openGroup kind).behind ts = (p.behind ts).openGroup kind := by
  cases kind <;> rfl

theorem closeGroup?_behind (strict : Bool) :
    (p.behind ts).closeGroup? strict = (p.closeGroup? strict).map (behind ts) := by
  obtain ⟨groups, modes, alternatives, terms, frames⟩ := p
  cases frames with
  | nil => rfl
  | cons f frames =>
    cases frames with
    | nil =>
      obtain ⟨kind, group, before, modes', alternatives', terms'⟩ := f
      cases alternatives' <;> rfl
    | cons f' frames => rfl

/-- A quantifier behind a term that cannot be repeated is refused in both cases. -/
theorem repeatLast?_behind (hts : ∀ t ∈ ts.head?, t.repeatable = false) (min : Nat)
    (max : Option Nat) (greedy : Bool) :
    (p.behind ts).repeatLast? min max greedy =
      (p.repeatLast? min max greedy).map (behind ts) := by
  obtain ⟨groups, modes, alternatives, terms, frames⟩ := p
  cases terms with
  | cons t terms =>
    have hrepeat (alternatives : List Node) (terms : List Term) (frames : List Frame) :
        (⟨groups, modes, alternatives, t :: terms, frames⟩ : Progress).repeatLast? min max greedy =
          if t.repeatable then some ⟨groups, modes, alternatives,
            ⟨.loop t.node min max greedy ⟨t.before, groups - t.before⟩, false, t.before⟩ :: terms,
            frames⟩
          else none := rfl
    cases frames with
    | nil =>
      cases alternatives <;>
      · rw [hrepeat]
        refine (hrepeat _ _ _).trans ?_
        cases t.repeatable <;> rfl
    | cons f frames =>
      rw [hrepeat]
      refine (hrepeat _ _ _).trans ?_
      cases t.repeatable <;> rfl
  | nil =>
    cases frames with
    | cons f frames => rfl
    | nil =>
      cases alternatives with
      | cons last earlier => rfl
      | nil =>
        cases ts with
        | nil => rfl
        | cons t ts =>
          show (if t.repeatable then _ else none) = none
          rw [hts t rfl, if_neg Bool.false_ne_true]

theorem decimal?_behind (digits : Text) :
    decimal? g (p.behind ts) digits = (decimal? g p digits).map (behind ts) := by
  unfold decimal?
  simp only
  by_cases hreference : readDigits 10 digits ≤ g.names.length
  · rw [if_pos hreference, if_pos hreference, Option.map_some, behind_push]
    rfl
  rw [if_neg hreference, if_neg hreference]
  by_cases hstrict : g.strict = true
  · rw [if_pos hstrict, if_pos hstrict, Option.map_none]
  rw [if_neg hstrict, if_neg hstrict]
  cases digits with
  | nil => rfl
  | cons d ds => rw [Option.map_some, behind_literals, behind_literal]

/-- **A lexeme is read behind other terms as it is alone**, if no quantifier may follow those. -/
theorem read?_behind (hts : ∀ t ∈ ts.head?, t.repeatable = false) (l : Lexeme) :
    (p.behind ts).read? g l = (p.read? g l).map (behind ts) := by
  cases l with
  | decimal digits => exact decimal?_behind digits
  | namedRef name =>
    simp only [read?]
    cases g.names.findIdx? (· == some name) with
    | none => rfl
    | some i => exact congrArg some (behind_push _ true).symm
  | opening kind => exact congrArg some (behind_openGroup kind).symm
  | close => exact closeGroup?_behind g.strict
  | bar => exact congrArg some behind_bar.symm
  | quantifier min max greedy => exact repeatLast?_behind hts min max greedy
  | literal n => exact congrArg some (behind_literal n).symm
  | any => exact congrArg some (behind_push _ true).symm
  | set negated members => exact congrArg some (behind_push _ true).symm
  | lineStart => exact congrArg some (behind_push _ false).symm
  | lineEnd => exact congrArg some (behind_push _ false).symm
  | boundary negated => exact congrArg some (behind_push _ true).symm

/-- **So are all lexemes of a pattern.** -/
theorem readAll?_behind (hts : ∀ t ∈ ts.head?, t.repeatable = false) :
    ∀ (ls : List Lexeme) (p : Progress),
    readAll? g (p.behind ts) ls = (readAll? g p ls).map (behind ts)
  | [], _ => rfl
  | l :: ls, p => by
      simp only [readAll?, read?_behind hts]
      cases p.read? g l with
      | none => rfl
      | some q => exact readAll?_behind hts ls q

theorem frames_behind : (p.behind ts).frames = [] ↔ p.frames = [] := by
  obtain ⟨groups, modes, alternatives, terms, frames⟩ := p
  cases frames with
  | nil => exact ⟨fun _ => rfl, fun _ => rfl⟩
  | cons f frames =>
    exact ⟨fun h => absurd h (List.cons_ne_nil _ _), fun h => absurd h (List.cons_ne_nil _ _)⟩

/-! ## 2. Patterns of one alternative -/

/-- The alternatives outside of all groups that are over. -/
def outermost : List Node → List Frame → List Node
  | alternatives, [] => alternatives
  | _, f :: frames => outermost f.alternatives frames

end Progress

/-- How many groups are open after a lexeme. -/
def Lexeme.depthAfter (depth : Nat) : Lexeme → Nat
  | .opening _ => depth + 1
  | .close => depth - 1
  | _ => depth

/-- No bar stands outside of the groups, of which `depth` are open before the lexemes. -/
def undivided : (depth : Nat) → List Lexeme → Bool
  | _, [] => true
  | depth, l :: ls => (l != .bar || depth != 0) && undivided (l.depthAfter depth) ls

namespace Progress

variable {g : Grammar} {p q : Progress}

/-- A lexeme that is no bar outside of all groups adds no alternative there. -/
theorem outermost_read {l : Lexeme} (h : p.read? g l = some q)
    (hl : (l != .bar || p.frames.length != 0) = true) :
    q.frames.length = l.depthAfter p.frames.length ∧
      outermost q.alternatives q.frames = outermost p.alternatives p.frames := by
  have hliteral (ds : Text) : ∀ p : Progress,
      (ds.foldl (fun p d => p.literal d.toNat) p).frames.length = p.frames.length ∧
        outermost (ds.foldl (fun p d => p.literal d.toNat) p).alternatives
          (ds.foldl (fun p d => p.literal d.toNat) p).frames =
            outermost p.alternatives p.frames := by
    induction ds with
    | nil => exact fun _ => ⟨rfl, rfl⟩
    | cons d ds ih => exact fun p => ih (p.literal d.toNat)
  cases l with
  | decimal digits =>
    simp only [read?, decimal?] at h
    split at h
    · cases h; exact ⟨rfl, rfl⟩
    split at h
    · cases h
    cases digits with
    | nil => cases h; exact ⟨rfl, rfl⟩
    | cons d ds => cases h; exact hliteral _ (p.literal _)
  | namedRef name =>
    simp only [read?] at h
    split at h
    · cases h; exact ⟨rfl, rfl⟩
    · cases h
  | close =>
    simp only [read?, closeGroup?] at h
    cases hframes : p.frames with
    | nil => rw [hframes] at h; cases h
    | cons f frames => rw [hframes] at h; cases h; exact ⟨rfl, rfl⟩
  | quantifier min max greedy =>
    simp only [read?, repeatLast?] at h
    split at h
    · cases h
    · split at h
      · cases h; exact ⟨rfl, rfl⟩
      · cases h
  | bar =>
    cases h
    cases hframes : p.frames with
    | nil => rw [hframes] at hl; cases hl
    | cons f frames =>
      have hbar : p.bar.frames = f :: frames := hframes
      rw [hbar]
      exact ⟨rfl, rfl⟩
  | opening kind => cases h; exact ⟨rfl, rfl⟩
  | literal n => cases h; exact ⟨rfl, rfl⟩
  | any => cases h; exact ⟨rfl, rfl⟩
  | set negated members => cases h; exact ⟨rfl, rfl⟩
  | lineStart => cases h; exact ⟨rfl, rfl⟩
  | lineEnd => cases h; exact ⟨rfl, rfl⟩
  | boundary negated => cases h; exact ⟨rfl, rfl⟩

/-- **Where no bar stands outside of all groups no alternative is added there.** -/
theorem outermost_readAll : ∀ {ls : List Lexeme} {p q : Progress}, readAll? g p ls = some q →
    undivided p.frames.length ls = true →
    outermost q.alternatives q.frames = outermost p.alternatives p.frames
  | [], _, _, h, _ => by
      cases h
      rfl
  | l :: ls, p, q, h, hls => by
      simp only [readAll?] at h
      rw [undivided, Bool.and_eq_true] at hls
      cases hl : p.read? g l with
      | none => rw [hl] at h; cases h
      | some r =>
        rw [hl] at h
        obtain ⟨hdepth, hsame⟩ := outermost_read hl hls.1
        rw [outermost_readAll h (hdepth ▸ hls.2), hsame]

end Progress

/-! ## 3. Ways between anchors -/

namespace Node

theorem ends_start (n : Node) (place : Place) : (Node.seq (.start false) n).ends place =
    if atStart false place then n.ends place else [] := by
  unfold ends
  simp only [paths]
  split <;> simp

theorem paths_seqOf_stop : ∀ (ns : List Node) (t : Track),
    (seqOf (ns ++ [Node.stop false])).paths .forward t =
      ((seqOf ns).paths .forward t).filter fun u => atStop false u.place
  | [], t => by
      show (Node.seq (.stop false) .empty).paths .forward t = [t].filter _
      simp only [paths]
      cases hstop : atStop false t.place <;> simp [hstop]
  | n :: ns, t => by
      show (Node.seq n (seqOf (ns ++ [Node.stop false]))).paths .forward t =
        ((Node.seq n (seqOf ns)).paths .forward t).filter _
      simp only [paths, List.filter_flatMap]
      exact congrArg (List.flatMap · _) (funext (paths_seqOf_stop ns))

theorem ends_seqOf_stop (ns : List Node) (place : Place) :
    (seqOf (ns ++ [Node.stop false])).ends place = ((seqOf ns).ends place).filter (atStop false) := by
  unfold ends
  rw [paths_seqOf_stop, List.filter_map]
  rfl

theorem ends_whole (n : Node) (place : Place) : n.whole.ends place =
    if atStart false place then (n.ends place).filter (atStop false) else [] := by
  have hstop := ends_seqOf_stop [n] place
  rw [show (seqOf [n]).ends place = n.ends place by
    unfold ends
    simp only [seqOf, List.foldr_cons, List.foldr_nil, paths, List.flatMap_singleton']] at hstop
  rw [← hstop]
  exact ends_start _ place

end Node

namespace Progress

variable {r : Progress}

/-- A pass over a pattern and the anchors around it. -/
def between (r : Progress) : Progress :=
  (r.behind [⟨.start false, false, 0⟩]).push (.stop false) false

theorem choices_between (h : r.frames = []) (hsome : r.alternatives ≠ []) :
    r.between.choices = .seqOf (r.terms.reverse.map Term.node ++ [Node.stop false]) ::
      leadFirst [.start false] r.alternatives := by
  obtain ⟨groups, modes, alternatives, terms, frames⟩ := r
  cases h
  cases alternatives with
  | nil => exact absurd rfl hsome
  | cons last earlier =>
    have hterms : (⟨.stop false, false, groups⟩ :: terms).reverse.map Term.node =
        terms.reverse.map Term.node ++ [Node.stop false] := by
      rw [List.reverse_cons, List.map_append]
      rfl
    exact congrArg (fun ns => Node.seqOf ns :: _) hterms

/-- A pattern of one alternative is read as one sequence with its anchors. -/
theorem body_between (h : r.frames = []) (hone : r.alternatives = []) : r.between.body =
    .seqOf ([Node.start false] ++ (r.terms.reverse.map Term.node ++ [Node.stop false])) := by
  obtain ⟨groups, modes, alternatives, terms, frames⟩ := r
  cases h
  cases hone
  have hterms : (⟨.stop false, false, groups⟩ :: (terms ++ [⟨.start false, false, 0⟩])).reverse.map
      Term.node = [Node.start false] ++ (terms.reverse.map Term.node ++ [Node.stop false]) := by
    rw [List.reverse_cons, List.reverse_append, List.map_append, List.map_append, List.append_assoc]
    rfl
  exact congrArg Node.seqOf hterms

theorem body_of_alone (hone : r.alternatives = []) :
    r.body = .seqOf (r.terms.reverse.map Term.node) := by
  unfold body
  rw [hone]
  rfl

/-- **A pattern of one alternative matches between anchors as it does in a group between them.** -/
theorem run_between (h : r.frames = []) (hone : r.alternatives = []) :
    r.between.body.run = r.body.whole.run := by
  rw [body_between h hone, body_of_alone hone]
  generalize r.terms.reverse.map Term.node = ns
  show (Node.seqOf ([Node.start false] ++ (ns ++ [Node.stop false]))).run =
    (Node.seqOf ([Node.start false] ++ ([Node.seqOf ns] ++ [Node.stop false]))).run
  have hgroup : (Node.seqOf ns).run = (Node.seqOf [.seqOf ns]).run := (Node.run_seqOf_singleton _).symm
  exact Node.run_seqOf_append_congr rfl (Node.run_seqOf_append_congr hgroup rfl)

/-- **A match of a pattern in a group between anchors** is found between them without the group: in the
first alternative, which keeps the first anchor, or in the last one, which keeps the second, or in one
that has no anchor at all. -/
theorem ends_between (h : r.frames = []) {place : Place} (hne : r.body.whole.ends place ≠ []) :
    r.between.body.ends place ≠ [] := by
  rw [Node.ends_whole] at hne
  split at hne
  · rename_i hstart
    obtain ⟨q, hq⟩ := List.exists_mem_of_ne_nil _ hne
    obtain ⟨hq, hstop⟩ := List.mem_filter.1 hq
    by_cases hone : r.alternatives = []
    · rw [body_between h hone]
      show (Node.seq (.start false) (.seqOf (_ ++ [Node.stop false]))).ends place ≠ []
      rw [Node.ends_start, if_pos hstart, Node.ends_seqOf_stop, ← body_of_alone hone]
      exact hne
    · rw [ends_body, List.mem_flatMap] at hq
      obtain ⟨n, hn, hq⟩ := hq
      rw [List.mem_reverse, choices, List.mem_cons] at hn
      have hfound {n' : Node} (hn' : n' ∈ r.between.choices) (hends : q ∈ n'.ends place) :
          r.between.body.ends place ≠ [] := by
        rw [ends_body]
        exact List.ne_nil_of_mem (List.mem_flatMap.2 ⟨n', List.mem_reverse.2 hn', hends⟩)
      rw [choices_between h hone] at hfound
      rcases hn with rfl | hn
      · refine hfound List.mem_cons_self ?_
        rw [Node.ends_seqOf_stop]
        exact List.mem_filter.2 ⟨hq, hstop⟩
      · rcases mem_leadFirst hn with hn | hn
        · exact hfound (List.mem_cons_of_mem _ hn) hq
        · refine hfound (List.mem_cons_of_mem _ hn) ?_
          show q ∈ (Node.seq (.start false) n).ends place
          rw [Node.ends_start, if_pos hstart]
          exact hq
  · exact absurd rfl hne

end Progress

/-- A program finds something where another one does, if it matches wherever that one matches. -/
theorem Program.isSome_search?_of_ends {a b : Program}
    (h : ∀ place, a.node.ends place ≠ [] → b.node.ends place ≠ []) (place : Place)
    (ha : (a.search? place).isSome = true) : (b.search? place).isSome = true := by
  obtain ⟨f, hf⟩ := Option.isSome_iff_exists.1 ha
  obtain ⟨n, hle, hmatch, -⟩ := search?_eq_some hf
  by_contra hnone
  rw [Bool.not_eq_true, Option.isSome_eq_false_iff, Option.isNone_iff_eq_none] at hnone
  refine h _ (fun hends => ?_) (matchAt?_eq_none_iff.1 (search?_eq_none hnone n hle))
  rw [matchAt?_eq_none_iff.2 hends] at hmatch
  cases hmatch

/-! ## 4. Whole patterns -/

/-- A pattern between anchors. -/
def betweenAnchors (t : Text) : Text := '^' :: (t ++ ['$'])

/-- A pattern in a group between anchors. -/
def enclosed (t : Text) : Text := '^' :: '(' :: '?' :: ':' :: (t ++ [')', '$'])

/-- A pattern without a bar outside of its groups. -/
def Undivided (mode : Mode) (t : Text) : Prop :=
  ∀ ls, lexemes? mode.unicode t = some ls → undivided 0 ls = true

section Lexemes

variable {strict named : Bool} {t : Text}

theorem lexAll?_betweenAnchors (h : Spot.outside.after t = .outside) :
    lexAll? strict named 0 (betweenAnchors t) [] =
      (lexAll? strict named 0 t []).map fun ls => .lineStart :: (ls ++ [Lexeme.lineEnd]) := by
  show lexAll? strict named 0 (t ++ ['$']) [.lineStart] = _
  rw [lexAll?_read, lexAll?_dollar h, Option.map_map]
  rfl

theorem lexAll?_enclosed (h : Spot.outside.after t = .outside) :
    lexAll? strict named 0 (enclosed t) [] = (lexAll? strict named 0 t []).map fun ls =>
      .lineStart :: .opening (.plain [] []) :: (ls ++ [Lexeme.close, .lineEnd]) := by
  have hinert : Inert [')', '$'] := ⟨rfl, nofun⟩
  show lexAll? strict named 0 (t ++ [')', '$']) [.opening (.plain [] []), .lineStart] = _
  rw [lexAll?_read, lexAll?_split h hinert rfl]
  cases lexAll? strict named 0 t [] with
  | none => rfl
  | some ls =>
    have hclose : lexAll? strict named 0 [')', '$'] ls.reverse = some (ls ++ [Lexeme.close, .lineEnd]) := by
      rw [lexAll?_read, List.reverse_reverse]
      rfl
    rw [Option.bind_some, hclose]
    rfl

/-- Lexemes that are put around those of a pattern, and open no capturing group. -/
theorem lexemes?_of_map {s : Text} {f : List Lexeme → List Lexeme}
    (hf : ∀ ls, captureNames (f ls) = captureNames ls)
    (h : ∀ named, lexAll? strict named 0 s [] = (lexAll? strict named 0 t []).map f) :
    lexemes? strict s = (lexemes? strict t).map f := by
  unfold lexemes?
  rw [h strict]
  cases lexAll? strict strict 0 t [] with
  | none => rfl
  | some ls =>
    simp only [Option.map_some, hf]
    split
    · exact h true
    · rfl

end Lexemes

section Whole

variable {mode : Mode} (hmode : mode.multiline = false) {t : Text}
  (hspot : Spot.outside.after t = .outside)

include hmode hspot

/-- **A pattern between anchors is read as it is alone**, behind the first anchor and before the second. -/
theorem Program.Reads.of_betweenAnchors {ls : List Lexeme} {p : Progress}
    (h : Program.Reads (betweenAnchors t) mode ls p) : ∃ ms r,
      lexemes? mode.unicode t = some ms ∧ captureNames ls = captureNames ms ∧
      Progress.readAll? ⟨mode.unicode, captureNames ms⟩ (.initial ⟨mode.ignoreCase, false, false⟩) ms =
        some r ∧ r.frames = [] ∧ p = r.between := by
  have hnames (ms : List Lexeme) :
      captureNames (.lineStart :: (ms ++ [Lexeme.lineEnd])) = captureNames ms := by
    show captureNames (ms ++ [Lexeme.lineEnd]) = _
    rw [captureNames_append]
    exact List.append_nil _
  have hlexed := h.lexed
  rw [lexemes?_of_map hnames fun named => lexAll?_betweenAnchors hspot, Option.map_eq_some_iff] at hlexed
  obtain ⟨ms, hms, rfl⟩ := hlexed
  have hread := h.read
  rw [hnames, hmode] at hread
  change Progress.readAll? _ ((Progress.initial _).behind [⟨.start false, false, 0⟩])
    (ms ++ [Lexeme.lineEnd]) = some p at hread
  rw [Progress.readAll?_bind, Progress.readAll?_behind
    (fun t ht => by obtain rfl := Option.some.inj ht; rfl)] at hread
  obtain ⟨q, hq, hlast⟩ := Option.bind_eq_some_iff.1 hread
  obtain ⟨r, hr, rfl⟩ := Option.map_eq_some_iff.1 hq
  have hp : p = (r.behind [⟨.start false, false, 0⟩]).push (.stop r.modes.lines) false :=
    (Option.some.inj hlast).symm
  have hclosed : r.frames = [] := by
    have hframes := h.closed
    rw [hp] at hframes
    exact Progress.frames_behind.1 hframes
  have hmodes := Progress.outer_readAll hr
  rw [hclosed] at hmodes
  refine ⟨ms, r, hms, hnames ms, hr, hclosed, ?_⟩
  rw [hp, show r.modes = _ from hmodes]
  rfl

/-- A pattern in a group between anchors is read as it is alone, in the group. -/
theorem reads_enclosed {ms : List Lexeme} {r : Progress} (hms : lexemes? mode.unicode t = some ms)
    (hfew : (captureNames ms).length ≤ maxGroups) (hdistinct : distinctNames (captureNames ms) = true)
    (hread : Progress.readAll? ⟨mode.unicode, captureNames ms⟩
      (.initial ⟨mode.ignoreCase, false, false⟩) ms = some r) (hclosed : r.frames = []) :
    ∃ ls q, Program.Reads (enclosed t) mode ls q ∧ captureNames ls = captureNames ms ∧
      q.body = r.body.whole := by
  have hnames (ms : List Lexeme) : captureNames (.lineStart :: .opening (.plain [] []) ::
      (ms ++ [Lexeme.close, .lineEnd])) = captureNames ms := by
    show captureNames (ms ++ [Lexeme.close, .lineEnd]) = _
    rw [captureNames_append]
    exact List.append_nil _
  obtain ⟨q, hq, hqclosed, hbody⟩ : ∃ q, Progress.readAll? ⟨mode.unicode, captureNames ms⟩
      (.initial ⟨mode.ignoreCase, false, false⟩) (.lineStart :: .opening (.plain [] []) ::
        (ms ++ [Lexeme.close, .lineEnd])) = some q ∧ q.frames = [] ∧ q.body = r.body.whole := by
    have hmodes : Modes.modify ⟨mode.ignoreCase, false, false⟩ [] [] =
        ⟨mode.ignoreCase, false, false⟩ := by simp [Modes.modify]
    have hbefore (g : Grammar) : Progress.readAll? g (.initial ⟨mode.ignoreCase, false, false⟩)
        [.lineStart, .opening (.plain [] [])] =
          some ((Progress.initial ⟨mode.ignoreCase, false, false⟩).nested [] [⟨.plain [] [], 0, 0,
            ⟨mode.ignoreCase, false, false⟩, [], [⟨.start false, false, 0⟩]⟩]) :=
      congrArg (fun modes => some (Progress.mk 0 modes [] [] _)) hmodes
    have hread' := Progress.readAll?_append ⟨mode.unicode, captureNames ms⟩ _
      (ms ++ [Lexeme.close, .lineEnd]) _ _ (hbefore _)
    rw [List.cons_append, List.singleton_append, Progress.readAll?_bind,
      Progress.readAll?_nested ms hread, Option.bind_some, Progress.nested_of_closed hclosed] at hread'
    exact ⟨_, hread', rfl, rfl⟩
  refine ⟨_, q, ⟨?_, ?_, ?_, ?_, hqclosed⟩, hnames ms, hbody⟩
  · rw [lexemes?_of_map hnames fun named => lexAll?_enclosed hspot, hms]
    rfl
  · rw [hnames]
    exact hfew
  · rw [hnames]
    exact hdistinct
  · rw [hnames, hmode]
    exact hq

/-- **A pattern between anchors and in a group between them**: a match in the second case is found in
the first one as well, and a pattern of one alternative finds the same in both. -/
theorem exists_program_enclosed {program : Program}
    (h : Program.ofSource? (betweenAnchors t) mode = some program) :
    ∃ inner, Program.ofSource? (enclosed t) mode = some inner ∧
      (∀ place, (inner.search? place).isSome = true → (program.search? place).isSome = true) ∧
      (Undivided mode t → inner.search? = program.search?) := by
  obtain ⟨ls, p, hp, rfl⟩ := Program.ofSource?_eq_some_iff.1 h
  obtain ⟨ms, r, hms, hnames, hread, hclosed, rfl⟩ := hp.of_betweenAnchors hmode hspot
  have hfew := hp.few
  have hdistinct := hp.distinct
  rw [hnames] at hfew hdistinct ⊢
  obtain ⟨ls', q, hq, hnames', hbody⟩ := reads_enclosed hmode hspot hms hfew hdistinct hread hclosed
  refine ⟨_, hq.ofSource?, fun place => ?_, fun hone => ?_⟩
  · rw [hbody]
    refine Program.isSome_search?_of_ends (fun place hne => ?_) place
    exact r.ends_between hclosed hne
  · have halternatives := Progress.outermost_readAll hread (hone ms hms)
    rw [hclosed] at halternatives
    refine Program.search?_congr ?_ (congrArg List.length hnames')
    rw [hbody]
    exact (r.run_between hclosed halternatives).symm

end Whole

end ExtensibleRegex.Native
