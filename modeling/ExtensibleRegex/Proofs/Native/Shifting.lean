import ExtensibleRegex.Proofs.Native.Groups
import ExtensibleRegex.Proofs.Native.Nesting
import Mathlib.Tactic

/-!
# Patterns behind other groups

In a larger pattern the groups of a part have higher numbers than alone. A tree whose groups are all
moved by the same number takes the same ways (`Node.paths_shift`), since it only ever looks up its own
groups, and the lexemes of a part are read as that tree, if each number in them is a reference
(`Progress.readAll?_shift`).

Alternatives are the case where nothing else changes: every alternative starts with no group set, so a
pattern of alternatives goes the ways of the first, then those of the second and so on
(`Program.ends_alternatives`), and a search finds the match that starts first
(`Program.search?_alternatives_eq_some`).
-/

namespace ExtensibleRegex.Native

/-! ## 1. Trees and tracks -/

/-- The range behind `prior` other groups. -/
def GroupRange.shift (prior : Nat) (r : GroupRange) : GroupRange := ⟨r.first + prior, r.count⟩

/-- The tree behind `prior` other groups. -/
def Node.shift (prior : Nat) : Node → Node
  | .backref g ignoreCase => .backref (g + prior) ignoreCase
  | .seq a b => .seq (a.shift prior) (b.shift prior)
  | .alt a b => .alt (a.shift prior) (b.shift prior)
  | .group index body => .group (index + prior) (body.shift prior)
  | .look behind negated body => .look behind negated (body.shift prior)
  | .loop body min max greedy groups => .loop (body.shift prior) min max greedy (groups.shift prior)
  | .empty => .empty
  | .atom a => .atom a
  | .start lines => .start lines
  | .stop lines => .stop lines
  | .boundary negated => .boundary negated

/-- The track with its groups behind `prior` others. -/
def Track.shift (prior : Nat) (t : Track) : Track :=
  { t with groups := t.groups.map fun g => (g.1 + prior, g.2) }

section Tracks

variable {prior : Nat}

theorem GroupRange.holds_shift (r : GroupRange) (group : Nat) :
    (r.shift prior).holds (group + prior) = r.holds group := by
  unfold GroupRange.holds GroupRange.shift
  rw [Bool.eq_iff_iff]
  simp only [Bool.and_eq_true, decide_eq_true_eq]
  omega

theorem Track.shift_forget (t : Track) (r : GroupRange) :
    (t.shift prior).forget (r.shift prior) = (t.forget r).shift prior := by
  unfold Track.forget
  show (if r.count = 0 then _ else _) = _
  split
  · rfl
  · unfold Track.shift
    rw [List.filter_map]
    simp only [Function.comp_def, GroupRange.holds_shift]

theorem lookup_shift (group : Nat) : ∀ groups : List (Nat × Span),
    (groups.map fun g => (g.1 + prior, g.2)).lookup (group + prior) = groups.lookup group
  | [] => rfl
  | (i, s) :: groups => by
      have heq : (group + prior == i + prior) = (group == i) := by
        rw [Bool.eq_iff_iff, beq_iff_eq, beq_iff_eq]
        omega
      rw [List.map_cons, List.lookup_cons, List.lookup_cons, heq, lookup_shift group groups]

end Tracks

/-! ## 2. Ways -/

/-- **A tree takes the same ways behind other groups.** -/
theorem Node.paths_shift (prior : Nat) (node : Node) (d : Direction) (t : Track) :
    (node.shift prior).paths d (t.shift prior) = (node.paths d t).map (Track.shift prior) := by
  have hplace (t : Track) : (t.shift prior).place = t.place := rfl
  have hgroups (t : Track) (p : Place) :
      Track.shift prior { t with place := p } = { t.shift prior with place := p } := rfl
  induction node generalizing d t with
  | empty => rfl
  | atom a =>
    rw [shift, paths, paths, Atom.step_map hplace hgroups]
    cases a.step d t <;> rfl
  | start lines =>
    rw [shift, paths, paths]
    show (if atStart lines t.place then _ else _) = _
    split <;> rfl
  | stop lines =>
    rw [shift, paths, paths]
    show (if atStop lines t.place then _ else _) = _
    split <;> rfl
  | boundary negated =>
    rw [shift, paths, paths]
    show (if atBoundary t.place != negated then _ else _) = _
    split <;> rfl
  | backref g ignoreCase =>
    rw [shift, paths, paths, readGroup_map hplace hgroups (lookup_shift g t.groups)]
    cases readGroup d g ignoreCase t <;> rfl
  | seq a b iha ihb =>
    cases d with
    | forward =>
      rw [shift, paths, paths, iha, List.flatMap_map, List.map_flatMap]
      exact congrArg (List.flatMap · _) (funext fun u => ihb .forward u)
    | backward =>
      rw [shift, paths, paths, ihb, List.flatMap_map, List.map_flatMap]
      exact congrArg (List.flatMap · _) (funext fun u => iha .backward u)
  | alt a b iha ihb => rw [shift, paths, paths, iha, ihb, List.map_append]
  | group i body ih =>
    rw [shift, paths, paths, ih, List.map_map, List.map_map]
    rfl
  | look behind negated body ih =>
    rw [shift, paths, paths, ih, List.head?_map]
    cases (body.paths (if behind then .backward else .forward) t).head? with
    | none => cases negated <;> rfl
    | some u => cases negated <;> rfl
  | loop body min max greedy groups ih =>
    have hround (t : Track) : (body.shift prior).paths d ((t.shift prior).forget (groups.shift prior)) =
        (body.paths d (t.forget groups)).map (Track.shift prior) := by
      rw [Track.shift_forget]
      exact ih d _
    exact paths_loop_map hplace hround min max greedy t

/-! ## 3. Reading -/

/-- A lexeme of a part whose groups follow `prior` others. -/
def Lexeme.shifted (prior : Nat) : Lexeme → Lexeme
  | .decimal digits => .decimal (decimalText (readDigits 10 digits + prior))
  | l => l

/-- A lexeme that means the same behind other groups once its number is moved: it names no group, and
its number refers to one of `count` groups. -/
def Lexeme.Movable (count : Nat) (l : Lexeme) : Prop :=
  (∀ name, l ≠ .namedRef name) ∧ ∀ digits, l = .decimal digits → readDigits 10 digits ≤ count

def Term.shift (prior : Nat) (t : Term) : Term := ⟨t.node.shift prior, t.repeatable, t.before + prior⟩

def Frame.shift (prior : Nat) (f : Frame) : Frame where
  kind := f.kind
  group := f.group + prior
  before := f.before + prior
  modes := f.modes
  alternatives := f.alternatives.map (Node.shift prior)
  terms := f.terms.map (Term.shift prior)

namespace Progress

/-- The pass over a part behind `prior` other groups. -/
def shift (prior : Nat) (p : Progress) : Progress where
  groups := p.groups + prior
  modes := p.modes
  alternatives := p.alternatives.map (Node.shift prior)
  terms := p.terms.map (Term.shift prior)
  frames := p.frames.map (Frame.shift prior)

variable {prior : Nat} {p q : Progress} {names names' : List (Option Text)}

theorem seqOf_shift : ∀ ns : List Node,
    Node.seqOf (ns.map (Node.shift prior)) = (Node.seqOf ns).shift prior
  | [] => rfl
  | n :: ns => congrArg (Node.seq (n.shift prior)) (seqOf_shift ns)

theorem foldl_alt_shift : ∀ (earlier : List Node) (last : Node),
    (earlier.map (Node.shift prior)).foldl (fun rest n => Node.alt n rest) (last.shift prior) =
      (earlier.foldl (fun rest n => Node.alt n rest) last).shift prior
  | [], _ => rfl
  | n :: earlier, last => foldl_alt_shift earlier (.alt n last)

theorem current_shift (p : Progress) : (p.shift prior).current = p.current.shift prior := by
  unfold current
  rw [← seqOf_shift]
  show Node.seqOf (((p.terms.map (Term.shift prior)).reverse).map Term.node) = _
  rw [← List.map_reverse, List.map_map, List.map_map]
  rfl

theorem body_shift (p : Progress) : (p.shift prior).body = p.body.shift prior := by
  unfold body
  rw [current_shift]
  exact foldl_alt_shift p.alternatives p.current

theorem bar_shift (p : Progress) : (p.shift prior).bar = p.bar.shift prior := by
  unfold bar
  rw [current_shift]
  rfl

theorem openGroup_shift (p : Progress) (kind : Opening) :
    (p.shift prior).openGroup kind = (p.openGroup kind).shift prior := by
  cases kind with
  | capture name =>
    unfold openGroup shift Frame.shift
    simp only [List.map_nil, List.map_cons, Nat.add_right_comm]
  | plain add remove => rfl
  | look behind negated => rfl

theorem closeGroup?_shift {strict : Bool} (h : p.closeGroup? strict = some q) :
    (p.shift prior).closeGroup? strict = some (q.shift prior) := by
  have hbody : (p.shift prior).body = _ := p.body_shift
  unfold closeGroup? at *
  rw [hbody]
  have hshift : (p.shift prior).frames = p.frames.map (Frame.shift prior) := rfl
  rw [hshift]
  cases hframes : p.frames with
  | nil => rw [hframes] at h; cases h
  | cons f frames =>
    rw [hframes] at h
    obtain ⟨kind, group, before, modes, alternatives, terms⟩ := f
    cases h
    cases kind <;> rfl

theorem repeatLast?_shift {min : Nat} {max : Option Nat} {greedy : Bool}
    (h : p.repeatLast? min max greedy = some q) :
    (p.shift prior).repeatLast? min max greedy = some (q.shift prior) := by
  unfold repeatLast? at *
  have hshift : (p.shift prior).terms = p.terms.map (Term.shift prior) := rfl
  rw [hshift]
  cases hterms : p.terms with
  | nil => rw [hterms] at h; cases h
  | cons t terms =>
    rw [hterms] at h
    simp only at h
    split at h
    · rename_i hrepeatable
      cases h
      have hcount : (p.groups + prior) - (t.before + prior) = p.groups - t.before :=
        Nat.add_sub_add_right _ _ _
      show (if t.repeatable = true then some _ else none) = _
      rw [if_pos hrepeatable]
      unfold shift Term.shift
      simp only [List.map_cons, Node.shift, GroupRange.shift, hcount]
    · cases h

/-- **A lexeme is read behind other groups as it is alone**, but that its groups are moved. -/
theorem read?_shift {strict : Bool} {l : Lexeme} (hl : l.Movable names.length)
    (hnames : names.length + prior ≤ names'.length) (h : p.read? ⟨strict, names⟩ l = some q) :
    (p.shift prior).read? ⟨strict, names'⟩ (l.shifted prior) = some (q.shift prior) := by
  cases l with
  | namedRef name => exact absurd rfl (hl.1 name)
  | decimal digits =>
    have hle := hl.2 digits rfl
    have hmoved : readDigits 10 digits + prior ≤ names'.length := by omega
    show decimal? ⟨strict, names'⟩ (p.shift prior) (decimalText (readDigits 10 digits + prior)) = _
    have hp : decimal? ⟨strict, names⟩ p digits = some q := h
    unfold decimal? at hp ⊢
    simp only at hp ⊢
    rw [if_pos hle] at hp
    cases hp
    rw [readDigits_decimalText, if_pos hmoved]
    rfl
  | opening kind =>
    cases h
    exact congrArg some (openGroup_shift p kind)
  | close => exact closeGroup?_shift h
  | bar =>
    cases h
    exact congrArg some (bar_shift p)
  | quantifier min max greedy => exact repeatLast?_shift h
  | literal n => cases h; rfl
  | any => cases h; rfl
  | set negated members => cases h; rfl
  | lineStart => cases h; rfl
  | lineEnd => cases h; rfl
  | boundary negated => cases h; rfl

theorem readAll?_shift {strict : Bool} (hnames : names.length + prior ≤ names'.length) :
    ∀ {ls : List Lexeme} {p q : Progress}, (∀ l ∈ ls, l.Movable names.length) →
    readAll? ⟨strict, names⟩ p ls = some q →
    readAll? ⟨strict, names'⟩ (p.shift prior) (ls.map (Lexeme.shifted prior)) = some (q.shift prior)
  | [], _, _, _, h => by
      cases h
      rfl
  | l :: ls, p, q, hls, h => by
      rw [List.map_cons]
      simp only [readAll?] at h ⊢
      cases hl : p.read? ⟨strict, names⟩ l with
      | none => rw [hl] at h; cases h
      | some r =>
        rw [hl] at h
        rw [read?_shift (hls l List.mem_cons_self) hnames hl]
        exact readAll?_shift hnames (fun m hm => hls m (List.mem_cons_of_mem l hm)) h

/-! ## 4. Modes -/

/-- The modes outside of all open groups. -/
def outer : Modes → List Frame → Modes
  | modes, [] => modes
  | _, f :: frames => outer f.modes frames

/-- **Nothing but a group changes the modes**, so they are the same again outside of all groups. -/
theorem outer_read {g : Grammar} {l : Lexeme} (h : p.read? g l = some q) :
    outer q.modes q.frames = outer p.modes p.frames := by
  have hliteral (ds : Text) : ∀ p : Progress,
      outer (ds.foldl (fun p d => p.literal d.toNat) p).modes
        (ds.foldl (fun p d => p.literal d.toNat) p).frames = outer p.modes p.frames := by
    induction ds with
    | nil => exact fun _ => rfl
    | cons d ds ih => exact fun p => ih (p.literal d.toNat)
  cases l with
  | decimal digits =>
    simp only [read?, decimal?] at h
    split at h
    · cases h; rfl
    split at h
    · cases h
    cases digits with
    | nil => cases h; rfl
    | cons d ds => cases h; exact hliteral _ (p.literal _)
  | namedRef name =>
    simp only [read?] at h
    split at h
    · cases h; rfl
    · cases h
  | close =>
    simp only [read?, closeGroup?] at h
    cases hframes : p.frames with
    | nil => rw [hframes] at h; cases h
    | cons f frames => rw [hframes] at h; cases h; rfl
  | quantifier min max greedy =>
    simp only [read?, repeatLast?] at h
    split at h
    · cases h
    · split at h
      · cases h; rfl
      · cases h
  | opening kind => cases h; rfl
  | literal n => cases h; rfl
  | any => cases h; rfl
  | set negated members => cases h; rfl
  | lineStart => cases h; rfl
  | lineEnd => cases h; rfl
  | boundary negated => cases h; rfl
  | bar => cases h; rfl

theorem outer_readAll {g : Grammar} : ∀ {ls : List Lexeme} {p q : Progress},
    readAll? g p ls = some q → outer q.modes q.frames = outer p.modes p.frames
  | [], _, _, h => by
      cases h
      rfl
  | l :: ls, p, q, h => by
      simp only [readAll?] at h
      cases hl : p.read? g l with
      | none => rw [hl] at h; cases h
      | some r =>
        rw [hl] at h
        rw [outer_readAll h, outer_read hl]

end Progress

/-! ## 5. Alternatives -/

/-- Where the ways through a tree end, from a place at which no group is set. -/
def Node.ends (n : Node) (place : Place) : List Place :=
  (n.paths .forward ⟨place, []⟩).map Track.place

theorem Node.ends_shift (prior : Nat) (n : Node) (place : Place) :
    (n.shift prior).ends place = n.ends place := by
  have h := n.paths_shift prior .forward ⟨place, []⟩
  unfold ends
  rw [show (Track.shift prior ⟨place, []⟩) = ⟨place, []⟩ from rfl] at h
  rw [h, List.map_map]
  rfl

theorem Node.paths_foldl_alt (d : Direction) (t : Track) : ∀ (earlier : List Node) (last : Node),
    (earlier.foldl (fun rest n => Node.alt n rest) last).paths d t =
      earlier.reverse.flatMap (fun n => n.paths d t) ++ last.paths d t
  | [], _ => rfl
  | n :: earlier, last => by
      rw [List.foldl_cons, paths_foldl_alt d t earlier, paths, List.reverse_cons, List.flatMap_append,
        List.append_assoc, List.flatMap_singleton]

/-- The alternatives that a pass has read outside of all groups, latest first. -/
def Progress.choices (p : Progress) : List Node := p.current :: p.alternatives

/-- A choice goes the ways of its alternatives one after another. -/
theorem Progress.ends_body (p : Progress) (place : Place) :
    p.body.ends place = p.choices.reverse.flatMap fun n => n.ends place := by
  show ((p.alternatives.foldl (fun rest n => Node.alt n rest) p.current).paths .forward _).map _ = _
  rw [Node.paths_foldl_alt, choices, List.reverse_cons, List.flatMap_append, List.map_append,
    List.map_flatMap, List.flatMap_singleton]
  rfl

/-- A match ends where the first way does. -/
theorem Program.whole_matchAt? (p : Program) (place : Place) :
    (p.matchAt? place).map Found.whole = (p.node.ends place).head?.map fun q => ⟨place, q⟩ := by
  rw [matchAt?_eq_head?, Node.ends, List.head?_map, Option.map_map, Option.map_map]
  rfl

/-- The lexemes of parts, the references of each moved past the groups of those before it. -/
def shiftedLexemes : (prior : Nat) → List (List Lexeme) → List (List Lexeme)
  | _, [] => []
  | prior, ls :: lss =>
    ls.map (Lexeme.shifted prior) :: shiftedLexemes (prior + (captureNames ls).length) lss

namespace Progress

/-- How the lexemes of a pattern are read that may stand behind other groups. -/
structure Alone (strict : Bool) (modes : Modes) (ls : List Lexeme) (p : Progress) : Prop where
  read : readAll? ⟨strict, captureNames ls⟩ (.initial modes) ls = some p
  closed : p.frames = []
  movable : ∀ l ∈ ls, l.Movable (captureNames ls).length

variable {strict : Bool} {modes : Modes} {names : List (Option Text)}

/-- **A pattern is read after a bar as it is alone**, but that its groups are moved. -/
theorem Alone.readAll? {ls : List Lexeme} {p : Progress} (h : Alone strict modes ls p) {prior : Nat}
    (hnames : (captureNames ls).length + prior ≤ names.length) (earlier : List Node) :
    Progress.readAll? ⟨strict, names⟩ ⟨prior, modes, earlier, [], []⟩ (ls.map (Lexeme.shifted prior)) =
      some ⟨(captureNames ls).length + prior, modes, (p.alternatives.map (Node.shift prior)) ++ earlier,
        p.terms.map (Term.shift prior), []⟩ := by
  have hgroups : p.groups = (captureNames ls).length :=
    ((numbered_initial modes).readAll h.read).2.trans (Nat.zero_add _)
  have hmodes : p.modes = modes := by
    have houter := outer_readAll h.read
    rw [h.closed] at houter
    exact houter
  have hread := @readAll?_nested earlier [] ⟨strict, names⟩ _ _ _
    (readAll?_shift hnames h.movable h.read)
  have hfirst : ((initial modes).shift prior).nested earlier [] = ⟨prior, modes, earlier, [], []⟩ := by
    show Progress.mk (0 + prior) _ _ _ _ = _
    rw [Nat.zero_add]
    rfl
  have hlast : (p.shift prior).nested earlier [] = ⟨(captureNames ls).length + prior, modes,
      (p.alternatives.map (Node.shift prior)) ++ earlier, p.terms.map (Term.shift prior), []⟩ := by
    unfold nested shift
    rw [h.closed, hgroups, hmodes]
    rfl
  rwa [hfirst, hlast] at hread

/-- **Patterns with bars between them** are read as the alternatives of all of them. -/
theorem readAll?_alternatives : ∀ {lss : List (List Lexeme)} {ps : List Progress} (prior : Nat)
    (earlier : List Node), List.Forall₂ (Alone strict modes) lss ps → lss ≠ [] →
    prior + (lss.flatMap captureNames).length ≤ names.length →
    ∃ q, Progress.readAll? ⟨strict, names⟩ ⟨prior, modes, earlier, [], []⟩
        ([Lexeme.bar].intercalate (shiftedLexemes prior lss)) = some q ∧ q.frames = [] ∧
      ∀ place, q.choices.reverse.flatMap (fun n => n.ends place) =
        earlier.reverse.flatMap (fun n => n.ends place) ++ ps.flatMap fun p => p.body.ends place
  | [], _, _, _, _, hne, _ => absurd rfl hne
  | ls :: lss, p :: ps, prior, earlier, .cons hp hps, _, hnames => by
      rw [List.flatMap_cons, List.length_append] at hnames
      have hread := @Alone.readAll? _ _ names _ _ hp prior (by omega) earlier
      let r : Progress := ⟨(captureNames ls).length + prior, modes,
        (p.alternatives.map (Node.shift prior)) ++ earlier, p.terms.map (Term.shift prior), []⟩
      have hchoices : r.choices = p.choices.map (Node.shift prior) ++ earlier :=
        congrArg (· :: _) (current_shift p)
      have hends (place : Place) : r.choices.reverse.flatMap (fun n => n.ends place) =
          earlier.reverse.flatMap (fun n => n.ends place) ++ p.body.ends place := by
        rw [hchoices, List.reverse_append, List.flatMap_append, ends_body, ← List.map_reverse,
          List.flatMap_map]
        simp only [Node.ends_shift]
      cases hps with
      | nil =>
        refine ⟨r, ?_, rfl, fun place => ?_⟩
        · show Progress.readAll? _ _ (ls.map (Lexeme.shifted prior) ++ []) = _
          rw [List.append_nil]
          exact hread
        · rw [hends, List.flatMap_cons, List.flatMap_nil, List.append_nil]
      | @cons ms q lss ps hq hps =>
        obtain ⟨s, hs, hclosed, hlast⟩ := readAll?_alternatives (prior + (captureNames ls).length)
          r.choices (.cons hq hps) (List.cons_ne_nil _ _) (by omega)
        refine ⟨s, ?_, hclosed, fun place => ?_⟩
        · show Progress.readAll? _ _ (ls.map (Lexeme.shifted prior) ++ ([Lexeme.bar] ++
            [Lexeme.bar].intercalate (shiftedLexemes _ (ms :: lss)))) = _
          rw [readAll?_append _ _ _ _ _ hread]
          rw [Nat.add_comm prior] at hs ⊢
          exact hs
        · rw [hlast, hends, List.append_assoc]
          rfl

end Progress

theorem captureNames_shifted (prior : Nat) : ∀ ls : List Lexeme,
    captureNames (ls.map (Lexeme.shifted prior)) = captureNames ls
  | [] => rfl
  | l :: ls => by
      rw [List.map_cons, captureNames_cons, captureNames_cons l, captureNames_shifted prior ls]
      cases l <;> rfl

/-- Parts with bars between them have the groups of all parts. -/
theorem captureNames_alternatives : ∀ (prior : Nat) (lss : List (List Lexeme)),
    captureNames ([Lexeme.bar].intercalate (shiftedLexemes prior lss)) = lss.flatMap captureNames
  | _, [] => rfl
  | prior, [ls] => by
      show captureNames (ls.map (Lexeme.shifted prior) ++ []) = captureNames ls ++ []
      rw [List.append_nil, List.append_nil, captureNames_shifted]
  | prior, ls :: ms :: lss => by
      show captureNames (ls.map (Lexeme.shifted prior) ++ ([Lexeme.bar] ++
        [Lexeme.bar].intercalate (shiftedLexemes _ (ms :: lss)))) = _
      rw [captureNames_append, captureNames_append, captureNames_shifted,
        captureNames_alternatives _ (ms :: lss)]
      rfl

/-! ## 6. Searching for alternatives -/

namespace Program

/-- A program with the lexemes of its pattern, each of which may stand behind other groups. -/
def OfMovable (mode : Mode) (ls : List Lexeme) (p : Program) : Prop :=
  (∃ source, lexemes? mode.unicode source = some ls ∧ Program.ofSource? source mode = some p) ∧
    ∀ l ∈ ls, l.Movable (captureNames ls).length

variable {mode : Mode}

/-- How a pattern is read. -/
theorem exists_read {source : Text} {p : Program} (h : Program.ofSource? source mode = some p)
    {ls : List Lexeme} (hls : lexemes? mode.unicode source = some ls) :
    ∃ q, Progress.readAll? ⟨mode.unicode, captureNames ls⟩
        (.initial ⟨mode.ignoreCase, mode.multiline, false⟩) ls = some q ∧ q.frames = [] ∧
      p.node = q.body := by
  obtain ⟨ls', q, hq, rfl⟩ := Program.ofSource?_eq_some_iff.1 h
  obtain rfl := Option.some.inj (hls.symm.trans hq.lexed)
  exact ⟨q, hq.read, hq.closed, rfl⟩

theorem exists_alone : ∀ {lss : List (List Lexeme)} {programs : List Program},
    List.Forall₂ (OfMovable mode) lss programs →
    ∃ ps, List.Forall₂ (Progress.Alone mode.unicode ⟨mode.ignoreCase, mode.multiline, false⟩) lss ps ∧
      programs.map node = ps.map Progress.body
  | _, _, .nil => ⟨[], .nil, rfl⟩
  | ls :: lss, p :: programs, .cons hp hprograms => by
      obtain ⟨⟨source, hls, hp⟩, hmovable⟩ := hp
      obtain ⟨q, hq, hclosed, hnode⟩ := exists_read hp hls
      obtain ⟨ps, hps, hnodes⟩ := exists_alone hprograms
      exact ⟨q :: ps, .cons ⟨hq, hclosed, hmovable⟩ hps, by
        rw [List.map_cons, List.map_cons, hnode, hnodes]⟩

/-- **Patterns with bars between them** make a pattern, which goes the ways of one after another. -/
theorem exists_alternatives {source : Text} {lss : List (List Lexeme)} (hne : lss ≠ [])
    (hlexed : lexemes? mode.unicode source = some ([Lexeme.bar].intercalate (shiftedLexemes 0 lss)))
    (hfew : (lss.flatMap captureNames).length ≤ maxGroups)
    (hdistinct : distinctNames (lss.flatMap captureNames) = true)
    {programs : List Program} (hprograms : List.Forall₂ (OfMovable mode) lss programs) :
    ∃ program, Program.ofSource? source mode = some program ∧
      program.groups = (lss.flatMap captureNames).length ∧
      ∀ place, program.node.ends place = programs.flatMap fun p => p.node.ends place := by
  obtain ⟨ps, hps, hnodes⟩ := exists_alone hprograms
  have hnames := captureNames_alternatives 0 lss
  obtain ⟨q, hq, hclosed, hends⟩ := @Progress.readAll?_alternatives _ _
    (captureNames ([Lexeme.bar].intercalate (shiftedLexemes 0 lss))) _ _ 0 [] hps hne
    (by rw [hnames]; omega)
  refine ⟨⟨q.body, _⟩, Program.ofSource?_eq_some_iff.2
    ⟨_, q, ⟨hlexed, by rwa [hnames], by rwa [hnames], hq, hclosed⟩, rfl⟩, by rw [hnames], fun place => ?_⟩
  show q.body.ends place = _
  rw [Progress.ends_body, hends]
  show (ps.flatMap fun p => p.body.ends place) = _
  rw [← List.flatMap_map Progress.body (fun n => n.ends place), ← hnodes, List.flatMap_map]

theorem ends_alternatives {source : Text} {program : Program}
    (h : Program.ofSource? source mode = some program) {lss : List (List Lexeme)} (hne : lss ≠ [])
    (hlexed : lexemes? mode.unicode source = some ([Lexeme.bar].intercalate (shiftedLexemes 0 lss)))
    {programs : List Program} (hprograms : List.Forall₂ (OfMovable mode) lss programs)
    (place : Place) : program.node.ends place = programs.flatMap fun p => p.node.ends place := by
  obtain ⟨ls, q, hq, -⟩ := Program.ofSource?_eq_some_iff.1 h
  obtain rfl := Option.some.inj (hlexed.symm.trans hq.lexed)
  have hfew := hq.few
  have hdistinct := hq.distinct
  rw [captureNames_alternatives] at hfew hdistinct
  obtain ⟨program', h', -, hends⟩ := exists_alternatives hne hlexed hfew hdistinct hprograms
  obtain rfl := Option.some.inj (h.symm.trans h')
  exact hends place

theorem matchAt?_eq_none_iff {p : Program} {place : Place} :
    p.matchAt? place = none ↔ p.node.ends place = [] := by
  rw [← Option.map_eq_none_iff, whole_matchAt?, Option.map_eq_none_iff, List.head?_eq_none_iff]

/-- The match at the first place that has one is the answer of a search. -/
theorem search?_of_matchAt? {p : Program} {place : Place} {n : Nat} {f : Found}
    (hle : n ≤ place.ahead.length) (hmatch : p.matchAt? (place.advance n) = some f)
    (hbefore : ∀ m < n, p.matchAt? (place.advance m) = none) : p.search? place = some f := by
  cases hsearch : p.search? place with
  | none =>
    rw [search?_eq_none hsearch n hle] at hmatch
    cases hmatch
  | some g =>
    obtain ⟨m, -, hg, hm⟩ := search?_eq_some hsearch
    rcases Nat.lt_trichotomy m n with hlt | rfl | hlt
    · rw [hbefore m hlt] at hg
      cases hg
    · exact hg.symm.trans hmatch
    · rw [hm n hlt] at hmatch
      cases hmatch

/-- A match starts where the search has come to. -/
theorem index_of_search? {p : Program} {place : Place} {f : Found} (h : p.search? place = some f) :
    ∃ n ≤ place.ahead.length, f.whole.start.index = place.index + n ∧
      p.matchAt? (place.advance n) = some f ∧ ∀ m < n, p.matchAt? (place.advance m) = none := by
  obtain ⟨n, hle, hmatch, hbefore⟩ := search?_eq_some h
  refine ⟨n, hle, ?_, hmatch, hbefore⟩
  rw [(stretch_of_matchAt? hmatch).1]
  exact Place.index_advance hle

section Search

variable {program : Program} {programs : List Program}
  (h : ∀ place, program.node.ends place = programs.flatMap fun p => p.node.ends place)

include h

theorem matchAt?_alternatives (place : Place) :
    program.matchAt? place = none ↔ ∀ p ∈ programs, p.matchAt? place = none := by
  simp only [matchAt?_eq_none_iff, h, List.flatMap_eq_nil_iff]

/-- A search fails for alternatives where it fails for each of them. -/
theorem search?_alternatives_eq_none (place : Place) :
    program.search? place = none ↔ ∀ p ∈ programs, p.search? place = none := by
  constructor
  · intro hnone p hp
    cases hsearch : p.search? place with
    | none => rfl
    | some f =>
      obtain ⟨n, hle, hmatch, -⟩ := search?_eq_some hsearch
      rw [(matchAt?_alternatives h _).1 (search?_eq_none hnone n hle) p hp] at hmatch
      cases hmatch
  · intro hnone
    cases hsearch : program.search? place with
    | none => rfl
    | some f =>
      obtain ⟨n, hle, hmatch, -⟩ := search?_eq_some hsearch
      rw [(matchAt?_alternatives h _).2 fun p hp => search?_eq_none (hnone p hp) n hle] at hmatch
      cases hmatch

/-- **A search for alternatives finds the match that starts first**, and of those that start there the
match of the first alternative. -/
theorem search?_alternatives_eq_some {place : Place} {f : Found}
    (hsearch : program.search? place = some f) :
    ∃ before p after g, programs = before ++ p :: after ∧ p.search? place = some g ∧
      g.whole = f.whole ∧
      (∀ q ∈ before, ∀ e, q.search? place = some e → f.whole.start.index < e.whole.start.index) ∧
      ∀ q ∈ after, ∀ e, q.search? place = some e → f.whole.start.index ≤ e.whole.start.index := by
  obtain ⟨n, hle, hindex, hmatch, hbefore⟩ := index_of_search? hsearch
  have hwhole := whole_matchAt? program (place.advance n)
  rw [hmatch, Option.map_some, h, List.head?_flatMap] at hwhole
  obtain ⟨stop, hfirst, hspan⟩ := Option.map_eq_some_iff.1 hwhole.symm
  obtain ⟨before, p, after, rfl, hp, hnone⟩ := List.findSome?_eq_some_iff.1 hfirst
  have hpwhole := whole_matchAt? p (place.advance n)
  rw [hp, Option.map_some, hspan] at hpwhole
  obtain ⟨g, hg, hgf⟩ := Option.map_eq_some_iff.1 hpwhole
  -- No alternative has a match before the place where this one is.
  have hfirst (q : Program) (hq : q ∈ before ++ p :: after) (m : Nat) (hm : m < n) :
      q.matchAt? (place.advance m) = none := (matchAt?_alternatives h _).1 (hbefore m hm) q hq
  have hlate (q : Program) (hq : q ∈ before ++ p :: after) {e : Found} {m : Nat}
      (he : q.matchAt? (place.advance m) = some e) : n ≤ m := by
    by_contra hlt
    rw [hfirst q hq m (by omega)] at he
    cases he
  refine ⟨before, p, after, g, rfl, search?_of_matchAt? hle hg (hfirst p (by simp)), hgf, ?_, ?_⟩
  · intro q hq e he
    obtain ⟨m, -, heindex, hem, -⟩ := index_of_search? he
    have hne : m ≠ n := by
      rintro rfl
      rw [matchAt?_eq_none_iff.2 (List.head?_eq_none_iff.1 (hnone q hq))] at hem
      cases hem
    have hge := hlate q (List.mem_append_left _ hq) hem
    omega
  · intro q hq e he
    obtain ⟨m, -, heindex, hem, -⟩ := index_of_search? he
    have hge := hlate q (List.mem_append_right _ (List.mem_cons_of_mem p hq)) hem
    omega

end Search

end Program

end ExtensibleRegex.Native
