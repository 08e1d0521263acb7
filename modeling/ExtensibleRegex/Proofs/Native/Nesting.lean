import ExtensibleRegex.Proofs.Native.Classes
import ExtensibleRegex.Proofs.Native.Equivalence
import ExtensibleRegex.Proofs.Native.Escaped
import ExtensibleRegex.Proofs.Native.Paths
import Mathlib.Tactic

/-!
# Patterns inside of patterns

A pattern that is well-formed by itself can be put into a group, or beside other alternatives. Its
lexemes are read there as they are read alone (`readAll?_nested`), so that the tree of the larger
pattern holds the tree of the pattern (`Program.Reads.enclose`).

Patterns that match one code point (`OnePoint`) are an example: alone between the ends of the text
they match the texts of one code point that they match anyway, and with their negation in front of
any character the others.
-/

namespace ExtensibleRegex.Native

/-! ## 1. Reading inside of a group -/

/-- The alternatives and the open groups of a pass that has more around it: `earlier` are the
alternatives before the pattern, and `around` the groups that are open there. -/
def nest (earlier : List Node) (around : List Frame) :
    List Node → List Frame → List Node × List Frame
  | alternatives, [] => (alternatives ++ earlier, around)
  | alternatives, f :: frames =>
    let outer := nest earlier around f.alternatives frames
    (alternatives, { f with alternatives := outer.1 } :: outer.2)

namespace Progress

variable {earlier : List Node} {around : List Frame} {g : Grammar} {p q : Progress}

/-- A pass that reads a part of a larger pattern. -/
def nested (earlier : List Node) (around : List Frame) (p : Progress) : Progress :=
  let outer := nest earlier around p.alternatives p.frames
  { p with alternatives := outer.1, frames := outer.2 }

theorem nested_literals : ∀ (ds : Text) (p : Progress),
    (ds.foldl (fun p d => p.literal d.toNat) p).nested earlier around =
      ds.foldl (fun p d => p.literal d.toNat) (p.nested earlier around)
  | [], _ => rfl
  | d :: ds, p => nested_literals ds (p.literal d.toNat)

theorem nested_bar : p.bar.nested earlier around = (p.nested earlier around).bar := by
  unfold nested bar
  cases hframes : p.frames with
  | nil => rfl
  | cons f frames => rfl

theorem closeGroup?_nested {strict : Bool} (h : p.closeGroup? strict = some q) :
    (p.nested earlier around).closeGroup? strict = some (q.nested earlier around) := by
  unfold closeGroup? nested at *
  cases hframes : p.frames with
  | nil => rw [hframes] at h; cases h
  | cons f frames =>
    rw [hframes] at h
    cases h
    rfl

theorem repeatLast?_nested {min : Nat} {max : Option Nat} {greedy : Bool}
    (h : p.repeatLast? min max greedy = some q) :
    (p.nested earlier around).repeatLast? min max greedy = some (q.nested earlier around) := by
  have hsame : (p.nested earlier around).terms = p.terms := rfl
  unfold repeatLast? at *
  rw [hsame]
  cases hterms : p.terms with
  | nil => rw [hterms] at h; cases h
  | cons t terms =>
    rw [hterms] at h
    simp only at h ⊢
    split at h
    · rename_i hrepeatable
      cases h
      rw [if_pos hrepeatable]
      rfl
    · cases h

theorem decimal?_nested {digits : Text} (h : decimal? g p digits = some q) :
    decimal? g (p.nested earlier around) digits = some (q.nested earlier around) := by
  unfold decimal? at *
  simp only at *
  split at h
  · rename_i hreference
    cases h
    rw [if_pos hreference]
    rfl
  rename_i hreference
  rw [if_neg hreference]
  split at h
  · cases h
  rename_i hlenient
  rw [if_neg hlenient]
  cases digits with
  | nil => cases h; rfl
  | cons d ds =>
    cases h
    exact congrArg some (nested_literals _ (p.literal _)).symm

/-- **A lexeme is read in a larger pattern as it is alone.** -/
theorem read?_nested {l : Lexeme} (h : p.read? g l = some q) :
    (p.nested earlier around).read? g l = some (q.nested earlier around) := by
  cases l with
  | decimal digits => exact decimal?_nested h
  | namedRef name =>
    simp only [read?] at h ⊢
    split at h
    · cases h
      rfl
    · cases h
  | close => exact closeGroup?_nested h
  | bar =>
    cases h
    exact congrArg some nested_bar.symm
  | quantifier min max greedy => exact repeatLast?_nested h
  | literal n => cases h; rfl
  | any => cases h; rfl
  | set negated members => cases h; rfl
  | lineStart => cases h; rfl
  | lineEnd => cases h; rfl
  | boundary negated => cases h; rfl
  | opening kind => cases h; rfl

theorem readAll?_nested : ∀ (ls : List Lexeme) {p q : Progress}, readAll? g p ls = some q →
    readAll? g (p.nested earlier around) ls = some (q.nested earlier around)
  | [], _, _, h => by
      cases h
      rfl
  | l :: ls, p, q, h => by
      simp only [readAll?] at h ⊢
      cases hl : p.read? g l with
      | none => rw [hl] at h; cases h
      | some r =>
        rw [hl] at h
        rw [read?_nested hl]
        exact readAll?_nested ls h

end Progress

/-! ## 2. Patterns between two texts -/

namespace Program.Reads

variable {w : Text} {mode : Mode} {ls : List Lexeme} {p : Progress}

theorem lexAll (h : Program.Reads w mode ls p) (hmode : mode.unicode = true) :
    lexAll? true true 0 w [] = some ls := by
  have hlexed := h.lexed
  unfold lexemes? at hlexed
  rw [hmode] at hlexed
  cases hw : lexAll? true true 0 w [] with
  | none => rw [hw] at hlexed; cases hlexed
  | some ms =>
    rw [hw] at hlexed
    exact hlexed

theorem ofSource? (h : Program.Reads w mode ls p) :
    Program.ofSource? w mode = some ⟨p.body, (captureNames ls).length⟩ :=
  Program.ofSource?_eq_some_iff.2 ⟨ls, p, h, rfl⟩

/-- **A strict pattern between two texts** that open no capturing group is read as it is alone. -/
theorem enclose (h : Program.Reads w mode ls p) (hmode : mode.unicode = true) {x y : Text}
    {xs ys : List Lexeme} {earlier : List Node} {around : List Frame} {r : Progress}
    (hx : ∀ t, lexAll? true true 0 (x ++ t) [] = (lexAll? true true 0 t []).map (xs ++ ·))
    (hy : Inert y) (hys : lexAll? true true 0 y [] = some ys)
    (hnames : captureNames xs = [] ∧ captureNames ys = [])
    (hbefore : ∀ g, Progress.readAll? g (.initial ⟨mode.ignoreCase, mode.multiline, false⟩) xs =
      some ((Progress.initial ⟨mode.ignoreCase, mode.multiline, false⟩).nested earlier around))
    (hafter : ∀ names, Progress.readAll? ⟨true, names⟩ (p.nested earlier around) ys = some r)
    (hclosed : r.frames = []) :
    Program.Reads (x ++ (w ++ y)) mode (xs ++ (ls ++ ys)) r ∧
      captureNames (xs ++ (ls ++ ys)) = captureNames ls := by
  have hcaptures : captureNames (xs ++ (ls ++ ys)) = captureNames ls := by
    rw [captureNames_append, captureNames_append, hnames.1, hnames.2, List.append_nil,
      List.nil_append]
  have hlex : lexAll? true true 0 (x ++ (w ++ y)) [] = some (xs ++ (ls ++ ys)) := by
    rw [hx, lexAll?_append hy 0 w [] ls (Nat.zero_le _) (h.lexAll hmode), lexAll?_read, hys]
    simp only [List.reverse_reverse, Option.map_some]
  have hstrict (names : List (Option Text)) : (⟨mode.unicode, names⟩ : Grammar) = ⟨true, names⟩ := by
    rw [hmode]
  refine ⟨⟨?_, ?_, ?_, ?_, hclosed⟩, hcaptures⟩
  · unfold lexemes?
    rw [hmode, hlex]
    rfl
  · rw [hcaptures]
    exact h.few
  · rw [hcaptures]
    exact h.distinct
  · have hread := h.read
    rw [hstrict] at hread
    rw [hcaptures, hstrict, Progress.readAll?_append _ _ _ _ _ (hbefore _),
      Progress.readAll?_append _ _ _ _ _ (Progress.readAll?_nested ls hread)]
    exact hafter _

end Program.Reads

/-! ## 3. Patterns for one code point -/

/-- The mode in which texts are read by code points, and nothing else. -/
def pointMode : Mode := ⟨false, false, true⟩

/-- A tree whose first match, at any place, is one character. -/
def Node.OnePoint (n : Node) : Prop :=
  ∀ p u, n.run .forward some ⟨p, []⟩ = some u → ∃ c, p.Stretch [c] u.place

/-- A well-formed pattern that matches one code point only. -/
def OnePoint (w : Text) : Prop :=
  ∃ find, meaning pointMode w = some find ∧ ∀ p f, find p = some f → ∃ c, f.whole.text = [c]

theorem OnePoint.exists_reads {w : Text} (h : OnePoint w) :
    ∃ ls p, Program.Reads w pointMode ls p ∧ p.body.OnePoint := by
  obtain ⟨find, hfind, hone⟩ := h
  obtain ⟨program, hprogram, rfl⟩ := Option.map_eq_some_iff.1 hfind
  obtain ⟨ls, p, hreads, rfl⟩ := Program.ofSource?_eq_some_iff.1 hprogram
  refine ⟨ls, p, hreads, fun place u hu => ?_⟩
  have hmatch : Program.matchAt? ⟨p.body, (captureNames ls).length⟩ place =
      some ⟨⟨place, u.place⟩, groupSpans (captureNames ls).length u.groups⟩ := by
    unfold Program.matchAt?
    simp only [hu]
  obtain ⟨c, hc⟩ := hone place _ (Program.searchFrom_of_matchAt? hmatch place.ahead)
  obtain ⟨-, w, hw⟩ := Program.stretch_of_matchAt? hmatch
  refine ⟨c, ?_⟩
  rw [← hc, show Span.text ⟨place, u.place⟩ = w from hw.text_span]
  exact hw

theorem Program.Reads.onePoint {w : Text} {ls : List Lexeme} {p : Progress}
    (h : Program.Reads w pointMode ls p) (hone : p.body.OnePoint) : Native.OnePoint w := by
  refine ⟨Program.search? ⟨p.body, (captureNames ls).length⟩, ?_, fun place f hf => ?_⟩
  · unfold meaning
    rw [h.ofSource?]
    rfl
  obtain ⟨n, -, hmatch, -⟩ := Program.search?_eq_some hf
  unfold Program.matchAt? at hmatch
  split at hmatch
  · rename_i u hu
    cases hmatch
    obtain ⟨c, hc⟩ := hone _ u hu
    exact ⟨c, hc.text_span⟩
  · cases hmatch

/-- A class matches one character. -/
theorem Node.onePoint_atom (a : Atom) : (Node.atom a).OnePoint := by
  intro p u hu
  simp only [Node.run, Atom.step, Direction.next?] at hu
  cases hnext : p.next? with
  | none => rw [hnext] at hu; cases hu
  | some r =>
    rw [hnext] at hu
    by_cases ha : a.admits r.1 = true
    · simp only [ha, if_true] at hu
      cases hu
      exact ⟨r.1, Place.stretch_next hnext⟩
    · simp [ha] at hu

theorem Node.OnePoint.seq_empty {n : Node} (h : n.OnePoint) : (Node.seq n .empty).OnePoint := by
  intro p u hu
  rw [run_seq_empty] at hu
  exact h p u hu

theorem Node.onePoint_alt {a b n : Node} (ha : a.OnePoint) (hb : b.OnePoint)
    (hn : n.run .forward some = (Node.alt a b).run .forward some) : n.OnePoint := by
  intro p u hu
  rw [hn, run_alt] at hu
  cases hrun : a.run .forward some ⟨p, []⟩ with
  | some v =>
    rw [hrun] at hu
    cases hu
    exact ha p _ hrun
  | none =>
    rw [hrun] at hu
    exact hb p u hu

/-! ### The class as one more alternative -/

theorem Node.altOfReversed_concat (first last : Node) (earlier : List Node) :
    Node.altOfReversed (last :: earlier ++ [first]) =
      .alt first (Node.altOfReversed (last :: earlier)) := by
  simp only [List.cons_append, Node.altOfReversed, List.foldl_append, List.foldl_cons,
    List.foldl_nil]

section Alternatives

variable {body w : Text} {s : CodeSet} (hbody : Spot.inside.after body = .outside)
  (hclass : lexAll? true true 0 ('[' :: body) [] = some [.set false s])

include hclass

/-- A class alone. -/
theorem reads_class : Program.Reads ('[' :: body) pointMode [.set false s]
    ((Progress.initial ⟨false, false, false⟩).push (.atom (.set false s false)) true) where
  lexed := by
    unfold lexemes?
    rw [show pointMode.unicode = true from rfl, hclass]
    rfl
  few := Nat.zero_le _
  distinct := rfl
  read := rfl
  closed := rfl

theorem onePoint_class : OnePoint ('[' :: body) :=
  (reads_class hclass).onePoint (Node.onePoint_atom _).seq_empty

include hbody in
/-- A class as the first alternative. -/
theorem OnePoint.class_or (h : OnePoint w) : OnePoint ('[' :: body ++ ['|'] ++ w) := by
  obtain ⟨ls, p, hreads, hone⟩ := h.exists_reads
  have hx (t : Text) : lexAll? true true 0 (('[' :: body ++ ['|']) ++ t) [] =
      (lexAll? true true 0 t []).map ([.set false s, .bar] ++ ·) := by
    have hspot : Spot.outside.after ('[' :: body) = .outside := hbody
    have hbar : Inert ('|' :: t) := ⟨rfl, nofun⟩
    rw [List.append_assoc, List.singleton_append, lexAll?_split hspot hbar rfl, hclass]
    show lexAll? true true 0 t [.bar, .set false s] = _
    rw [lexAll?_read]
    rfl
  obtain ⟨hwhole, -⟩ := hreads.enclose rfl hx (y := []) trivial rfl ⟨rfl, rfl⟩ (fun _ => rfl)
    (fun _ => rfl) (by
      unfold Progress.nested
      rw [hreads.closed]
      rfl)
  rw [List.append_nil] at hwhole
  refine hwhole.onePoint (Node.onePoint_alt (Node.onePoint_atom (.set false s false)).seq_empty hone ?_)
  refine congrArg (fun n => Node.run n .forward some) ?_
  unfold Progress.nested Progress.body
  rw [hreads.closed]
  exact Node.altOfReversed_concat _ _ _

/-- A class as the last alternative. -/
theorem OnePoint.or_class (h : OnePoint w) : OnePoint (w ++ ['|'] ++ '[' :: body) := by
  obtain ⟨ls, p, hreads, hone⟩ := h.exists_reads
  have hy : lexAll? true true 0 ('|' :: '[' :: body) [] = some [.bar, .set false s] := by
    show lexAll? true true 0 ('[' :: body) [.bar] = _
    rw [lexAll?_read, hclass]
    rfl
  have hx (t : Text) : lexAll? true true 0 ([] ++ t) [] =
      (lexAll? true true 0 t []).map (([] : List Lexeme) ++ ·) := Option.map_id'.symm
  have hbefore (g : Grammar) : Progress.readAll? g (.initial ⟨false, false, false⟩) [] =
      some ((Progress.initial ⟨false, false, false⟩).nested [] []) := rfl
  obtain ⟨hwhole, -⟩ := hreads.enclose rfl hx (y := '|' :: '[' :: body) ⟨rfl, nofun⟩ hy
    ⟨rfl, rfl⟩ hbefore (fun _ => rfl) (by
      unfold Progress.nested
      rw [hreads.closed]
      rfl)
  rw [List.append_assoc]
  refine hwhole.onePoint
    (Node.onePoint_alt hone (Node.onePoint_atom (.set false s p.modes.ignoreCase)).seq_empty ?_)
  funext t
  rw [Node.run_alt]
  unfold Progress.nested Progress.body
  rw [hreads.closed]
  simp only [nest, List.append_nil]
  exact Node.run_altOfReversed_cons _ _ (List.cons_ne_nil _ _) _ _ _

end Alternatives

/-! ## 4. Groups and what they negate -/

/-- The members of a class that has every character. -/
def everything : CodeSet :=
  .unionOf [Shorthand.space.members.select false, Shorthand.space.members.select true]

theorem contains_everything (n : Nat) : everything.contains n = true := by
  rw [everything, CodeSet.contains_unionOf]
  simp only [List.any_cons, List.any_nil, CodeSet.contains_select]
  cases Shorthand.space.members.contains n <;> rfl

/-- A tree between the start of a text and its end. -/
def Node.whole (n : Node) : Node := .seq (.start false) (.seq n (.seq (.stop false) .empty))

theorem Progress.nested_of_closed {p : Progress} (h : p.frames = []) (around : List Frame) :
    p.nested [] around = { p with frames := around } := by
  unfold Progress.nested
  rw [h]
  simp only [nest, List.append_nil]

namespace Program.Reads

variable {w : Text} {ls : List Lexeme} {p : Progress} (h : Program.Reads w pointMode ls p)

include h

/-- The pattern in a group. -/
theorem ofSource?_group : Program.ofSource? ("(?:".toList ++ (w ++ ")".toList)) pointMode =
    some ⟨.seq p.body .empty, (captureNames ls).length⟩ := by
  have hx (t : Text) : lexAll? true true 0 ("(?:".toList ++ t) [] =
      (lexAll? true true 0 t []).map ([.opening (.plain [] [])] ++ ·) := by
    show lexAll? true true 0 t [.opening (.plain [] [])] = _
    rw [lexAll?_read]
    rfl
  have hy : lexAll? true true 0 ")".toList [] = some [.close] := rfl
  obtain ⟨hreads, hnames⟩ := h.enclose rfl hx (y := ")".toList) ⟨rfl, nofun⟩ hy ⟨rfl, rfl⟩
    (fun _ => rfl) (fun _ => by
      rw [Progress.nested_of_closed h.closed]
      rfl) rfl
  rw [hreads.ofSource?, hnames]
  rfl

/-- The pattern in a group, from the start of a text to its end. -/
theorem ofSource?_whole : Program.ofSource? ("^(?:".toList ++ (w ++ ")$".toList)) pointMode =
    some ⟨p.body.whole, (captureNames ls).length⟩ := by
  have hx (t : Text) : lexAll? true true 0 ("^(?:".toList ++ t) [] =
      (lexAll? true true 0 t []).map ([.lineStart, .opening (.plain [] [])] ++ ·) := by
    show lexAll? true true 0 t [.opening (.plain [] []), .lineStart] = _
    rw [lexAll?_read]
    rfl
  have hy : lexAll? true true 0 ")$".toList [] = some [.close, .lineEnd] := rfl
  obtain ⟨hreads, hnames⟩ := h.enclose rfl hx (y := ")$".toList) ⟨rfl, nofun⟩ hy ⟨rfl, rfl⟩
    (fun _ => rfl) (fun _ => by
      rw [Progress.nested_of_closed h.closed]
      rfl) rfl
  rw [hreads.ofSource?, hnames]
  rfl

/-- A character at which the pattern does not match. -/
theorem exists_other : ∃ ms q,
    Program.Reads ("(?!".toList ++ (w ++ ")[\\s\\S]".toList)) pointMode ms q ∧ q.body =
      .seq (.look false true p.body) (.seq (.atom (.set false everything false)) .empty) := by
  have hx (t : Text) : lexAll? true true 0 ("(?!".toList ++ t) [] =
      (lexAll? true true 0 t []).map ([.opening (.look false true)] ++ ·) := by
    show lexAll? true true 0 t [.opening (.look false true)] = _
    rw [lexAll?_read]
    rfl
  have hy : lexAll? true true 0 ")[\\s\\S]".toList [] = some [.close, .set false everything] := rfl
  obtain ⟨hreads, -⟩ := h.enclose rfl hx (y := ")[\\s\\S]".toList) ⟨rfl, nofun⟩ hy ⟨rfl, rfl⟩
    (fun _ => rfl)
    (r := ⟨p.groups, ⟨false, false, false⟩, [],
      [⟨.atom (.set false everything false), true, p.groups⟩,
        ⟨.look false true p.body, false, 0⟩], []⟩)
    (fun _ => by
      rw [Progress.nested_of_closed h.closed]
      rfl) rfl
  exact ⟨_, _, hreads, rfl⟩

end Program.Reads

/-! ## 5. Texts of one code point -/

namespace Node

variable {n : Node}

theorem run_whole (n : Node) (k : Continuation) (t : Track) : n.whole.run .forward k t =
    if atStart false t.place then
      n.run .forward (fun u => if atStop false u.place then k u else none) t
    else none := by
  have hstop : (Node.seq (.stop false) .empty).run .forward k =
      fun u => if atStop false u.place then k u else none := by
    funext u
    rw [run_seq_forward]
    simp only [run]
  have hinner : (Node.seq n (.seq (.stop false) .empty)).run .forward k =
      n.run .forward fun u => if atStop false u.place then k u else none := by
    funext u
    rw [run_seq_forward, hstop]
  unfold whole
  rw [run_seq_forward, hinner]
  simp only [run]

/-- **Between the ends of a text of one code point**, a pattern for one code point matches just if
it matches there at all. -/
theorem OnePoint.isSome_search?_whole (h : n.OnePoint) (count : Nat) (c : Char) :
    (Program.search? ⟨n.whole, count⟩ (.first [c])).isSome =
      (n.run .forward some ⟨.first [c], []⟩).isSome := by
  have hfirst : (n.whole.run .forward some ⟨.first [c], []⟩).isSome =
      (n.run .forward some ⟨.first [c], []⟩).isSome := by
    have hstart : atStart false (Place.first [c]) = true := rfl
    rw [run_whole]
    simp only [hstart, if_true, run_eq_findSome?, findSome?_some]
    cases hways : n.paths .forward ⟨.first [c], []⟩ with
    | nil => rfl
    | cons u us =>
      -- the first way takes the whole text, so nothing that follows refuses it
      have hu : n.run .forward some ⟨.first [c], []⟩ = some u := by
        rw [run_eq_findSome?, findSome?_some, hways]
        rfl
      obtain ⟨d, hd⟩ := h _ u hu
      have hahead : u.place.ahead = [] := (List.cons.inj hd.ahead).2.symm
      have hstop : atStop false u.place = true := by
        unfold atStop
        rw [hahead]
      simp only [List.findSome?_cons, hstop, if_true, List.head?_cons, Option.isSome_some]
  have hlater {p : Place} (hp : p.behind ≠ []) :
      Program.matchAt? ⟨n.whole, count⟩ p = none := by
    have hstart : atStart false p = false := by
      unfold atStart
      cases hbehind : p.behind with
      | nil => exact absurd hbehind hp
      | cons d ds => rfl
    unfold Program.matchAt?
    simp only [run_whole, hstart, Bool.false_eq_true, if_false]
  have hsearch : Program.search? ⟨n.whole, count⟩ (.first [c]) =
      Program.matchAt? ⟨n.whole, count⟩ (.first [c]) := by
    obtain ⟨q, hq, hbehind⟩ : ∃ q, (Place.first [c]).next? = some (c, q) ∧ q.behind ≠ [] :=
      ⟨_, rfl, List.cons_ne_nil c []⟩
    show Program.searchFrom _ [c] (.first [c]) = _
    simp only [Program.searchFrom, hq, hlater hbehind]
    cases Program.matchAt? ⟨n.whole, count⟩ (.first [c]) <;> rfl
  rw [← hfirst, hsearch]
  unfold Program.matchAt?
  cases n.whole.run .forward some ⟨.first [c], []⟩ <;> rfl

theorem isSome_run_atom (a : Atom) (c : Char) :
    ((Node.atom a).run .forward some ⟨.first [c], []⟩).isSome = a.admits c := by
  simp only [run, Atom.step, Direction.next?, Place.next?, Place.first]
  cases a.admits c <;> rfl

theorem onePoint_other (n : Node) (s : CodeSet) :
    (Node.seq (.look false true n) (.seq (.atom (.set false s false)) .empty)).OnePoint := by
  intro p u hu
  rw [run_seq_forward, run_not] at hu
  split at hu
  · cases hu
  · exact (onePoint_atom _).seq_empty p u hu

/-- The negation of a pattern matches a text of one code point if the pattern does not. -/
theorem isSome_run_other (c : Char) :
    ((Node.seq (.look false true n) (.seq (.atom (.set false everything false)) .empty)).run
      .forward some ⟨.first [c], []⟩).isSome = !(n.run .forward some ⟨.first [c], []⟩).isSome := by
  rw [run_seq_forward, run_not]
  cases n.run .forward some ⟨.first [c], []⟩ with
  | some u => rfl
  | none =>
    simp only [run, isDirect, walk, Atom.step, Direction.next?, Place.next?, Place.first, if_true,
      Atom.admits, contains_everything]
    rfl

end Node

end ExtensibleRegex.Native
