import ExtensibleRegex.Proofs.Native.Anchored
import ExtensibleRegex.Proofs.Native.Cutting
import ExtensibleRegex.Proofs.Native.Marks
import ExtensibleRegex.Proofs.Results
import Mathlib.Tactic

/-!
# Patterns that match alike

Two patterns can match alike without being the same: an empty group more or less makes no
difference. This file carries such a difference through the pass over the lexemes.

* Two passes are `Equiv` when what they have read has the same runs, term by term only where a
  quantifier may still ask for the last one (`Ready`).
* A lexeme keeps two such passes equivalent (`Equiv.read?`), and so do all lexemes that are left
  (`Equiv.readAll?`).
* `meaning` is what a pattern finds from every place, or nothing if it is not well-formed; lexemes
  whose passes are equivalent have the same meaning (`meaningOf_congr`).
* Three exchanges are of this kind: an empty group in front of anything but a quantifier
  (`readAll?_plainGroup`), one character that is read by an equivalent node (`readAll?_push`), and
  a class without members that is written as two assertions (`readAll?_noCharacter`).
-/

namespace ExtensibleRegex.Native

/-! ## 1. Runs of sequences and choices -/

namespace Node

theorem run_seqOf_append_forward (k : Continuation) (bs : List Node) : ∀ (as : List Node) (t : Track),
    (seqOf (as ++ bs)).run .forward k t = (seqOf as).run .forward ((seqOf bs).run .forward k) t
  | [], _ => rfl
  | a :: as, t => by
      show (Node.seq a (seqOf (as ++ bs))).run .forward k t =
        (Node.seq a (seqOf as)).run .forward ((seqOf bs).run .forward k) t
      rw [run_seq_forward, run_seq_forward, funext (run_seqOf_append_forward k bs as)]

theorem run_seqOf_append_backward (bs : List Node) : ∀ (as : List Node) (k : Continuation) (t : Track),
    (seqOf (as ++ bs)).run .backward k t = (seqOf bs).run .backward ((seqOf as).run .backward k) t
  | [], _, _ => rfl
  | a :: as, k, t => by
      show (Node.seq a (seqOf (as ++ bs))).run .backward k t =
        (seqOf bs).run .backward ((Node.seq a (seqOf as)).run .backward k) t
      rw [run_seq_backward, run_seqOf_append_backward bs as,
        funext (run_seq_backward a (seqOf as) k)]

theorem run_seqOf_singleton (a : Node) : (seqOf [a]).run = a.run := by
  funext d k t
  cases d with
  | forward => exact run_seq_forward a .empty k t
  | backward => exact run_seq_backward a .empty k t

theorem run_seqOf_append_congr {as as' bs bs' : List Node}
    (ha : (seqOf as).run = (seqOf as').run) (hb : (seqOf bs).run = (seqOf bs').run) :
    (seqOf (as ++ bs)).run = (seqOf (as' ++ bs')).run := by
  funext d k t
  cases d with
  | forward => rw [run_seqOf_append_forward, run_seqOf_append_forward, ha, hb]
  | backward => rw [run_seqOf_append_backward, run_seqOf_append_backward, ha, hb]

theorem run_foldl_alt_congr : ∀ {as bs : List Node} {a b : Node},
    List.Forall₂ (fun a b => a.run = b.run) as bs → a.run = b.run →
    (as.foldl (fun rest n => Node.alt n rest) a).run =
      (bs.foldl (fun rest n => Node.alt n rest) b).run
  | [], [], _, _, _, h => h
  | x :: as, y :: bs, a, b, hs, h => by
      obtain ⟨hxy, hrest⟩ := List.forall₂_cons.1 hs
      refine run_foldl_alt_congr (a := .alt x a) (b := .alt y b) hrest ?_
      funext d k t
      simp only [run, hxy, h]

theorem run_altOfReversed_congr {as bs : List Node}
    (h : List.Forall₂ (fun a b => a.run = b.run) as bs) :
    (altOfReversed as).run = (altOfReversed bs).run := by
  cases h with
  | nil => rfl
  | cons hlast hearlier => exact run_foldl_alt_congr hearlier hlast

/-- A node without a way through it. -/
def Never (n : Node) : Prop := ∀ d k t, n.run d k t = none

theorem Never.run_eq {a b : Node} (ha : a.Never) (hb : b.Never) : a.run = b.run := by
  funext d k t
  rw [ha, hb]

end Node

/-! ## 2. Equivalent passes -/

/-- Terms, latest first, that run alike when they are read one after another. -/
def Term.Weak (ts us : List Term) : Prop :=
  (Node.seqOf (ts.reverse.map Term.node)).run = (Node.seqOf (us.reverse.map Term.node)).run

namespace Term.Weak

theorem refl (ts : List Term) : Weak ts ts := rfl

/-- Terms that end in nodes which run alike. -/
theorem append {ts us : List Term} (h : Weak ts us) {vs ws : List Term} (hlast : Weak vs ws) :
    Weak (vs ++ ts) (ws ++ us) := by
  unfold Weak at *
  rw [List.reverse_append, List.reverse_append, List.map_append, List.map_append]
  exact Node.run_seqOf_append_congr h hlast

theorem cons {ts us : List Term} (h : Weak ts us) {t u : Term} (hlast : t.node.run = u.node.run) :
    Weak (t :: ts) (u :: us) := by
  have hone : Weak [t] [u] := by
    show (Node.seqOf [t.node]).run = (Node.seqOf [u.node]).run
    rw [Node.run_seqOf_singleton, Node.run_seqOf_singleton, hlast]
  exact h.append hone

end Term.Weak

/-- Groups that are still open, and around which the same has been read but for what runs alike. -/
structure Frame.Equiv (f g : Frame) : Prop where
  kind : f.kind = g.kind
  group : f.group = g.group
  before : f.before = g.before
  modes : f.modes = g.modes
  alternatives : List.Forall₂ (fun a b => a.run = b.run) f.alternatives g.alternatives
  terms : Term.Weak f.terms g.terms

namespace Progress

/-- Passes that have read the same but for what runs alike. -/
structure Equiv (p q : Progress) : Prop where
  groups : p.groups = q.groups
  modes : p.modes = q.modes
  alternatives : List.Forall₂ (fun a b => a.run = b.run) p.alternatives q.alternatives
  terms : Term.Weak p.terms q.terms
  frames : List.Forall₂ Frame.Equiv p.frames q.frames

/-- A quantifier after what two passes have read leads to equivalent passes, or is refused by
both. -/
def Ready (p q : Progress) : Prop := ∀ min max greedy,
  Option.Rel Equiv (p.repeatLast? min max greedy) (q.repeatLast? min max greedy)

theorem forall₂_run_refl (ns : List Node) : List.Forall₂ (fun a b : Node => a.run = b.run) ns ns :=
  List.forall₂_same.2 fun _ _ => rfl

theorem Equiv.refl (p : Progress) : p.Equiv p where
  groups := rfl
  modes := rfl
  alternatives := forall₂_run_refl _
  terms := .refl _
  frames := List.forall₂_same.2 fun _ _ => ⟨rfl, rfl, rfl, rfl, forall₂_run_refl _, .refl _⟩

theorem Ready.refl (p : Progress) : p.Ready p := fun min max greedy => by
  cases p.repeatLast? min max greedy with
  | none => exact .none
  | some q => exact .some (.refl q)

variable {p q : Progress}

/-- A quantifier asks only for the last term. -/
theorem Equiv.ready (h : p.Equiv q) {t u : Term} {ts us : List Term} (hp : p.terms = t :: ts)
    (hq : q.terms = u :: us) (hnode : t.node.run = u.node.run)
    (hrepeatable : t.repeatable = u.repeatable) (hbefore : t.before = u.before)
    (hrest : Term.Weak ts us) : p.Ready q := by
  intro min max greedy
  unfold repeatLast?
  simp only [hp, hq, ← hrepeatable]
  cases t.repeatable with
  | false => exact .none
  | true =>
    refine .some ⟨h.groups, h.modes, h.alternatives, hrest.cons ?_, h.frames⟩
    funext d k x
    simp only [Node.run, hnode, hbefore, h.groups]

/-- After a term that cannot be repeated no quantifier is read. -/
theorem ready_of_not_repeatable {t u : Term} {ts us : List Term} (hp : p.terms = t :: ts)
    (hq : q.terms = u :: us) (ht : t.repeatable = false) (hu : u.repeatable = false) :
    p.Ready q := by
  intro min max greedy
  simp [repeatLast?, hp, hq, ht, hu]

/-- A loop cannot be repeated. -/
theorem not_repeatable_of_repeatLast? {min : Nat} {max : Option Nat} {greedy : Bool}
    (h : p.repeatLast? min max greedy = some q) :
    ∃ t ts, q.terms = t :: ts ∧ t.repeatable = false := by
  unfold repeatLast? at h
  split at h
  · cases h
  · split at h
    · cases h
      exact ⟨_, _, rfl, rfl⟩
    · cases h

theorem ready_of_nil (hp : p.terms = []) (hq : q.terms = []) : p.Ready q := by
  intro min max greedy
  simp [repeatLast?, hp, hq]

theorem Equiv.current (h : p.Equiv q) : p.current.run = q.current.run := h.terms

theorem Equiv.body (h : p.Equiv q) : p.body.run = q.body.run :=
  Node.run_altOfReversed_congr (.cons h.current h.alternatives)

/-- What is read as nodes that run alike. -/
theorem Equiv.push (h : p.Equiv q) {a b : Node} (hab : a.run = b.run) (repeatable : Bool) :
    (p.push a repeatable).Equiv (q.push b repeatable) ∧
      (p.push a repeatable).Ready (q.push b repeatable) := by
  have hpush : (p.push a repeatable).Equiv (q.push b repeatable) :=
    ⟨h.groups, h.modes, h.alternatives, h.terms.cons hab, h.frames⟩
  exact ⟨hpush, hpush.ready rfl rfl hab rfl h.groups h.terms⟩

theorem Equiv.literal (h : p.Equiv q) (n : Nat) :
    (p.literal n).Equiv (q.literal n) ∧ (p.literal n).Ready (q.literal n) := by
  unfold Progress.literal
  rw [← h.modes]
  exact h.push rfl true

theorem Equiv.literals : ∀ (ds : Text) {p q : Progress}, p.Equiv q → p.Ready q →
    (ds.foldl (fun p d => p.literal d.toNat) p).Equiv (ds.foldl (fun p d => p.literal d.toNat) q) ∧
      (ds.foldl (fun p d => p.literal d.toNat) p).Ready
        (ds.foldl (fun p d => p.literal d.toNat) q)
  | [], _, _, h, hready => ⟨h, hready⟩
  | d :: ds, _, _, h, _ => literals ds (h.literal d.toNat).1 (h.literal d.toNat).2

theorem Equiv.openGroup (h : p.Equiv q) (kind : Opening) :
    (p.openGroup kind).Equiv (q.openGroup kind) where
  groups := by cases kind <;> simp [Progress.openGroup, h.groups]
  modes := by cases kind <;> simp [Progress.openGroup, h.modes]
  alternatives := .nil
  terms := .refl []
  frames := by
    refine .cons ⟨rfl, ?_, h.groups, h.modes, h.alternatives, h.terms⟩ h.frames
    cases kind <;> simp [h.groups]

/-- A group that is closed in both passes. -/
theorem Equiv.closeGroup (h : p.Equiv q) (strict : Bool) :
    Option.Rel (fun p q => p.Equiv q ∧ p.Ready q) (p.closeGroup? strict) (q.closeGroup? strict) := by
  have hbody := h.body
  unfold closeGroup?
  obtain ⟨pgroups, pmodes, palts, pterms, pframes⟩ := p
  obtain ⟨qgroups, qmodes, qalts, qterms, qframes⟩ := q
  obtain ⟨hgroups, -, -, -, hframes⟩ := h
  cases hframes with
  | nil => exact .none
  | @cons f g fs gs hfg hrest =>
    simp only at hgroups ⊢
    rw [← hfg.kind]
    -- the group as a node, with whether it may be repeated
    have hclosed {a b : Node} {r : Bool} (hab : a.run = b.run) :
        (⟨pgroups, f.modes, f.alternatives, ⟨a, r, f.before⟩ :: f.terms, fs⟩ : Progress).Equiv
            ⟨qgroups, g.modes, g.alternatives, ⟨b, r, g.before⟩ :: g.terms, gs⟩ ∧
          (⟨pgroups, f.modes, f.alternatives, ⟨a, r, f.before⟩ :: f.terms, fs⟩ : Progress).Ready
            ⟨qgroups, g.modes, g.alternatives, ⟨b, r, g.before⟩ :: g.terms, gs⟩ := by
      have hequiv : (⟨pgroups, f.modes, f.alternatives, ⟨a, r, f.before⟩ :: f.terms, fs⟩ :
          Progress).Equiv ⟨qgroups, g.modes, g.alternatives, ⟨b, r, g.before⟩ :: g.terms, gs⟩ :=
        ⟨hgroups, hfg.modes, hfg.alternatives, hfg.terms.cons hab, hrest⟩
      exact ⟨hequiv, hequiv.ready rfl rfl hab rfl hfg.before hfg.terms⟩
    cases f.kind with
    | capture name =>
      refine .some (hclosed ?_)
      funext d k t
      simp only [Node.run, hbody, hfg.group]
    | plain add remove => exact .some (hclosed hbody)
    | look behind negated =>
      refine .some (hclosed ?_)
      funext d k t
      simp only [Node.run, hbody]

end Progress

/-! ## 3. Lexemes after equivalent passes -/

/-- Whether a lexeme is a quantifier. -/
def Lexeme.isQuantifier : Lexeme → Bool
  | .quantifier _ _ _ => true
  | _ => false

namespace Progress

variable {p q : Progress}

/-- **A lexeme keeps equivalent passes equivalent**, and only a quantifier asks for more than
that. -/
theorem Equiv.read? (h : p.Equiv q) (g : Grammar) {l : Lexeme}
    (hl : l.isQuantifier = true → p.Ready q) :
    Option.Rel (fun p q => p.Equiv q ∧ p.Ready q) (p.read? g l) (q.read? g l) := by
  cases l with
  | literal n => exact .some (h.literal n)
  | any =>
    unfold Progress.read?
    rw [← h.modes]
    exact .some (h.push rfl true)
  | set negated members =>
    unfold Progress.read?
    rw [← h.modes]
    exact .some (h.push rfl true)
  | lineStart =>
    unfold Progress.read?
    rw [← h.modes]
    exact .some (h.push rfl false)
  | lineEnd =>
    unfold Progress.read?
    rw [← h.modes]
    exact .some (h.push rfl false)
  | boundary negated => exact .some (h.push rfl true)
  | decimal digits =>
    unfold Progress.read? decimal?
    simp only
    split
    · rw [← h.modes]
      exact .some (h.push rfl true)
    split
    · exact .none
    · split
      · rename_i hlarge
        exact absurd (Nat.zero_le g.names.length) hlarge
      · exact .some (Equiv.literals _ (h.literal _).1 (h.literal _).2)
  | namedRef name =>
    unfold Progress.read?
    simp only
    split
    · rw [← h.modes]
      exact .some (h.push rfl true)
    · exact .none
  | opening kind => exact .some ⟨h.openGroup kind, ready_of_nil rfl rfl⟩
  | close => exact h.closeGroup g.strict
  | bar =>
    exact .some ⟨⟨h.groups, h.modes, .cons h.current h.alternatives, .refl [], h.frames⟩,
      ready_of_nil rfl rfl⟩
  | quantifier min max greedy =>
    have hready := hl rfl min max greedy
    show Option.Rel _ (p.repeatLast? min max greedy) (q.repeatLast? min max greedy)
    cases hp : p.repeatLast? min max greedy with
    | none =>
      rw [hp] at hready
      generalize q.repeatLast? min max greedy = y at hready
      cases hready
      exact .none
    | some p' =>
      cases hq : q.repeatLast? min max greedy with
      | none =>
        rw [hp, hq] at hready
        cases hready
      | some q' =>
        rw [hp, hq] at hready
        cases hready with
        | some hequiv =>
          obtain ⟨t, ts, ht, hrepeat⟩ := not_repeatable_of_repeatLast? hp
          obtain ⟨u, us, hu, hrepeat'⟩ := not_repeatable_of_repeatLast? hq
          exact .some ⟨hequiv, ready_of_not_repeatable ht hu hrepeat hrepeat'⟩

/-- **What is left is read alike by equivalent passes**, if it does not begin with a quantifier or
the last terms are alike too. -/
theorem Equiv.readAll? (g : Grammar) : ∀ (ls : List Lexeme) {p q : Progress}, p.Equiv q →
    (ls.head?.any Lexeme.isQuantifier = true → p.Ready q) →
    Option.Rel Equiv (Progress.readAll? g p ls) (Progress.readAll? g q ls)
  | [], _, _, h, _ => .some h
  | l :: ls, p, q, h, hready => by
      have hstep := h.read? g (l := l) hready
      unfold Progress.readAll?
      generalize Progress.read? g p l = x at hstep
      generalize Progress.read? g q l = y at hstep
      cases hstep with
      | none => exact .none
      | some hnext => exact Equiv.readAll? g ls hnext.1 fun _ => hnext.2

theorem readAll?_bind (g : Grammar) : ∀ (ls ms : List Lexeme) (p : Progress),
    Progress.readAll? g p (ls ++ ms) = (Progress.readAll? g p ls).bind (Progress.readAll? g · ms)
  | [], _, _ => rfl
  | l :: ls, ms, p => by
      simp only [List.cons_append, Progress.readAll?]
      cases Progress.read? g p l with
      | none => rfl
      | some q => exact readAll?_bind g ls ms q

end Progress

/-! ## 4. Meanings -/

/-- The program of the lexemes of a pattern. -/
def Program.ofLexemes? (mode : Mode) (ls : List Lexeme) : Option Program := do
  let names := captureNames ls
  if names.length ≤ maxGroups ∧ distinctNames names then
    let p ← Progress.readAll? ⟨mode.unicode, names⟩
      (.initial ⟨mode.ignoreCase, mode.multiline, false⟩) ls
    let node ← p.finish?
    return ⟨node, names.length⟩
  else none

theorem Program.ofSource?_eq_bind (source : Text) (mode : Mode) :
    Program.ofSource? source mode = (lexemes? mode.unicode source).bind (ofLexemes? mode) := rfl

/-- What a pattern finds from every place, or nothing if it is not well-formed. -/
def meaning (mode : Mode) (source : Text) : Option (Place → Option Found) :=
  (Program.ofSource? source mode).map Program.search?

/-- Programs with the same runs and the same number of groups find the same. -/
theorem Program.search?_congr {a b : Program} (hnode : a.node.run = b.node.run)
    (hgroups : a.groups = b.groups) : a.search? = b.search? := by
  have hmatch (place : Place) : a.matchAt? place = b.matchAt? place := by
    unfold matchAt?
    rw [hnode, hgroups]
  have hfrom : ∀ (left : Text) (place : Place), a.searchFrom left place = b.searchFrom left place := by
    intro left
    induction left with
    | nil => exact hmatch
    | cons c left ih =>
      intro place
      unfold searchFrom
      rw [hmatch]
      simp only [ih]
  funext place
  exact hfrom _ place

/-- Lexemes that can stand for each other: every pass reads them alike, and they open the same
groups. -/
structure Interchange (ls ms : List Lexeme) : Prop where
  names : captureNames ls = captureNames ms
  read : ∀ g p, Option.Rel Progress.Equiv (Progress.readAll? g p ls) (Progress.readAll? g p ms)

namespace Interchange

variable {ls ms : List Lexeme}

theorem refl (ls : List Lexeme) : Interchange ls ls where
  names := rfl
  read g p := by
    cases Progress.readAll? g p ls with
    | none => exact .none
    | some q => exact .some (.refl q)

/-- The same may stand before them. -/
theorem append_left (h : Interchange ls ms) (before : List Lexeme) :
    Interchange (before ++ ls) (before ++ ms) where
  names := by rw [captureNames_append, captureNames_append, h.names]
  read g p := by
    rw [Progress.readAll?_bind, Progress.readAll?_bind]
    cases Progress.readAll? g p before with
    | none => exact .none
    | some q => exact h.read g q

/-- An empty group may stand in front of anything but a quantifier. -/
theorem plainGroup (h : ls.head?.any Lexeme.isQuantifier = false) :
    Interchange ls (.opening (.plain [] []) :: .close :: ls) where
  names := rfl
  read g p := by
    have hmodes : p.modes.modify [] [] = p.modes := by simp [Modes.modify]
    have hread : Progress.readAll? g p (.opening (.plain [] []) :: .close :: ls) =
        Progress.readAll? g (p.push .empty true) ls := by
      simp only [Progress.readAll?, Progress.read?, Progress.openGroup, Progress.closeGroup?]
      rfl
    rw [hread]
    have hequiv : p.Equiv (p.push .empty true) := by
      refine ⟨rfl, rfl, Progress.forall₂_run_refl _, ?_, (Progress.Equiv.refl p).frames⟩
      have hnothing : Term.Weak [] [⟨.empty, true, p.groups⟩] :=
        (Node.run_seqOf_singleton .empty).symm
      exact (Term.Weak.refl p.terms).append hnothing
    exact hequiv.readAll? g ls fun hq => absurd (h ▸ hq) Bool.false_ne_true

theorem ofLexemes? (h : Interchange ls ms) (mode : Mode) :
    (Program.ofLexemes? mode ls).map Program.search? =
      (Program.ofLexemes? mode ms).map Program.search? := by
  unfold Program.ofLexemes?
  rw [← h.names]
  simp only
  split
  · have hread := h.read ⟨mode.unicode, captureNames ls⟩
      (.initial ⟨mode.ignoreCase, mode.multiline, false⟩)
    generalize Progress.readAll? _ _ ls = x at hread
    generalize Progress.readAll? _ _ ms = y at hread
    cases hread with
    | none => rfl
    | @some p q hpq =>
      have hbody := hpq.body
      have hframes := hpq.frames
      simp only [Option.bind_eq_bind, Option.bind_some, Progress.finish?]
      generalize p.frames = fs at hframes
      generalize q.frames = gs at hframes
      cases hframes with
      | nil =>
        refine congrArg some (Program.search?_congr ?_ rfl)
        exact hbody
      | cons => rfl
  · rfl

end Interchange

/-- Patterns whose lexemes can stand for each other have the same meaning. -/
theorem meaning_congr {mode : Mode} {s t : Text}
    (h : ∀ named, Option.Rel Interchange (lexAll? mode.unicode named 0 s [])
      (lexAll? mode.unicode named 0 t [])) : meaning mode s = meaning mode t := by
  have hlexemes : Option.Rel Interchange (lexemes? mode.unicode s) (lexemes? mode.unicode t) := by
    unfold lexemes?
    have hfirst := h mode.unicode
    generalize lexAll? mode.unicode mode.unicode 0 s [] = x at hfirst
    generalize lexAll? mode.unicode mode.unicode 0 t [] = y at hfirst
    cases hfirst with
    | none => exact .none
    | some hls =>
      simp only
      rw [← hls.names]
      split
      · exact h true
      · exact .some hls
  unfold meaning
  rw [Program.ofSource?_eq_bind, Program.ofSource?_eq_bind]
  generalize lexemes? mode.unicode s = x at hlexemes
  generalize lexemes? mode.unicode t = y at hlexemes
  cases hlexemes with
  | none => rfl
  | some hls => exact hls.ofLexemes? mode

/-! ## 5. Quantifiers in a text -/

theorem lexAll?_read {strict named : Bool} : ∀ (skip : Nat) (t : Text) (read : List Lexeme),
    lexAll? strict named skip t read = (lexAll? strict named skip t []).map (read.reverse ++ ·)
  | _, [], read => by simp [lexAll?]
  | skip + 1, _ :: t, read => lexAll?_read skip t read
  | 0, c :: t, read => by
      simp only [lexAll?]
      cases lexeme? strict named c t with
      | none => rfl
      | some r =>
        simp only
        rw [lexAll?_read r.2 t (r.1 :: read), lexAll?_read r.2 t [r.1], Option.map_map]
        congr 1
        funext ls
        simp

/-- How many rounds the quantifier that a text begins with asks for at least. -/
def leastRounds? : Text → Option Nat
  | '*' :: _ => some 0
  | '+' :: _ => some 1
  | '?' :: _ => some 0
  | '{' :: t => (bracedBounds? t).map Prod.fst
  | _ => none

theorem min_of_quantifier? {least min n m : Nat} {most max : Option Nat} {greedy : Bool} {cs : Text}
    (h : quantifier? least most cs n = some (.quantifier min max greedy, m)) : min = least := by
  unfold quantifier? at h
  split at h
  · split at h <;> cases h <;> rfl
  · cases h

/-- Only what looks like a quantifier is read as one. -/
theorem leastRounds?_of_lexeme? {strict named : Bool} {c : Char} {cs : Text} {min n : Nat}
    {max : Option Nat} {greedy : Bool}
    (h : lexeme? strict named c cs = some (.quantifier min max greedy, n)) :
    leastRounds? (c :: cs) = some min := by
  unfold lexeme? at h
  split at h
  case h_6 => obtain ⟨x, -, hx⟩ := Option.map_eq_some_iff.1 h; cases hx
  case h_7 =>
    simp only [class?] at h
    split at h
    · obtain ⟨x, -, hx⟩ := Option.map_eq_some_iff.1 h
      cases hx
    · cases h
  case h_8 => rw [min_of_quantifier? h]; rfl
  case h_9 => rw [min_of_quantifier? h]; rfl
  case h_10 => rw [min_of_quantifier? h]; rfl
  case h_11 =>
    split at h
    · rename_i hbounds
      rw [min_of_quantifier? h]
      simp only [leastRounds?, hbounds, Option.map_some]
    · split at h <;> cases h
  case h_14 => cases isEscape_escape? h
  all_goals
    first
      | cases h
      | (split at h <;> cases h)

/-- The first lexeme of a text is a quantifier only if the text looks like it. -/
theorem leastRounds?_of_lexAll? {strict named : Bool} {t : Text} {ls : List Lexeme} {min : Nat}
    {max : Option Nat} {greedy : Bool} (h : lexAll? strict named 0 t [] = some ls)
    (hfirst : ls.head? = some (.quantifier min max greedy)) : leastRounds? t = some min := by
  cases t with
  | nil =>
    cases h
    cases hfirst
  | cons c cs =>
    simp only [lexAll?] at h
    cases hl : lexeme? strict named c cs with
    | none => rw [hl] at h; cases h
    | some r =>
      rw [hl] at h
      simp only at h
      rw [lexAll?_read] at h
      obtain ⟨ms, -, rfl⟩ := Option.map_eq_some_iff.1 h
      obtain ⟨l, n⟩ := r
      obtain rfl : l = .quantifier min max greedy := Option.some.inj hfirst
      exact leastRounds?_of_lexeme? hl

/-! ## 6. Exchanges in a text -/

/-- Texts with the same before a landmark, and after it lexemes that can stand for each other. -/
theorem meaning_exchange {mode : Mode} {x s t : Text} (hx : Spot.outside.after x = .outside)
    (hs : Inert s ∧ isLandmark s = true) (ht : Inert t ∧ isLandmark t = true)
    (h : ∀ named, Option.Rel Interchange (lexAll? mode.unicode named 0 s [])
      (lexAll? mode.unicode named 0 t [])) : meaning mode (x ++ s) = meaning mode (x ++ t) := by
  refine meaning_congr fun named => ?_
  rw [lexAll?_split hx hs.1 hs.2, lexAll?_split hx ht.1 ht.2]
  cases lexAll? mode.unicode named 0 x [] with
  | none => exact .none
  | some ls =>
    simp only [Option.bind_some]
    rw [lexAll?_read 0 s, lexAll?_read 0 t]
    have hnamed := h named
    generalize lexAll? mode.unicode named 0 s [] = a at hnamed
    generalize lexAll? mode.unicode named 0 t [] = b at hnamed
    cases hnamed with
    | none => exact .none
    | some hls => exact .some (hls.append_left _)

/-! ## 7. Engines -/

/-- Patterns with the same meaning have engines that find the same. -/
theorem Engine.exists_of_meaning {s t : Text} {mode : Mode} {e : Engine}
    (h : meaning mode t = meaning mode s) (he : Engine.ofSource s mode = .ok e) :
    ∃ e', Engine.ofSource t mode = .ok e' ∧ ∀ place, e'.search? place = e.search? place := by
  unfold meaning at h
  rw [Engine.program_of_ofSource he, Option.map_some, Option.map_eq_some_iff] at h
  obtain ⟨program, hprogram, hsearch⟩ := h
  obtain ⟨e', he', rfl⟩ := Engine.ofSource_of_program hprogram
  exact ⟨e', he', congrFun hsearch⟩

end ExtensibleRegex.Native
