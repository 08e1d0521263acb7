import ExtensibleRegex.Proofs.Dialect.Fresh
import ExtensibleRegex.Proofs.Expansion.Omission
import ExtensibleRegex.Proofs.Expansion.Passage
import ExtensibleRegex.Proofs.Regex.Alike
import Mathlib.Tactic

/-!
# Classes without members

A fresh dialect writes `\b\B` for the class `[]`, which no character is in, and `[\s\S]` for its
complement `[^]`. The second stands for the same in every context. The first is a sequence of two
assertions in place of one atom, and a quantifier behind it takes hold of the last of them only:
`[]*` matches the empty text, `\b\B*` does not (`regex_bareClasses_star`). Where no quantifier that
allows for no round follows, both fail, and so the regex and the native pattern find the same
(`regex_bareClasses`).
-/

namespace ExtensibleRegex

open Native

namespace Native

/-! ## 1. Nodes -/

theorem empty_admits (ic : Bool) (c : Char) : (Atom.set false .empty ic).admits c = false := by
  cases ic <;> simp [Atom.admits, CodeSet.empty, inRanges]

/-- No character is in an empty class. -/
theorem never_empty (ic : Bool) : (Node.atom (.set false .empty ic)).Never := by
  intro d k t
  simp only [Node.run, Atom.step, empty_admits]
  cases d.next? t.place <;> rfl

/-- Every character is in the complement, and every one is a blank or none. -/
theorem run_anyCharacter (ic : Bool) :
    (Node.atom (.set true .empty ic)).run =
      (Node.atom (.set false (.unionOf [Shorthand.space.members.select false,
        Shorthand.space.members.select true]) ic)).run := by
  have hset (n : Nat) : (CodeSet.unionOf [Shorthand.space.members.select false,
      Shorthand.space.members.select true]).contains n = true := by
    rw [CodeSet.contains_unionOf]
    simp only [List.any_cons, List.any_nil, CodeSet.contains_select]
    cases Shorthand.space.members.contains n <;> rfl
  have hadmits (c : Char) : (Atom.set true .empty ic).admits c =
      (Atom.set false (.unionOf [Shorthand.space.members.select false,
        Shorthand.space.members.select true]) ic).admits c := by
    cases ic with
    | false => simp [Atom.admits, CodeSet.empty, inRanges, hset]
    | true =>
      have hsome : (caseOrbit c.toNat).any (fun n => (CodeSet.unionOf
          [Shorthand.space.members.select false,
            Shorthand.space.members.select true]).contains n) = true :=
        List.any_eq_true.2 ⟨_, mem_caseOrbit_self _, hset _⟩
      have hnone : (caseOrbit c.toNat).any CodeSet.empty.contains = false := by
        rw [List.any_eq_false]
        intro n _
        simp [CodeSet.empty, inRanges]
      simp only [Atom.admits, hsome, hnone]
      rfl
  funext d k t
  simp only [Node.run, Atom.step, hadmits]

/-- Nothing is a boundary of a word and none. -/
theorem never_boundaries : (Node.seqOf [.boundary false, .boundary true]).Never := by
  intro d k t
  cases d with
  | forward =>
    show (Node.seq (.boundary false) (.seq (.boundary true) .empty)).run .forward k t = none
    rw [Node.run_seq_forward, funext (Node.run_seq_forward _ _ k)]
    simp only [Node.run]
    split
    · rename_i hat
      rw [if_neg]
      simpa using hat
    · rfl
  | backward =>
    show (Node.seq (.boundary false) (.seq (.boundary true) .empty)).run .backward k t = none
    rw [Node.run_seq_backward, Node.run_seq_backward]
    simp only [Node.run]
    split
    · rename_i hat
      rw [if_neg]
      simpa using hat
    · rfl

/-! ## 2. Quantifiers that ask for a round -/

theorem Node.Never.loop {body : Node} (h : body.Never) {min : Nat} (hmin : 0 < min)
    (max : Option Nat) (greedy : Bool) (groups : GroupRange) :
    (Node.loop body min max greedy groups).Never := by
  intro d k t
  obtain ⟨m, rfl⟩ := Nat.exists_eq_add_of_lt hmin
  simp only [Node.run, Nat.zero_add, requiredRounds]
  exact h _ _ _

/-- A round that keeps to its place is taken only as far as it has to be. -/
theorem optionalRounds_stay (round : Continuation → Continuation) {k : Continuation} {t : Track}
    (hround : ∀ k', round k' t = none ∨ round k' t = k' t) (greedy : Bool) (left : Text)
    (max : Option Nat) : optionalRounds round greedy k left max t = k t := by
  cases left with
  | nil => rfl
  | cons c left =>
    have hstay : round (fun u => if u.place.index = t.place.index then none
        else optionalRounds round greedy k left (max.map (· - 1)) u) t = none := by
      rcases hround _ with h | h
      · exact h
      · rw [h]
        exact if_pos rfl
    unfold optionalRounds
    split
    · rfl
    · split
      · rw [hstay]
      · rw [hstay]
        cases k t <;> rfl

theorem requiredRounds_stay {round : Continuation → Continuation} {k : Continuation} {t : Track}
    (hround : ∀ k', round k' t = none ∨ round k' t = k' t) :
    ∀ n, requiredRounds round k n t = none ∨ requiredRounds round k n t = k t
  | 0 => .inr rfl
  | n + 1 => by
      show round (requiredRounds round k n) t = none ∨ round (requiredRounds round k n) t = k t
      rcases hround (requiredRounds round k n) with h | h
      · exact .inl h
      · rw [h]
        exact requiredRounds_stay hround n

/-- A boundary of a word and then rounds that ask for none. -/
theorem never_boundary_loop {min : Nat} (hmin : 0 < min) (max : Option Nat) (greedy : Bool)
    (first : Nat) :
    (Node.seqOf [.boundary false, .loop (.boundary true) min max greedy ⟨first, 0⟩]).Never := by
  intro d k t
  obtain ⟨m, rfl⟩ := Nat.exists_eq_add_of_lt hmin
  rw [Nat.zero_add]
  have hforget (u : Track) : u.forget ⟨first, 0⟩ = u := if_pos rfl
  -- one round, at a place that is no boundary and at one that is
  have hround (d : Direction) (u : Track) (k' : Continuation) :
      (fun k u => (Node.boundary true).run d k (u.forget ⟨first, 0⟩)) k' u = none ∨
        (fun k u => (Node.boundary true).run d k (u.forget ⟨first, 0⟩)) k' u = k' u := by
    simp only [Node.run, hforget]
    split
    · exact .inr rfl
    · exact .inl rfl
  have hblocked (d : Direction) (k : Continuation) (u : Track) (hu : atBoundary u.place = true) :
      (Node.loop (.boundary true) (m + 1) max greedy ⟨first, 0⟩).run d k u = none := by
    simp only [Node.run, requiredRounds, hforget, hu]
    rfl
  show (Node.seq (.boundary false) (.seq _ .empty)).run d k t = none
  cases d with
  | forward =>
    rw [Node.run_seq_forward, funext (Node.run_seq_forward _ _ k)]
    show (if atBoundary t.place != false then (Node.loop (.boundary true) (m + 1) max greedy
      ⟨first, 0⟩).run .forward (Node.empty.run .forward k) t else none) = none
    split
    · rename_i hat
      exact hblocked .forward _ t (by simpa using hat)
    · rfl
  | backward =>
    rw [Node.run_seq_backward, Node.run_seq_backward]
    show (Node.loop (.boundary true) (m + 1) max greedy ⟨first, 0⟩).run .backward
      ((Node.boundary false).run .backward k) t = none
    cases hat : atBoundary t.place with
    | true => exact hblocked .backward _ t hat
    | false =>
      have hk : (Node.boundary false).run .backward k t = none := by
        simp only [Node.run, hat]
        rfl
      have hrest : optionalRounds (fun k u => (Node.boundary true).run .backward k
          (u.forget ⟨first, 0⟩)) greedy ((Node.boundary false).run .backward k)
          (Direction.backward.remaining t.place) (max.map (· - (m + 1))) t = none :=
        (optionalRounds_stay (fun k u => (Node.boundary true).run .backward k
          (u.forget ⟨first, 0⟩)) (hround .backward t) _ _ _).trans hk
      rcases requiredRounds_stay (hround .backward t) (k := fun u =>
        optionalRounds (fun k u => (Node.boundary true).run .backward k (u.forget ⟨first, 0⟩)) greedy
          ((Node.boundary false).run .backward k) (Direction.backward.remaining u.place)
          (max.map (· - (m + 1))) u) (m + 1) with h | h
      · exact h
      · exact h.trans hrest

/-! ## 3. Lexemes -/

/-- Whether a lexeme is a quantifier that allows for no round. -/
def Lexeme.isOptional : Lexeme → Bool
  | .quantifier min _ _ => min == 0
  | _ => false

namespace Interchange

/-- Two ways to write a class with all characters. -/
theorem anyCharacter (ls : List Lexeme) :
    Interchange (.set true .empty :: ls)
      (.set false (.unionOf [Shorthand.space.members.select false,
        Shorthand.space.members.select true]) :: ls) where
  names := rfl
  read g p := by
    have hpush := (Progress.Equiv.refl p).push (run_anyCharacter p.modes.ignoreCase) true
    exact hpush.1.readAll? g ls fun _ => hpush.2

/-- The class without members, and two assertions that exclude each other. -/
theorem noCharacter {ls : List Lexeme} (h : ls.head?.any Lexeme.isOptional = false) :
    Interchange (.set false .empty :: ls) (.boundary false :: .boundary true :: ls) where
  names := rfl
  read g p := by
    -- one node against a boundary and another one
    have hequiv (u v : Term) (hu : u.node.Never)
        (hv : (Node.seqOf [.boundary false, v.node]).Never) :
        Progress.Equiv { p with terms := u :: p.terms }
          { p with terms := v :: ⟨.boundary false, true, p.groups⟩ :: p.terms } := by
      have hlast : Term.Weak [u] [v, ⟨.boundary false, true, p.groups⟩] :=
        (Node.run_seqOf_singleton u.node).trans (hu.run_eq hv)
      exact ⟨rfl, rfl, Progress.forall₂_run_refl _, (Term.Weak.refl p.terms).append hlast,
        (Progress.Equiv.refl p).frames⟩
    show Option.Rel _ (Progress.readAll? g (p.push (.atom (.set false .empty p.modes.ignoreCase)) true)
      ls) (Progress.readAll? g ((p.push (.boundary false) true).push (.boundary true) true) ls)
    cases ls with
    | nil => exact .some (hequiv _ _ (never_empty _) never_boundaries)
    | cons l ls =>
      by_cases hl : l.isQuantifier = true
      · cases l with
        | quantifier min max greedy =>
          have hmin : 0 < min := Nat.pos_of_ne_zero fun hzero => by
            rw [hzero] at h
            cases h
          unfold Progress.readAll?
          show Option.Rel _
            (Progress.readAll? g { p with terms := ⟨.loop _ min max greedy _, false, p.groups⟩ ::
              p.terms } ls)
            (Progress.readAll? g { p with terms := ⟨.loop _ min max greedy ⟨p.groups,
              p.groups - p.groups⟩, false, p.groups⟩ :: ⟨.boundary false, true, p.groups⟩ ::
              p.terms } ls)
          rw [Nat.sub_self]
          refine (hequiv _ _ ((never_empty _).loop hmin _ _ _)
            (never_boundary_loop hmin max greedy p.groups)).readAll? g ls fun _ => ?_
          exact Progress.ready_of_not_repeatable rfl rfl rfl rfl
        | _ => cases hl
      · refine (hequiv _ _ (never_empty _) never_boundaries).readAll? g (l :: ls)
          fun hq => ?_
        exact absurd hq hl

end Interchange

/-! ## 4. Classes in a text -/

variable {mode : Mode} {x : Text}

/-- A class without members is two assertions that exclude each other, before anything but a
quantifier that allows for no round. -/
theorem meaning_noCharacter (hx : Spot.outside.after x = .outside) {t : Text}
    (h : leastRounds? t ≠ some 0) :
    meaning mode (x ++ ("\\b\\B".toList ++ t)) = meaning mode (x ++ ("[]".toList ++ t)) := by
  have hinert : Inert ("\\b\\B".toList ++ t) ∧ isLandmark ("\\b\\B".toList ++ t) = true :=
    ⟨⟨by decide, fun _ => by show (some 'b' : Option Char) ≠ some 'u'; decide⟩, rfl⟩
  refine (meaning_exchange hx (inert_bracket _) hinert fun named => ?_).symm
  show Option.Rel _ (lexAll? mode.unicode named 0 ('[' :: ']' :: t) [])
    (lexAll? mode.unicode named 0 ('\\' :: 'b' :: '\\' :: 'B' :: t) [])
  have hclass : lexeme? mode.unicode named '[' (']' :: t) = some (.set false .empty, 1) := rfl
  have hboundary (cs : Text) : lexeme? mode.unicode named '\\' ('b' :: cs) =
      some (.boundary false, 1) := by
    cases mode.unicode <;> rfl
  have hnone (cs : Text) : lexeme? mode.unicode named '\\' ('B' :: cs) =
      some (.boundary true, 1) := by
    cases mode.unicode <;> rfl
  simp only [lexAll?, hclass, hboundary, hnone]
  rw [lexAll?_read 0 t [_], lexAll?_read 0 t [_, _]]
  cases ht : lexAll? mode.unicode named 0 t [] with
  | none => exact .none
  | some ls =>
    have hrequires : ls.head?.any Lexeme.isOptional = false := by
      cases hl : ls.head? with
      | none => rfl
      | some l =>
        cases l with
        | quantifier min max greedy =>
          have hmin : min ≠ 0 := fun hzero => h (hzero ▸ leastRounds?_of_lexAll? ht hl)
          simpa [Lexeme.isOptional] using hmin
        | _ => rfl
    exact .some (.noCharacter hrequires)

/-- The complement of a class without members is a class of all characters. -/
theorem meaning_anyCharacter (hx : Spot.outside.after x = .outside) (t : Text) :
    meaning mode (x ++ ("[\\s\\S]".toList ++ t)) = meaning mode (x ++ ("[^]".toList ++ t)) := by
  refine (meaning_exchange hx (inert_bracket _) (inert_bracket _) fun named => ?_).symm
  show Option.Rel _ (lexAll? mode.unicode named 0 ('[' :: '^' :: ']' :: t) [])
    (lexAll? mode.unicode named 0 ('[' :: '\\' :: 's' :: '\\' :: 'S' :: ']' :: t) [])
  have hall : lexeme? mode.unicode named '[' ('^' :: ']' :: t) = some (.set true .empty, 2) := rfl
  have hany : lexeme? mode.unicode named '[' ('\\' :: 's' :: '\\' :: 'S' :: ']' :: t) =
      some (.set false (.unionOf [Shorthand.space.members.select false,
        Shorthand.space.members.select true]), 5) := by
    cases mode.unicode <;> rfl
  simp only [lexAll?, hall, hany]
  rw [lexAll?_read 0 t [_], lexAll?_read 0 t [Lexeme.set false _]]
  cases lexAll? mode.unicode named 0 t [] with
  | none => exact .none
  | some ls => exact .some (.anyCharacter ls)

end Native

/-! ## 5. Patterns with bare classes -/

namespace Reader

/-- Only classes without members and their complements are written in another way. -/
def RewritesBareClasses (cut : Cut) : Prop :=
  ∀ x ∈ cut, x.2.text ≠ x.1 → x.1 = "[]".toList ∨ x.1 = "[^]".toList

/-- No class without members is followed by a quantifier that allows for no round. -/
def RequiresBareClasses (pattern : Text) : Prop :=
  Everywhere (fun s t => s = .outside → "[]".toList.isPrefixOf t = true →
    leastRounds? (t.drop 2) ≠ some 0) .outside pattern

instance (cut : Cut) : Decidable (RewritesBareClasses cut) :=
  inferInstanceAs (Decidable (∀ x ∈ cut, _))

instance (pattern : Text) : Decidable (RequiresBareClasses pattern) :=
  inferInstanceAs (Decidable (Everywhere _ _ pattern))

variable {r : Reader}

/-- What is written for a piece that is read from a bare class. -/
theorem text_of_bareClass {scope : Scope} {ledger : Ledger} {behind w rest : Text} {piece : Segment}
    (h : r.segment scope ledger behind (w ++ rest) = .ok (piece, w.length))
    (hw : w = "[]".toList ∨ w = "[^]".toList) :
    scope = .pattern ∧ piece.scopeAfter scope = .pattern ∧
      piece.text = if w = "[]".toList then "\\b\\B".toList else "[\\s\\S]".toList := by
  rcases hw with rfl | rfl
  · cases scope with
    | pattern => cases h; exact ⟨rfl, rfl, rfl⟩
    | charClass => cases h
  · cases scope with
    | pattern => cases h; exact ⟨rfl, rfl, rfl⟩
    | charClass => cases h

/-- **The pieces of a cut mean what they were read from.** Before them stand `w`, from which all has
been read so far, and `x`, which has been made of it. -/
theorem meaning_written (mode : Mode) : ∀ {cut : Cut} {scope : Scope} {ledger : Ledger}
    {behind w x : Text}, r.Passes [] scope ledger behind cut → RewritesBareClasses cut →
    RequiresBareClasses (w ++ source cut) → Spot.outside.after w = scope.spot →
    Spot.outside.after x = scope.spot →
    meaning mode (x ++ written cut) = meaning mode (x ++ source cut)
  | [], _, _, _, _, _, _, _, _, _, _ => rfl
  | (v, piece) :: cut, scope, ledger, behind, w, x, h, honly, hrequires, hw, hx => by
      obtain ⟨hne, hsegment, hrest⟩ := h
      have honly' : RewritesBareClasses cut := fun y hy => honly y (List.mem_cons_of_mem _ hy)
      rw [source_cons, ← List.append_assoc] at hrequires
      rw [written_cons, source_cons]
      by_cases hsame : piece.text = v
      · rw [hsame]
        by_cases hend : v ++ (source cut ++ []) = ['\\']
        · -- a backslash at the end is the last piece
          have hsource : source cut = [] := by
            cases v with
            | nil => exact absurd rfl hne
            | cons c v =>
              have hnil : v ++ (source cut ++ []) = [] := (List.cons.inj hend).2
              simp only [List.append_eq_nil_iff] at hnil
              exact hnil.2.1
          cases cut with
          | nil => rfl
          | cons y cut => exact absurd hsource (by simp [source, hrest.1])
        · have hafter := after_segment hsegment (by simp [hne]) hend
          rw [hsame] at hafter
          have ih := meaning_written mode (w := w ++ v) (x := x ++ v) hrest honly' hrequires
            (by rw [Spot.after_append, hw, hafter]) (by rw [Spot.after_append, hx, hafter])
          simpa only [List.append_assoc] using ih
      · have hbare : v = "[]".toList ∨ v = "[^]".toList := honly _ List.mem_cons_self hsame
        obtain ⟨rfl, hscope, htext⟩ := text_of_bareClass hsegment hbare
        rw [hscope] at hrest
        have hspot (u : Text) (hu : Spot.outside.after u = .outside) :
            Spot.outside.after (u ++ v) = .outside ∧
              Spot.outside.after (u ++ piece.text) = .outside := by
          rw [Spot.after_append, Spot.after_append, hu, htext]
          rcases hbare with hv | hv
          · rw [hv, if_pos rfl]
            exact ⟨rfl, rfl⟩
          · rw [hv, if_neg (by decide)]
            exact ⟨rfl, rfl⟩
        have ih := meaning_written mode (w := w ++ v) (x := x ++ piece.text) hrest honly'
          hrequires (hspot w hw).1 (hspot x hx).2
        simp only [List.append_assoc] at ih
        rw [ih, htext]
        rcases hbare with rfl | rfl
        · rw [if_pos rfl]
          rw [List.append_assoc] at hrequires
          exact meaning_noCharacter hx (hrequires.at w hw rfl)
        · rw [if_neg (by decide)]
          exact meaning_anyCharacter hx (source cut)

end Reader

/-! ## 6. Regexes -/

/-- The engine has no patterns with a mode modifier. -/
theorem Native.Engine.modeModifier?_source (e : Engine) : modeModifier? e.source = none := by
  cases h : modeModifier? e.source with
  | none => rfl
  | some modifier =>
    obtain ⟨ls, p, hreads, -⟩ := Program.ofSource?_eq_some_iff.1 e.program_eq
    have hlexed := hreads.lexed
    obtain ⟨c, names, body, hsource, -⟩ := modeModifier?_eq_some h
    rw [hsource] at h hlexed
    have hlexeme (strict named : Bool) := lexeme?_of_modeModifier? h strict named
    unfold lexemes? at hlexed
    rw [show lexAll? e.mode.unicode e.mode.unicode 0 ('(' :: '?' :: c :: (names ++ ')' :: body)) [] =
      none by simp only [lexAll?, hlexeme]] at hlexed
    cases hlexed

theorem native_ne_ok_of_modeModifier? {pattern flags : Text} {modifier : Text × Text}
    (h : modeModifier? pattern = some modifier) (re : Regex) : Regex.native pattern flags ≠ .ok re := by
  intro hre
  obtain ⟨-, -, hre⟩ := bind_eq_ok.1 hre
  obtain ⟨e, he, -⟩ := bind_eq_ok.1 hre
  have hnone := e.modeModifier?_source
  rw [(Engine.ofSource_eq_ok.1 he).1, h] at hnone
  cases hnone

namespace Context

/-- **A pattern in which only bare classes are written in another way finds what it finds as a native
pattern**, if no class without members is followed by a quantifier that allows for no round, and
repeated empty groups stand outside of classes and escapes. -/
theorem regex_bareClasses {pattern : Text} {re native : Regex} {cut : Reader.Cut}
    (hre : (answer (regex pattern []) initial).1 = .ok re)
    (hnative : Regex.native pattern [] = .ok native)
    (hsource : Reader.source cut = pattern)
    (hcut : (⟨[], false⟩ : Reader).Passes [] .pattern .empty [] cut)
    (honly : Reader.RewritesBareClasses cut) (hrequires : Reader.RequiresBareClasses pattern)
    (htame : Tame (Reader.written cut)) : re.Alike native := by
  have hprepare : Dialect.initial.flags.prepare pattern [] = .ok ⟨pattern, []⟩ := by
    cases hmodifier : modeModifier? pattern with
    | none => exact prepare_of_modeModifier? hmodifier
    | some modifier => exact absurd hnative (native_ne_ok_of_modeModifier? hmodifier native)
  obtain ⟨prepared, pieces, hprepare', hread, hwritten, -⟩ := regex_initial hre
  obtain rfl := Except.ok.inj (hprepare.symm.trans hprepare')
  obtain ⟨hmode, hsticky⟩ := regex_initial_flags hre hprepare
  have hpieces : pieces = cut.map Prod.snd := by
    rw [← hsource] at hread
    exact Except.ok.inj (hread.symm.trans hcut.read)
  obtain ⟨-, -, hrest⟩ := bind_eq_ok.1 hnative
  obtain ⟨e, he, hnative⟩ := bind_eq_ok.1 hrest
  obtain rfl := Except.ok.inj hnative
  obtain ⟨hesource, hemode⟩ := Engine.ofSource_eq_ok.1 he
  refine Regex.alike_of_meaning hsticky rfl (hmode.trans hemode.symm) ?_
  show _ = meaning _ e.source
  rw [hwritten, hpieces, hesource, ← hsource]
  exact (meaning_merged htame).trans (Reader.meaning_written _ (w := []) (x := []) hcut honly
    (hsource ▸ hrequires) rfl rfl)

/-- A class without members in an alternative, and a class of all characters in a group. -/
theorem regex_bareClasses_group :
    ∃ re native, (answer (regex "a[]|([^]+b)".toList []) initial).1 = .ok re ∧
      Regex.native "a[]|([^]+b)".toList [] = .ok native ∧ re.Alike native := by
  have hcut : (⟨[], false⟩ : Reader).Passes [] .pattern .empty []
      [(['a'], .copied ['a']), ("[]".toList, .written "\\b\\B".toList), (['|'], .copied ['|']),
        (['('], .opens none), ("[^]".toList, .written "[\\s\\S]".toList), (['+'], .copied ['+']),
        (['b'], .copied ['b']), ([')'], .copied [')'])] := by decide +kernel
  obtain ⟨program, hprogram⟩ : ∃ program, Program.ofSource? "a\\b\\B|([\\s\\S]+b)".toList
      ⟨false, false, false⟩ = some program := ⟨_, rfl⟩
  obtain ⟨re, hre, -⟩ := exists_regex rfl hcut.read rfl hprogram
  obtain ⟨native, hnative⟩ : ∃ native, Regex.native "a[]|([^]+b)".toList [] = .ok native := ⟨_, rfl⟩
  exact ⟨re, native, hre, hnative, regex_bareClasses hre hnative rfl hcut (by decide) (by decide)
    (by decide)⟩

/-- Behind a class without members a quantifier that allows for no round finds the empty text; what
is written for the class does not. -/
theorem regex_bareClasses_star :
    ∃ re native, (answer (regex "[]*".toList []) initial).1 = .ok re ∧
      Regex.native "[]*".toList [] = .ok native ∧
      re.searchFrom? [] 0 false = none ∧
      (native.searchFrom? [] 0 false).map (fun c => c.slots.map (·.map Span.text)) =
        some [some []] := by
  have hread : (⟨[], false⟩ : Reader).read "[]*".toList =
      .ok [.written "\\b\\B".toList, .copied ['*']] := by decide +kernel
  have hprogram : Program.ofSource? "\\b\\B*".toList ⟨false, false, false⟩ =
      some ⟨.seq (.boundary false) (.seq (.loop (.boundary true) 0 none true ⟨0, 0⟩) .empty), 0⟩ := by
    decide +kernel
  have hprogram' : Program.ofSource? "[]*".toList ⟨false, false, false⟩ =
      some ⟨.seq (.loop (.atom (.set false .empty false)) 0 none true ⟨0, 0⟩) .empty, 0⟩ := by
    decide +kernel
  obtain ⟨re, hre, -, hnode⟩ := exists_regex rfl hread rfl hprogram
  obtain ⟨e, he, hnode'⟩ := Engine.ofSource_of_program hprogram'
  obtain ⟨native, hnative, hengine⟩ : ∃ native, Regex.native "[]*".toList [] = .ok native ∧
      native.engine = e := ⟨_, bind_eq_ok.2 ⟨_, rfl, bind_eq_ok.2 ⟨e, he, rfl⟩⟩, rfl⟩
  refine ⟨re, native, hre, hnative, ?_, ?_⟩
  · simp only [Regex.searchFrom?, Regex.searchAt?, Engine.search?, hnode]
    rfl
  · simp only [Regex.searchFrom?, Regex.searchAt?, Engine.search?, hengine, hnode']
    rfl

end Context

end ExtensibleRegex
