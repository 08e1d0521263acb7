import ExtensibleRegex.Proofs.Combine.Pieces
import ExtensibleRegex.Proofs.Expansion.Ending
import ExtensibleRegex.Proofs.Expansion.Items
import Mathlib.Tactic

/-!
# Ways to count groups

The capturing groups of a native pattern are met by three readers, each with steps of its own: the count
that is read off the text (`countGroups`), the pieces that a union moves, and the native tokens that an
expansion copies. A match shows how many groups the engine has seen. This file says that all agree:

* a match has a slot for itself and one for each group that is counted (`slots_eq_countGroups`);
* pieces make up the text that they are cut from, whatever it is (`renderPieces_pieces`);
* where classes are closed and no group is named, pieces and copied tokens hold as many groups as are
  counted (`groupCounts_agree`).

The readers part a text at different places. What relates them is that each part leads from outside of
classes and escapes to there again, or ends the text, and marks what its first character marks.
-/

namespace ExtensibleRegex

open Native

/-! ## 1. The slots of a match -/

namespace Native

/-- **A match has a slot for itself and one for each group that is counted**, in every pattern that the
engine takes and from every offset. -/
theorem slots_eq_countGroups {source : Text} {flags : NativeFlags} {e : Engine}
    (he : Engine.ofSource source flags.mode = .ok e) {text : Text} {start : Nat} {f : Found}
    (hf : (Place.atOffset? text start).bind e.search? = some f) :
    (some f.whole :: f.groups).length = countGroups source + 1 := by
  obtain ⟨p, -, hsearch⟩ := Option.bind_eq_some_iff.1 hf
  have hslots := Program.length_groups_of_matchAt? (Program.searchFrom_eq_some _ p f hsearch).1
  have hcount := Program.groups_eq_countGroups (Engine.program_of_ofSource he)
  rw [List.length_cons, hslots, hcount]

/-- A lookbehind, a class and an escape hold parentheses, and of three groups only one takes part. -/
theorem slots_eq_countGroups_lookbehind :
    ∃ e f, Engine.ofSource "(?<=[(])(?<n>b)|(\\()(c)".toList ({} : NativeFlags).mode = .ok e ∧
      (Place.atOffset? "é(b".toList 2).bind e.search? = some f ∧
      f.groups.map Option.isSome = [true, false, false] ∧
      (some f.whole :: f.groups).length = countGroups "(?<=[(])(?<n>b)|(\\()(c)".toList + 1 := by
  obtain ⟨program, hprogram⟩ : ∃ program, Program.ofSource? "(?<=[(])(?<n>b)|(\\()(c)".toList
    ({} : NativeFlags).mode = some program := ⟨_, rfl⟩
  obtain ⟨e, he, heq⟩ := Engine.ofSource_of_program hprogram
  have htaken : ((Place.atOffset? "é(b".toList 2).bind e.search?).map (·.groups.map Option.isSome) =
      some [true, false, false] := by
    cases hprogram
    simp only [show e.search? = e.program.search? from rfl, heq]
    rfl
  obtain ⟨f, hf, hgroups⟩ := Option.map_eq_some_iff.1 htaken
  exact ⟨e, f, he, hf, hgroups, slots_eq_countGroups he hf⟩

end Native

/-! ## 2. Pieces -/

/-- The first piece of a text, and what is left of the text behind it. -/
inductive FirstPiece : Text → Piece → Text → Prop
  | capture {rest : Text} (head : rest.head? ≠ some '?') : FirstPiece ('(' :: rest) .capture rest
  | opens {rest : Text} (head : rest.head? = some '?') : FirstPiece ('(' :: rest) (.verbatim ['(']) rest
  | number {digits : Text} (ne_nil : digits ≠ []) (isDigit : ∀ d ∈ digits, d.isDigit = true)
      (not_zero : digits.head? ≠ some '0') (rest : Text) :
      FirstPiece ('\\' :: (digits ++ rest)) (.backref (readDigits 10 digits)) rest
  | escape (c : Char) (rest : Text) : FirstPiece ('\\' :: c :: rest) (.verbatim ['\\', c]) rest
  | lone : FirstPiece ['\\'] (.verbatim ['\\']) []
  | set {body : Text} (closes : ClassBody body) (rest : Text) :
      FirstPiece ('[' :: (body ++ rest)) (.verbatim ('[' :: body)) rest
  | unclosed {rest : Text} (none : classLengthFrom 0 rest = none) :
      FirstPiece ('[' :: rest) (.verbatim ['[']) rest
  | other {c : Char} (plain : isPlain c = true ∨ c = ']') (rest : Text) :
      FirstPiece (c :: rest) (.verbatim [c]) rest

/-- A text that is not empty has a first piece. -/
theorem exists_firstPiece (c : Char) (cs : Text) : ∃ p rest, FirstPiece (c :: cs) p rest ∧
    pieces (c :: cs) false = p :: pieces rest false := by
  by_cases hparen : c = '('
  · subst hparen
    by_cases hq : cs.head? = some '?'
    · exact ⟨_, cs, .opens hq, pieces_opens hq⟩
    · exact ⟨_, cs, .capture hq, pieces_capture hq⟩
  by_cases hback : c = '\\'
  · subst hback
    cases cs with
    | nil => exact ⟨_, [], .lone, rfl⟩
    | cons d ds =>
      by_cases hd : d.isDigit = true ∧ d ≠ '0'
      · have hsplit := takeWhile_append_drop Char.isDigit (d :: ds)
        have hafter := head?_drop_takeWhile Char.isDigit (d :: ds)
        have hhead : ((d :: ds).takeWhile Char.isDigit).head? = some d := by simp [hd.1]
        have hdigits := List.all_eq_true.1 (List.all_takeWhile (p := Char.isDigit) (l := d :: ds))
        generalize (d :: ds).takeWhile Char.isDigit = digits at hsplit hafter hhead hdigits
        have hne : digits ≠ [] := by
          rintro rfl
          cases hhead
        have hzero : digits.head? ≠ some '0' := by
          rw [hhead]
          exact fun h => hd.2 (Option.some.inj h)
        rw [hsplit]
        exact ⟨_, _, .number hne hdigits hzero _, pieces_number hne hdigits hzero hafter⟩
      · have hescape : d.isDigit = true → d = '0' := fun h => by
          by_contra hzero
          exact hd ⟨h, hzero⟩
        exact ⟨_, ds, .escape d ds, pieces_escape hescape ds⟩
  by_cases hopen : c = '['
  · subst hopen
    cases hclass : classLengthFrom 0 cs with
    | none =>
      have hat : pieceAt false '[' cs = (.verbatim ['['], 0) := by simp [pieceAt, hclass]
      exact ⟨_, cs, .unclosed hclass, pieces_cons hat⟩
    | some n =>
      obtain ⟨body, rest, rfl, -, hbody⟩ := classBody_of_length cs.length cs 0 n (Nat.le_refl _) hclass
      exact ⟨_, rest, .set hbody rest, pieces_class hbody rest⟩
  · have hplain : isPlain c = true ∨ c = ']' := by
      by_cases hclose : c = ']'
      · exact .inr hclose
      · exact .inl (by simp [isPlain, hparen, hback, hopen, hclose])
    exact ⟨_, cs, .other hplain cs, pieces_plain hplain cs⟩

namespace FirstPiece

variable {t rest : Text} {p : Piece}

/-- A piece is written as it was read. -/
theorem render_append (h : FirstPiece t p rest) : p.render ++ rest = t := by
  cases h with
  | number ne_nil isDigit not_zero rest =>
    show '\\' :: (decimalText _ ++ rest) = _
    rw [decimalText_readDigits _ isDigit ne_nil not_zero]
  | _ => rfl

theorem render_ne_nil (h : FirstPiece t p rest) : p.render ≠ [] := by
  cases h <;> exact List.cons_ne_nil _ _

theorem shorter (h : FirstPiece t p rest) : rest.length < t.length := by
  have hpos := List.length_pos_iff.2 h.render_ne_nil
  rw [← h.render_append, List.length_append]
  omega

end FirstPiece

/-- **Pieces make up the text that they are cut from.** -/
theorem renderPieces_pieces : ∀ t : Text, renderPieces (pieces t false) = t
  | [] => rfl
  | c :: cs => by
      obtain ⟨p, rest, hfirst, hpieces⟩ := exists_firstPiece c cs
      have hshorter : rest.length < cs.length + 1 := hfirst.shorter
      have hcons : renderPieces (p :: pieces rest false) = p.render ++ renderPieces (pieces rest false) :=
        List.flatMap_cons
      rw [hpieces, hcons, renderPieces_pieces rest, hfirst.render_append]
termination_by t => t.length

/-! ## 3. Closed classes and groups without names -/

/-- Every class of a text is closed: the text does not end in one. -/
def ClassesClosed (t : Text) : Prop := (Spot.outside.after t).inClass = false

instance (t : Text) : Decidable (ClassesClosed t) := inferInstanceAs (Decidable (_ = _))

/-- Outside of classes and escapes no text begins with a group that has a name: behind `(?<` comes an
equals sign or an exclamation mark. -/
def OpensNoName (s : Spot) (t : Text) : Prop :=
  s = .outside → ['(', '?', '<'] <+: t → (t.drop 3).head? = some '=' ∨ (t.drop 3).head? = some '!'

instance (s : Spot) (t : Text) : Decidable (OpensNoName s t) :=
  inferInstanceAs (Decidable (_ → _ → _ ∨ _))

/-- Without a name, a parenthesis captures unless a question mark follows. -/
theorem parenMarks_of_opensNoName {rest : Text} (h : OpensNoName .outside ('(' :: rest)) :
    parenMarks rest = if rest.head? = some '?' then [] else [false] := by
  split
  · rename_i hq
    obtain ⟨cs, rfl⟩ := List.head?_eq_some_iff.1 hq
    rw [parenMarks_of_eq hq]
    have hquiet : opensCapture ('?' :: cs) = false := by
      cases cs with
      | nil => rfl
      | cons d ds =>
        by_cases hd : d = '<'
        · subst hd
          rcases h rfl ⟨ds, rfl⟩ with hlook | hlook
          · obtain ⟨es, hes⟩ := List.head?_eq_some_iff.1 hlook
            obtain rfl : ds = '=' :: es := hes
            rfl
          · obtain ⟨es, hes⟩ := List.head?_eq_some_iff.1 hlook
            obtain rfl : ds = '!' :: es := hes
            rfl
        · simp [opensCapture, hd]
    simp [hquiet]
  · rename_i hq
    exact parenMarks_of_ne hq

/-- A text in which the search for the end of a class fails ends in the class. -/
theorem inClass_of_unclosed : ∀ (t : Text) (taken : Nat), classLengthFrom taken t = none →
    (Spot.inside.after t).inClass = true
  | [], _, _ => rfl
  | c :: t, taken, h => by
      by_cases hclose : c = ']'
      · subst hclose
        rw [classLengthFrom_close] at h
        cases h
      by_cases hback : c = '\\'
      · subst hback
        cases t with
        | nil => rfl
        | cons d t =>
          rw [classLengthFrom_escape] at h
          exact inClass_of_unclosed t (taken + 2) h
      · rw [classLengthFrom_other hclose hback] at h
        have hnext : Spot.inside.next c = .inside := by simp [Spot.next, hback, hclose]
        rw [Spot.after_cons, hnext]
        exact inClass_of_unclosed t (taken + 1) h

/-- A class is passed over up to its closing bracket. -/
theorem Native.Scans.classBody {α : Type} {F : Spot → Text → α} (hF : Scans F) {body : Text}
    (h : ClassBody body) (rest : Text) : F .inside (body ++ rest) = F .outside rest := by
  induction h with
  | close => exact hF.inClass ']' rest
  | escape c _ ih =>
    rw [List.cons_append, List.cons_append, hF.inClass]
    exact ((hF.passes true).escaped c _).trans ih
  | @other c cs hclose hback _ ih =>
    have hnext : Spot.inside.next c = .inside := by simp [Spot.next, hback, hclose]
    rw [List.cons_append, hF.inClass, hnext, ih]

namespace FirstPiece

variable {t rest : Text} {p : Piece}

/-- A piece leads to outside of classes and escapes again, unless it ends the text. -/
theorem after_render (h : FirstPiece t p rest) (closed : ClassesClosed t) :
    rest = [] ∨ Spot.outside.after p.render = .outside := by
  cases h with
  | capture => exact .inr rfl
  | opens => exact .inr rfl
  | number ne_nil isDigit not_zero =>
    refine .inr ?_
    show Spot.outside.after ('\\' :: decimalText _) = .outside
    rw [decimalText_readDigits _ isDigit ne_nil not_zero]
    obtain ⟨d, ds, rfl⟩ := List.exists_cons_of_ne_nil ne_nil
    exact (unmarked_escape d (fun c hc => isPlain_of_isDigit (isDigit c (List.mem_cons_of_mem d hc)))
      false).after
  | escape c => exact .inr rfl
  | lone => exact .inl rfl
  | set closes =>
    exact .inr closes.after
  | unclosed none =>
    have hin := inClass_of_unclosed _ _ none
    rw [ClassesClosed] at closed
    exact absurd (hin.symm.trans closed) (by decide)
  | @other c plain =>
    refine .inr ?_
    show Spot.outside.next c = .outside
    rcases plain with hplain | rfl
    · exact after_of_isPlain (b := false) (w := [c]) (by simpa using hplain)
    · rfl

/-- A piece marks a group just if it is the parenthesis of one. -/
theorem captureMarks_eq (h : FirstPiece t p rest) (closed : ClassesClosed t)
    (unnamed : OpensNoName .outside t) : captureMarks false t =
      (if p = .capture then [false] else []) ++ captureMarks false rest := by
  cases h with
  | capture head => rw [captureMarks_paren, parenMarks_of_opensNoName unnamed, if_neg head]; rfl
  | opens head => rw [captureMarks_paren, parenMarks_of_opensNoName unnamed, if_pos head]; rfl
  | number ne_nil isDigit =>
    obtain ⟨d, ds, rfl⟩ := List.exists_cons_of_ne_nil ne_nil
    exact (unmarked_escape d (fun c hc => isPlain_of_isDigit (isDigit c (List.mem_cons_of_mem d hc)))
      false).marks rest
  | escape c => exact captureMarks_escape false (c :: rest)
  | lone => rfl
  | set closes => exact scans_marksFrom.classBody closes rest
  | unclosed none =>
    have hin := inClass_of_unclosed _ _ none
    rw [ClassesClosed] at closed
    exact absurd (hin.symm.trans closed) (by decide)
  | other plain =>
    rcases plain with hplain | rfl
    · exact captureMarks_plain hplain rest
    · simp [captureMarks]

end FirstPiece

theorem opensNoName_nil (s : Spot) : OpensNoName s [] := fun _ h => absurd (List.prefix_nil.1 h) (by simp)

/-- **As many pieces are parentheses of groups as are counted.** -/
theorem count_capture_pieces : ∀ t : Text, ClassesClosed t → Everywhere OpensNoName .outside t →
    (pieces t false).count .capture = countGroups t
  | [], _, _ => rfl
  | c :: cs, closed, unnamed => by
      obtain ⟨p, rest, hfirst, hpieces⟩ := exists_firstPiece c cs
      have hshorter : rest.length < cs.length + 1 := hfirst.shorter
      have hmarks := hfirst.captureMarks_eq closed (Everywhere.at [] unnamed)
      have hrest : ClassesClosed rest ∧ Everywhere OpensNoName .outside rest := by
        rcases hfirst.after_render closed with rfl | hafter
        · exact ⟨rfl, opensNoName_nil _⟩
        · have hclosed : (Spot.outside.after (p.render ++ rest)).inClass = false := by
            rw [hfirst.render_append]
            exact closed
          rw [Spot.after_append, hafter] at hclosed
          rw [← hfirst.render_append] at unnamed
          have hunnamed := Everywhere.of_append p.render unnamed
          rw [hafter] at hunnamed
          exact ⟨hclosed, hunnamed⟩
      have ih := count_capture_pieces rest hrest.1 hrest.2
      rw [countGroups, countGroupsFrom_eq, Nat.zero_add] at ih ⊢
      rw [hpieces, hmarks, List.length_append, List.count_cons, ih]
      by_cases hp : p = .capture
      · rw [if_pos hp, hp, if_pos (beq_self_eq_true _), List.length_singleton, Nat.add_comm]
      · rw [if_neg hp, if_neg (by simpa using hp), List.length_nil, Nat.add_comm]
termination_by t => t.length

/-! ## 4. Copied tokens -/

namespace Run

variable {s : RunSetting} {r : Run}

/-- The states in which the first `limit` steps of a run are made, without the step that ends it. -/
def states (s : RunSetting) : (limit : Nat) → Run → List Run
  | 0, _ => []
  | limit + 1, r =>
    match r.step s with
    | .running r' => r :: states s limit r'
    | _ => []

/-- The native token at the place of a run, which is copied where no other token takes it. -/
def nativeToken (r : Run) : Text := r.place.ahead.take (verbatimLength r.scope r.place.ahead)

/-- Whether a run is outside of classes at the token of a parenthesis that no question mark follows. -/
def atBareParenthesis (r : Run) : Bool :=
  r.scope == .pattern && r.nativeToken == ['('] && (r.place.ahead.drop 1).head? != some '?'

/-- Without tokens, a step copies. -/
theorem step_without_tokens (hs : s.tokens = []) (hne : r.place.ahead ≠ []) :
    r.step s = .running r.copy := by
  have hgoes : r.place.atEnd = false := by simpa [Place.atEnd] using hne
  have hnone : firstToken? s.tokens r.place r.scope s.flags = none := by rw [hs]; rfl
  unfold step
  simp only [hgoes, Bool.false_eq_true, and_false, if_false, hnone]

theorem ahead_copy (r : Run) :
    r.copy.place.ahead = r.place.ahead.drop (verbatimLength r.scope r.place.ahead) :=
  Place.ahead_advance _ _

/-- The marks from the place of a run on. -/
def marksAhead (r : Run) : List Bool := captureMarks (r.scope = .charClass) r.place.ahead

/-- A token that is copied marks a group just if it is the parenthesis of one. -/
theorem marksAhead_eq (hne : r.place.ahead ≠ [])
    (unnamed : Everywhere OpensNoName r.scope.spot r.place.ahead) :
    r.marksAhead = (if r.atBareParenthesis then [false] else []) ++ r.copy.marksAhead := by
  obtain ⟨c, cs, hahead⟩ := List.exists_cons_of_ne_nil hne
  have hnext : r.copy.place.ahead = (c :: cs).drop (verbatimLength r.scope (c :: cs)) := by
    rw [ahead_copy, hahead]
  have htoken : r.nativeToken = (c :: cs).take (verbatimLength r.scope (c :: cs)) := by
    rw [nativeToken, hahead]
  have hsplit : r.nativeToken ++ r.copy.place.ahead = c :: cs := by
    rw [htoken, hnext, List.take_append_drop]
  have hend : c :: cs = ['\\'] → r.copy.place.ahead = [] := by
    intro hlone
    rw [hnext, hlone]
    cases r.scope <;> rfl
  have hmarks := marks_copied r.scope c cs r.copy.place.ahead hend
  rw [← htoken, hsplit] at hmarks
  have hcopy : r.copy.marksAhead =
      captureMarks (Run.scopeAfter r.scope r.nativeToken = .charClass) r.copy.place.ahead := rfl
  rw [marksAhead, hahead, hmarks, hcopy]
  congr 1
  -- what the token marks
  by_cases hparen : r.scope = .pattern ∧ r.nativeToken = ['(']
  · obtain ⟨hscope, hopen⟩ := hparen
    rw [hopen, List.singleton_append] at hsplit
    rw [hscope, hahead, ← hsplit] at unnamed
    have hbare : r.atBareParenthesis = (r.copy.place.ahead.head? != some '?') := by
      unfold atBareParenthesis
      rw [hscope, hopen, hahead, ← hsplit]
      rfl
    rw [hbare, Segment.marks, if_pos ⟨hscope, hopen⟩, parenMarks_of_opensNoName (Everywhere.at [] unnamed)]
    by_cases hq : r.copy.place.ahead.head? = some '?' <;> simp [hq]
  · have hbare : r.atBareParenthesis = false := by
      unfold atBareParenthesis
      by_contra h
      simp only [Bool.not_eq_false, Bool.and_eq_true, beq_iff_eq] at h
      exact hparen h.1
    rw [hbare, Segment.marks, if_neg hparen]
    rfl

/-- What is behind a copied token names no group either. -/
theorem unnamed_copy (hne : r.place.ahead ≠ [])
    (unnamed : Everywhere OpensNoName r.scope.spot r.place.ahead) :
    Everywhere OpensNoName r.copy.scope.spot r.copy.place.ahead := by
  obtain ⟨c, cs, hahead⟩ := List.exists_cons_of_ne_nil hne
  have hafter := after_copied r.scope c cs
  rw [ahead_copy, hahead]
  by_cases hlone : c :: cs = ['\\']
  · have hnil : (c :: cs).drop (verbatimLength r.scope (c :: cs)) = [] := by
      rw [hlone]
      cases r.scope <;> rfl
    rw [hnil]
    exact opensNoName_nil _
  · have hscope : r.copy.scope.spot =
        r.scope.spot.after ((c :: cs).take (verbatimLength r.scope (c :: cs))) := by
      rw [hafter hlone]
      show (scopeAfter r.scope (r.place.ahead.take _)).spot = _
      rw [hahead]
    rw [hahead, ← List.take_append_drop (verbatimLength r.scope (c :: cs)) (c :: cs)] at unnamed
    rw [hscope]
    exact Everywhere.of_append _ unnamed

/-- **A run without tokens copies what is ahead of it** and meets a bare parenthesis for each mark. -/
theorem copies_ahead (hs : s.tokens = []) : ∀ {limit : Nat} {r : Run}, r.rounds = 0 →
    r.place.ahead.length < limit → Everywhere OpensNoName r.scope.spot r.place.ahead →
    ∃ r', r.steps s limit = .finished r' ∧
      r'.output.reverse.flatten = r.output.reverse.flatten ++ r.place.ahead ∧
      (states s limit r).countP atBareParenthesis = r.marksAhead.length
  | 0, _, _, hlimit, _ => absurd hlimit (Nat.not_lt_zero _)
  | limit + 1, r, hrounds, hlimit, unnamed => by
      by_cases hnil : r.place.ahead = []
      · have hstep : r.step s = .finished r := by
          unfold step
          rw [if_pos ⟨hrounds, atEnd_iff.2 hnil⟩]
        refine ⟨r, steps_succ_of_ended hstep nofun limit, by rw [hnil, List.append_nil], ?_⟩
        rw [states, hstep, marksAhead, hnil]
        rfl
      · have hstep := step_without_tokens hs hnil
        have hshorter : r.copy.place.ahead.length < r.place.ahead.length := by
          obtain ⟨c, cs, hahead⟩ := List.exists_cons_of_ne_nil hnil
          have hpos := verbatimLength_pos r.scope c cs
          rw [ahead_copy, hahead, List.length_drop, List.length_cons]
          omega
        have hleft : r.copy.place.ahead.length < limit := by omega
        obtain ⟨r', hsteps, houtput, hcount⟩ :=
          copies_ahead hs (r := r.copy) rfl hleft (unnamed_copy hnil unnamed)
        refine ⟨r', (steps_succ_of_running hstep limit).trans hsteps, ?_, ?_⟩
        · have hwritten : r.copy.output = r.nativeToken :: r.output := rfl
          rw [houtput, hwritten, List.reverse_cons, List.flatten_append, List.flatten_singleton,
            List.append_assoc, nativeToken, ahead_copy, List.take_append_drop]
        · rw [states, hstep, List.countP_cons, hcount, marksAhead_eq hnil unnamed, List.length_append]
          split <;> simp [Nat.add_comm]

end Run

/-! ## 5. The three readers -/

/-- **The readers of groups agree.** The pieces of a text make up the text; the numbers of references have
no bound here, so that none is too long to be written back. Where every class is closed and no group is
named, the parentheses of groups among the pieces are as many as are counted in the text, and so are the
bare parentheses that an expansion without tokens meets outside of classes, which copies the whole text. -/
theorem groupCounts_agree {t : Text} (closed : ClassesClosed t)
    (unnamed : Everywhere OpensNoName .outside t) :
    renderPieces (pieces t false) = t ∧ (pieces t false).count .capture = countGroups t ∧
    ∀ (flags : Text) (features : Features) (memory : Memory) (limit : Nat), t.length < limit →
      ∃ r, (Run.initial t features memory).steps ⟨[], flags⟩ limit = .finished r ∧
        r.output.reverse.flatten = t ∧
        (Run.states ⟨[], flags⟩ limit (.initial t features memory)).countP Run.atBareParenthesis =
          countGroups t := by
  refine ⟨renderPieces_pieces t, count_capture_pieces t closed unnamed, ?_⟩
  intro flags features memory limit hlimit
  obtain ⟨r, hsteps, houtput, hcount⟩ := Run.copies_ahead (s := ⟨[], flags⟩) rfl
    (r := .initial t features memory) rfl hlimit unnamed
  have hmarks : (Run.initial t features memory).marksAhead.length = countGroups t := by
    rw [countGroups, countGroupsFrom_eq, Nat.zero_add]
    rfl
  exact ⟨r, hsteps, houtput, hcount.trans hmarks⟩

/-- Escapes, a class, a lookbehind, a reference and letters of several bytes stand among two groups. -/
theorem groupCounts_agree_lookbehind :
    let t := "(é[(\\]\\(](?<=b)\\(ü)\\12".toList
    ClassesClosed t ∧ Everywhere OpensNoName .outside t ∧ countGroups t = 1 ∧
    (pieces t false).count .capture = 1 ∧
    (Run.states ⟨[], []⟩ 100 (.initial t {} ⟨#[], .empty⟩)).countP Run.atBareParenthesis = 1 := by
  intro t
  have closed : ClassesClosed t := by decide
  have unnamed : Everywhere OpensNoName .outside t := by decide
  have hcount : countGroups t = 1 := by decide
  obtain ⟨-, hpieces, hrun⟩ := groupCounts_agree closed unnamed
  obtain ⟨_, -, -, hmet⟩ := hrun [] {} ⟨#[], .empty⟩ 100 (by decide)
  exact ⟨closed, unnamed, hcount, hpieces.trans hcount, hmet.trans hcount⟩

end ExtensibleRegex
