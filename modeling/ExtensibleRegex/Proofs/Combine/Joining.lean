import ExtensibleRegex.Proofs.Combine.Parts
import ExtensibleRegex.Proofs.Expansion.Omission
import ExtensibleRegex.Proofs.Native.Shape
import Mathlib.Tactic

/-!
# The words of a whole union

The parts of a union are written one after another, each with its references moved past the groups
of the parts before it. `PartWords` is a part as words, and `movedFrom` the words of all parts, as
the union writes them. They are cut, named and numbered as the parts are (`fits_shiftedFrom`,
`names_movedFrom`, `numbersStand_movedFrom`), provided the parts can stand next to each other:
alternatives always can (`together_or`), and texts written one after another when they are
`Seamless` (`together_none`). They are when the characters where one ends and the next begins keep the
two apart (`seamless_of_allParted`).
-/

namespace ExtensibleRegex

open Native

/-! ## 1. Words with other numbers -/

section Renumbered

variable {ws ws' : List Word}

theorem captureNames_renumbered (h : List.Forall₂ Renumbered ws ws') :
    captureNames (ws'.map Word.lexeme) = captureNames (ws.map Word.lexeme) := by
  induction h with
  | nil => rfl
  | @cons w w' ws ws' hw _ ih =>
    rw [List.map_cons, List.map_cons, captureNames_cons, captureNames_cons w.lexeme, ih]
    rcases hw with rfl | ⟨digits, n, hl, -, rfl⟩
    · rfl
    · rw [hl]
      rfl

/-- Which number a reference has does not matter for the shape of a pattern. -/
theorem readAll?_renumbered (h : List.Forall₂ Renumbered ws ws') : ∀ s : Shape,
    s.readAll? (ws'.map Word.lexeme) = s.readAll? (ws.map Word.lexeme) := by
  induction h with
  | nil => exact fun _ => rfl
  | @cons w w' ws ws' hw _ ih =>
    intro s
    have hread : s.read? w'.lexeme = s.read? w.lexeme := by
      rcases hw with rfl | ⟨digits, n, hl, -, rfl⟩
      · rfl
      · rw [hl]
        rfl
    simp only [List.map_cons, Shape.readAll?, hread, ih]

theorem head?_write_renumbered (h : List.Forall₂ Renumbered ws ws') (hfits : Fits ws) :
    (write ws').head? = (write ws).head? := by
  cases h with
  | nil => rfl
  | @cons w w' ws ws' hw _ =>
    rcases hw with rfl | ⟨digits, n, hl, -, rfl⟩
    · obtain ⟨c, cs, htext, -⟩ := hfits.1.text_eq
      rw [write_cons, write_cons, htext]
      rfl
    · obtain ⟨rfl, -⟩ := hfits.1.of_decimal hl
      rfl

/-! ### Repeated empty groups -/

/-- Where an empty group follows another one, the spot is one that is allowed. -/
abbrev RepeatsAt (P : Spot → Prop) (s : Spot) (t : Text) : Prop :=
  (emptyGroup ++ emptyGroup).isPrefixOf t = true → P s

/-- Texts that begin alike, up to a backslash. -/
def SameFront (s t : Text) : Prop := ∀ w : Text, '\\' ∉ w → w.isPrefixOf s = w.isPrefixOf t

theorem SameFront.append {s t : Text} (h : SameFront s t) : ∀ x : Text, SameFront (x ++ s) (x ++ t)
  | [] => h
  | c :: x => fun w hw => by
      cases w with
      | nil => rfl
      | cons d w =>
        rw [List.cons_append, List.cons_append, List.isPrefixOf_cons_cons, List.isPrefixOf_cons_cons,
          h.append x w fun hmem => hw (List.mem_cons_of_mem d hmem)]

theorem sameFront_escape (s t : Text) : SameFront ('\\' :: s) ('\\' :: t) := fun w hw => by
  cases w with
  | nil => rfl
  | cons d w =>
    have hd : (d == '\\') = false := beq_eq_false_iff_ne.2 fun h => hw (h ▸ List.mem_cons_self)
    rw [List.isPrefixOf_cons_cons, List.isPrefixOf_cons_cons, hd]
    rfl

theorem sameFront_renumbered (h : List.Forall₂ Renumbered ws ws') (hfits : Fits ws) :
    SameFront (write ws) (write ws') := by
  induction h with
  | nil => exact fun _ _ => rfl
  | @cons w w' ws ws' hw _ ih =>
    rw [write_cons, write_cons]
    rcases hw with rfl | ⟨digits, n, hl, -, rfl⟩
    · exact (ih hfits.2).append w'.text
    · obtain ⟨rfl, -⟩ := hfits.1.of_decimal hl
      exact sameFront_escape _ _

theorem everywhere_append {Q : Spot → Text → Prop} {u : Text} : ∀ (x : Text) {s : Spot},
    Everywhere Q s (x ++ u) → Everywhere Q (s.after x) u
  | [], _, h => h
  | _ :: x, _, h => everywhere_append x h.2

theorem everywhere_mono {Q Q' : Spot → Text → Prop} (h : ∀ s t, Q s t → Q' s t) :
    ∀ {t : Text} {s : Spot}, Everywhere Q s t → Everywhere Q' s t
  | [], _, hQ => h _ _ hQ
  | _ :: _, _, hQ => ⟨h _ _ hQ.1, everywhere_mono h hQ.2⟩

/-- The text behind other characters can be exchanged. -/
theorem repeatsAt_append {P : Spot → Prop} {u v : Text} (hfront : SameFront u v)
    (hrest : ∀ s, Everywhere (RepeatsAt P) s u → Everywhere (RepeatsAt P) s v) :
    ∀ (x : Text) (s : Spot), Everywhere (RepeatsAt P) s (x ++ u) → Everywhere (RepeatsAt P) s (x ++ v)
  | [], s, h => hrest s h
  | c :: x, s, h => by
      refine ⟨fun hv => h.1 ?_, repeatsAt_append hfront hrest x _ h.2⟩
      exact (hfront.append (c :: x) _ (by decide)).trans hv

/-- Before what is no parenthesis no empty group begins. -/
theorem repeatsAt_of_ne {P : Spot → Prop} {v : Text} : ∀ {x : Text} {s : Spot}, '(' ∉ x →
    Everywhere (RepeatsAt P) (s.after x) v → Everywhere (RepeatsAt P) s (x ++ v)
  | [], _, _, h => h
  | c :: x, s, hx, h => by
      refine ⟨fun hc => ?_, repeatsAt_of_ne (fun hmem => hx (List.mem_cons_of_mem c hmem)) h⟩
      have hfirst : ('(' == c) = true := (Bool.and_eq_true_iff.1 hc).1
      exact absurd (beq_iff_eq.1 hfirst ▸ List.mem_cons_self) hx

theorem after_number {digits : Text} (hne : digits ≠ []) (h : ∀ d ∈ digits, d.isDigit = true)
    (s : Spot) : s.after ('\\' :: digits) = ⟨s.inClass, false⟩ := by
  obtain ⟨d, ds, rfl⟩ := List.exists_cons_of_ne_nil hne
  have hplain : ∀ {b : Bool} {w : Text}, (∀ c ∈ w, c.isDigit = true) →
      Spot.after ⟨b, false⟩ w = ⟨b, false⟩ := fun hw =>
    after_of_isPlain fun c hc => isPlain_of_isDigit (hw c hc)
  obtain ⟨b, escaped⟩ := s
  cases escaped with
  | true => exact hplain (w := d :: ds) h
  | false => exact hplain (w := ds) fun c hc => h c (List.mem_cons_of_mem d hc)

/-- **Repeated empty groups stay where they stand** when references get other numbers. -/
theorem repeatsAt_renumbered {P : Spot → Prop} (h : List.Forall₂ Renumbered ws ws') (hfits : Fits ws) :
    ∀ s, Everywhere (RepeatsAt P) s (write ws) → Everywhere (RepeatsAt P) s (write ws') := by
  induction h with
  | nil => exact fun _ h => h
  | @cons w w' ws ws' hw hrest ih =>
    intro s hs
    rw [write_cons] at hs ⊢
    rcases hw with rfl | ⟨digits, n, hl, -, rfl⟩
    · exact repeatsAt_append (sameFront_renumbered hrest hfits.2) (ih hfits.2) w'.text s hs
    · obtain ⟨rfl, hne, hdigits, -⟩ := hfits.1.of_decimal hl
      have hspot := after_number (decimalText_ne_nil n) (fun _ => isDigit_of_mem_decimalText) s
      refine repeatsAt_of_ne (fun hmem => ?_) (ih hfits.2 _ ?_)
      · rcases List.mem_cons.1 hmem with heq | hmem
        · exact absurd heq (by decide)
        · exact absurd (isDigit_of_mem_decimalText hmem) (by decide)
      · show Everywhere (RepeatsAt P) (s.after ('\\' :: decimalText n)) (write ws)
        rw [hspot, ← after_number hne hdigits s]
        exact everywhere_append _ hs

theorem tame_renumbered (h : List.Forall₂ Renumbered ws ws') (hfits : Fits ws)
    (htame : Tame (write ws)) : Tame (write ws') := repeatsAt_renumbered h hfits _ htame

end Renumbered

/-- Where no empty group follows another one, no spot has to be allowed. -/
theorem settled_iff_everywhere : ∀ {t : Text} {s : Spot},
    Settled t ↔ Everywhere (RepeatsAt fun _ => False) s t
  | [], _ => ⟨fun _ => fun h => absurd h (by decide), fun _ => settled_nil⟩
  | c :: t, s => by
      constructor
      · intro h
        refine ⟨fun hs => h (List.isPrefixOf_iff_prefix.1 hs).isInfix, ?_⟩
        exact settled_iff_everywhere.1 (h.of_infix (List.suffix_cons c t).isInfix)
      · intro h hinfix
        rcases List.infix_cons_iff.1 hinfix with hprefix | hinfix
        · exact h.1 (List.isPrefixOf_iff_prefix.2 hprefix)
        · exact settled_iff_everywhere.2 h.2 hinfix

theorem settled_renumbered {ws ws' : List Word} (h : List.Forall₂ Renumbered ws ws') (hfits : Fits ws)
    (hsettled : Settled (write ws)) : Settled (write ws') :=
  settled_iff_everywhere.2 (repeatsAt_renumbered h hfits .outside (settled_iff_everywhere.1 hsettled))

/-- Without repeated empty groups there is nothing to ask. -/
theorem Settled.tame {t : Text} (h : Settled t) : Tame t :=
  everywhere_mono (fun _ _ hrepeats hs => (hrepeats hs).elim) (settled_iff_everywhere.1 h)

/-- A bar stands between empty groups. -/
theorem settled_bar {s t : Text} (hs : Settled s) (ht : Settled t) : Settled (s ++ '|' :: t) := by
  intro h
  rcases List.infix_append_iff.1 h with hleft | hright | ⟨a, b, hab, ha, hb⟩
  · exact hs hleft
  · rcases List.infix_cons_iff.1 hright with hprefix | hinfix
    · have hfirst := List.isPrefixOf_iff_prefix.2 hprefix
      exact absurd (Bool.and_eq_true_iff.1 hfirst).1 (by decide)
    · exact ht hinfix
  · cases b with
    | nil =>
      rw [List.append_nil] at hab
      exact hs (hab ▸ ha.isInfix)
    | cons d b =>
      have hd : d = '|' := by
        obtain ⟨rest, hrest⟩ := hb
        exact (List.cons.inj hrest).1
      have hmem : '|' ∈ emptyGroup ++ emptyGroup := by
        rw [hab, hd]
        exact List.mem_append_right a List.mem_cons_self
      exact absurd hmem (by decide)

/-! ## 2. Parts -/

/-- A part as words that are read as they are, with names for the groups that they open. -/
structure PartWords where
  words : List Word
  names : GroupNames
  fits : Fits words
  firm : ∀ w ∈ words, Firm w
  named : ∀ name, some name ∈ names → Mark.Named name

namespace PartWords

/-- The text of a part. -/
def text (p : PartWords) : Text := write p.words

/-- The lexemes of a part. -/
def lexemes (p : PartWords) : List Lexeme := p.words.map Word.lexeme

/-- How many groups a part opens. -/
def groupCount (p : PartWords) : Nat := (captureNames p.lexemes).length

/-- The names of the groups, in the order in which they open. -/
def groupNames (p : PartWords) : GroupNames := (List.range p.groupCount).map fun i => (p.names[i]?).join

theorem length_groupNames (p : PartWords) : p.groupNames.length = p.groupCount := by
  simp [groupNames]

/-- The words of a part as a union writes them behind `prior` groups. -/
def moved (prior : Nat) (p : PartWords) : List NamedWord :=
  dub p.names 0 (p.words.map (Word.shifted prior))

/-- The marks of a part before a text. -/
def marks (next : Text) (p : PartWords) : List Mark :=
  marksBefore (p.words.map fun w => (w, none)) next

theorem renumbered (p : PartWords) (prior : Nat) :
    List.Forall₂ Renumbered p.words (p.words.map (Word.shifted prior)) := by
  rw [List.forall₂_map_right_iff]
  exact List.forall₂_same.2 fun w hw => (p.firm w hw).renumbered prior

theorem firm_moved (p : PartWords) (prior : Nat) : ∀ w ∈ p.moved prior, Firm w.1 :=
  firm_of_dub p.firm

theorem named_moved (p : PartWords) (prior : Nat) :
    ∀ w ∈ p.moved prior, ∀ name, w.2 = some name → Mark.Named name := by
  rintro ⟨w, _⟩ hw name rfl
  exact p.named name (mem_names_of_dub hw)

/-- The names among the marks of a part are those of its groups. -/
theorem names_moved (p : PartWords) (prior : Nat) (next : Text) :
    Mark.names (marksBefore (p.moved prior) next) = p.groupNames := by
  have hfirm : ∀ w ∈ p.words.map (Word.shifted prior), Firm w := by
    intro w hw
    obtain ⟨v, hv, rfl⟩ := List.mem_map.1 hw
    exact (p.firm v hv).shifted prior
  rw [moved, names_marks_dub _ _ _ hfirm, captureNames_renumbered (p.renumbered prior), groupNames,
    List.range_eq_range']
  rfl

end PartWords

/-! ## 3. Parts one after another -/

/-- The words of parts as they are. -/
def together (ps : List PartWords) : List Word := ps.flatMap PartWords.words

theorem write_together (ps : List PartWords) : write (together ps) = (ps.map PartWords.text).flatten := by
  rw [together, write, List.flatMap_assoc]
  rfl

theorem firm_together {ps : List PartWords} : ∀ w ∈ together ps, Firm w := fun w hw => by
  obtain ⟨p, -, hp⟩ := List.mem_flatMap.1 hw
  exact p.firm w hp

/-- The words of parts as a union writes them behind `prior` groups. -/
def movedFrom : (prior : Nat) → List PartWords → List NamedWord
  | _, [] => []
  | prior, p :: ps => p.moved prior ++ movedFrom (prior + p.groupCount) ps

/-- The words of parts with their references moved. -/
def shiftedFrom : (prior : Nat) → List PartWords → List Word
  | _, [] => []
  | prior, p :: ps => p.words.map (Word.shifted prior) ++ shiftedFrom (prior + p.groupCount) ps

theorem map_movedFrom : ∀ (prior : Nat) (ps : List PartWords),
    (movedFrom prior ps).map Prod.fst = shiftedFrom prior ps
  | _, [] => rfl
  | prior, p :: ps => by
      rw [movedFrom, shiftedFrom, List.map_append, map_movedFrom _ ps, PartWords.moved, map_dub]

theorem renumbered_shiftedFrom : ∀ (prior : Nat) (ps : List PartWords),
    List.Forall₂ Renumbered (together ps) (shiftedFrom prior ps)
  | _, [] => .nil
  | prior, p :: ps => List.rel_append (p.renumbered prior) (renumbered_shiftedFrom _ ps)

/-- Moved words fit where the words of the parts do. -/
theorem fits_shiftedFrom {ps : List PartWords} (h : Fits (together ps)) (prior : Nat) :
    Fits (shiftedFrom prior ps) := h.renumbered (renumbered_shiftedFrom prior ps)

theorem firm_movedFrom : ∀ (prior : Nat) (ps : List PartWords), ∀ w ∈ movedFrom prior ps, Firm w.1
  | _, [], _, hw => absurd hw List.not_mem_nil
  | prior, p :: ps, w, hw => by
      rcases List.mem_append.1 hw with hw | hw
      · exact p.firm_moved prior w hw
      · exact firm_movedFrom _ ps w hw

theorem named_movedFrom : ∀ (prior : Nat) (ps : List PartWords), ∀ w ∈ movedFrom prior ps, ∀ name,
    w.2 = some name → Mark.Named name
  | _, [], _, hw => absurd hw List.not_mem_nil
  | prior, p :: ps, w, hw => by
      rcases List.mem_append.1 hw with hw | hw
      · exact p.named_moved prior w hw
      · exact named_movedFrom _ ps w hw

/-- What a union writes is read again as the moved words of its parts. -/
theorem rereads_movedFrom {ps : List PartWords} (h : Fits (together ps)) (prior : Nat) :
    Rereads .pattern (writeNamed (movedFrom prior ps)) (write (shiftedFrom prior ps))
      (marksOf (movedFrom prior ps)) := by
  rw [← map_movedFrom]
  refine rereads_words ?_ (firm_movedFrom prior ps) (named_movedFrom prior ps)
  rw [map_movedFrom]
  exact fits_shiftedFrom h prior

/-- **The names are those of the parts, one after another.** -/
theorem names_movedFrom : ∀ (prior : Nat) (ps : List PartWords),
    Mark.names (marksOf (movedFrom prior ps)) = ps.flatMap PartWords.groupNames
  | _, [] => rfl
  | prior, p :: ps => by
      rw [movedFrom, marksOf_append, Mark.names, List.filterMap_append, List.flatMap_cons]
      exact congrArg₂ _ (p.names_moved prior _) (names_movedFrom _ ps)

theorem Mark.numbersStand_append : ∀ {n : Nat} {ms ms' : List Mark},
    NumbersStand n (ms ++ ms') ↔ NumbersStand n ms ∧ NumbersStand (n + (names ms).length) ms'
  | _, [], _ => (and_iff_right trivial).symm
  | n, opens name :: ms, ms' => by
      show NumbersStand (n + 1) (ms ++ ms') ↔
        NumbersStand (n + 1) ms ∧ NumbersStand (n + ((names ms).length + 1)) ms'
      rw [numbersStand_append, Nat.add_assoc, Nat.add_comm 1]
  | n, number digits :: ms, ms' => by
      show _ ∧ NumbersStand n (ms ++ ms') ↔ (_ ∧ NumbersStand n ms) ∧ _
      rw [numbersStand_append, and_assoc]
      rfl

/-- In each part, before what follows it, numbers refer to groups that have opened. -/
def Standing : List PartWords → Prop
  | [] => True
  | p :: ps => Mark.NumbersStand 0 (p.marks (write (together ps))) ∧ Standing ps

theorem fitsBefore_of_append : ∀ {ws ws' : List Word}, Fits (ws ++ ws') →
    FitsBefore ws (write ws') ∧ Fits ws'
  | [], _, h => ⟨trivial, h⟩
  | w :: ws, ws', h => by
      obtain ⟨hws, hws'⟩ := fitsBefore_of_append h.2
      have hw : w.Fits (write (ws ++ ws')) := h.1
      rw [write_append] at hw
      exact ⟨⟨hw, hws⟩, hws'⟩

/-- **The numbers of all parts refer to groups that have opened**, if those of each part do. -/
theorem numbersStand_movedFrom : ∀ (prior : Nat) {ps : List PartWords}, Fits (together ps) →
    Standing ps → Mark.NumbersStand prior (marksOf (movedFrom prior ps))
  | _, [], _, _ => trivial
  | prior, p :: ps, hfits, h => by
      obtain ⟨hbefore, hrest⟩ := fitsBefore_of_append hfits
      have hhead : (write (together ps)).head? =
          (writeNamed (movedFrom (prior + p.groupCount) ps)).head? := by
        rw [head?_writeNamed (firm_movedFrom _ ps), map_movedFrom,
          head?_write_renumbered (renumbered_shiftedFrom _ ps) hrest]
      rw [movedFrom, marksOf_append, Mark.numbersStand_append]
      refine ⟨numbersStand_dub p.names prior hhead 0 0 hbefore p.firm h.1, ?_⟩
      rw [p.names_moved, p.length_groupNames]
      exact numbersStand_movedFrom _ hrest h.2

/-! ## 4. What stands between parts -/

/-- What stands between two parts, as a part. -/
def Conjunction.part : Conjunction → PartWords
  | or =>
    { words := [⟨['|'], .bar⟩]
      names := []
      fits := ⟨rfl, trivial⟩
      firm := List.forall_mem_singleton.2 (.plain ⟨nofun, nofun⟩ (.inl rfl) nofun)
      named := nofun }
  | none => ⟨[], [], trivial, nofun, nofun⟩

/-- Parts with what stands between them. -/
def joined (conjunction : Conjunction) (ps : List PartWords) : List PartWords :=
  ps.intersperse conjunction.part

theorem joined_cons (conjunction : Conjunction) (p q : PartWords) (ps : List PartWords) :
    joined conjunction (p :: q :: ps) = p :: conjunction.part :: joined conjunction (q :: ps) := rfl

theorem groupCount_part (conjunction : Conjunction) : conjunction.part.groupCount = 0 := by
  cases conjunction <;> rfl

/-- What stands between parts is written as it is. -/
theorem writeNamed_part (conjunction : Conjunction) (prior : Nat) :
    writeNamed (conjunction.part.moved prior) = conjunction.separator := by
  cases conjunction <;> rfl

theorem groupNames_joined (conjunction : Conjunction) : ∀ ps : List PartWords,
    (joined conjunction ps).flatMap PartWords.groupNames = ps.flatMap PartWords.groupNames
  | [] => rfl
  | [_] => rfl
  | p :: q :: ps => by
      have hnone : conjunction.part.groupNames = [] := by
        rw [PartWords.groupNames, groupCount_part]
        rfl
      rw [joined_cons, List.flatMap_cons, List.flatMap_cons, hnone, List.nil_append,
        groupNames_joined conjunction (q :: ps), ← List.flatMap_cons]

/-- The texts of the parts as a union writes them behind `prior` groups. -/
def writtenFrom : (prior : Nat) → List PartWords → List Text
  | _, [] => []
  | prior, p :: ps => writeNamed (p.moved prior) :: writtenFrom (prior + p.groupCount) ps

theorem writeNamed_joined (conjunction : Conjunction) : ∀ (prior : Nat) (ps : List PartWords),
    writeNamed (movedFrom prior (joined conjunction ps)) =
      conjunction.separator.intercalate (writtenFrom prior ps)
  | _, [] => rfl
  | prior, [p] => by simp [joined, movedFrom, writtenFrom, List.intercalate]
  | prior, p :: q :: ps => by
      have ih := writeNamed_joined conjunction (prior + p.groupCount) (q :: ps)
      rw [joined_cons, movedFrom, movedFrom, groupCount_part, writeNamed_append, writeNamed_append,
        writeNamed_part, Nat.add_zero, ih]
      rfl

/-! ### Alternatives -/

/-- Before anything but a digit, the marks of words are those at the end of a text. -/
theorem marksBefore_of_head {T : Text} (hT : T.head?.any Char.isDigit = false) :
    ∀ ws : List NamedWord, marksBefore ws T = marksOf ws
  | [] => rfl
  | w :: ws => by
      rw [marksBefore, marksOf, marksBefore_of_head hT ws]
      congr 1
      unfold NamedWord.marks
      split
      · rfl
      · split
        · have htake (ds : Text) : (ds ++ T).takeWhile Char.isDigit = ds.takeWhile Char.isDigit := by
            cases T with
            | nil => rw [List.append_nil]
            | cons c T =>
              rw [List.takeWhile_append]
              split
              · rename_i hall
                simp [show c.isDigit = false from hT,
                  (List.takeWhile_prefix Char.isDigit).eq_of_length hall]
              · rfl
          rename_i d ds _
          rw [← List.append_assoc, htake]
        · rfl

theorem inert_bar (t : Text) : Inert ('|' :: t) := ⟨rfl, fun h => absurd h (by decide)⟩

/-- Alternatives that fit in a grammar do so next to each other. -/
theorem fits_alternatives {strict : Bool} : ∀ {ps : List PartWords},
    (∀ p ∈ ps, FitsIn strict p.words) → FitsIn strict (together (joined .or ps))
  | [], _ => trivial
  | [p], h => by
      have hwords : together (joined .or [p]) = p.words := List.append_nil _
      exact hwords ▸ h p List.mem_cons_self
  | p :: q :: ps, h => by
      have hrest := @fits_alternatives strict (q :: ps) fun r hr => h r (List.mem_cons_of_mem p hr)
      have hbar : FitsIn strict (⟨['|'], .bar⟩ :: together (joined .or (q :: ps))) := ⟨rfl, hrest⟩
      exact (h p List.mem_cons_self).append hbar (inert_bar _)

/-- **Alternatives can always stand next to each other.** -/
theorem together_or : ∀ {ps : List PartWords}, (∀ p ∈ ps, Mark.NumbersStand 0 (p.marks [])) →
    (∀ p ∈ ps, Settled p.text) → Fits (together (joined .or ps)) ∧ Standing (joined .or ps) ∧
      Settled (write (together (joined .or ps)))
  | [], _, _ => ⟨trivial, trivial, settled_nil⟩
  | [p], hstand, hsettled => by
      have hwords : together (joined .or [p]) = p.words := List.append_nil _
      rw [hwords]
      exact ⟨p.fits, ⟨hstand p List.mem_cons_self, trivial⟩, hsettled p List.mem_cons_self⟩
  | p :: q :: ps, hstand, hsettled => by
      obtain ⟨-, hstanding, hrest⟩ := @together_or (q :: ps)
        (fun r hr => hstand r (List.mem_cons_of_mem p hr))
        fun r hr => hsettled r (List.mem_cons_of_mem p hr)
      have hwords : together (joined .or (p :: q :: ps)) =
          p.words ++ ⟨['|'], .bar⟩ :: together (joined .or (q :: ps)) := rfl
      refine ⟨fits_alternatives fun r _ => r.fits, ⟨?_, trivial, hstanding⟩, ?_⟩
      · have hp := hstand p List.mem_cons_self
        rw [PartWords.marks, marksBefore_nil] at hp
        show Mark.NumbersStand 0 (p.marks ('|' :: _))
        rwa [PartWords.marks, marksBefore_of_head rfl]
      · rw [hwords, write_append]
        exact settled_bar (hsettled p List.mem_cons_self) hrest

/-! ### Texts one after another -/

/-- Native patterns that can be written one after another: each is cut as it is alone, no number grows
at the end of one, and repeated empty groups stand outside of classes and escapes. -/
structure Seamless (ts : List Text) : Prop where
  words : words? ts.flatten = (ts.mapM words?).map List.flatten
  marks : Mark.ofText false ts.flatten = ts.flatMap (Mark.ofText false)
  tame : Tame ts.flatten

/-- Firm words without names are written as they are. -/
theorem writeNamed_unnamed : ∀ {ws : List Word}, (∀ w ∈ ws, Firm w) →
    writeNamed (ws.map fun w => (w, none)) = write ws
  | [], _ => rfl
  | w :: ws, h => by
      rw [List.map_cons, writeNamed_cons, write_cons,
        writeNamed_unnamed fun v hv => h v (List.mem_cons_of_mem w hv)]
      congr 1
      rcases (h w List.mem_cons_self).kind with rfl | ⟨digits, -, -, -, rfl⟩ | hstill
      · rfl
      · rfl
      · exact text_of_still hstill none

/-- The marks of words can be read off their text. -/
theorem marksOf_unnamed {ws : List Word} (hfits : Fits ws) (hfirm : ∀ w ∈ ws, Firm w) :
    marksOf (ws.map fun w => (w, none)) = Mark.ofText false (write ws) := by
  have hmap : (ws.map fun w => ((w, none) : NamedWord)).map Prod.fst = ws := by
    rw [List.map_map]
    exact List.map_id ws
  have hrereads := @rereads_words (ws.map fun w => (w, none)) (by rwa [hmap])
    (fun w hw => by obtain ⟨v, hv, rfl⟩ := List.mem_map.1 hw; exact hfirm v hv)
    fun w hw name hname => by obtain ⟨v, hv, rfl⟩ := List.mem_map.1 hw; cases hname
  rw [writeNamed_unnamed hfirm] at hrereads
  refine hrereads.marks_eq fun name hmem => ?_
  clear hrereads hmap hfits hfirm
  induction ws with
  | nil => cases hmem
  | cons w ws ih =>
    rcases List.mem_append.1 hmem with hmem | hmem
    · unfold NamedWord.marks at hmem
      split_ifs at hmem
      · cases List.mem_singleton.1 hmem
      · split at hmem
        · split_ifs at hmem
          · cases List.mem_singleton.1 hmem
          · cases hmem
        · cases hmem
    · exact ih hmem

theorem PartWords.marks_nil (p : PartWords) : p.marks [] = Mark.ofText false p.text := by
  rw [marks, marksBefore_nil, marksOf_unnamed p.fits p.firm]
  rfl

/-- How many marks there are does not depend on the text behind the words. -/
theorem length_marksBefore (T : Text) : ∀ ws : List NamedWord,
    (marksBefore ws T).length = (marksOf ws).length
  | [] => rfl
  | w :: ws => by
      rw [marksBefore, marksOf, List.length_append, List.length_append, length_marksBefore T ws]
      congr 1
      unfold NamedWord.marks
      split
      · rfl
      · split
        · split <;> rfl
        · rfl

/-- Where no number grows, the numbers of the parts refer to groups that have opened. -/
theorem standing_of_marks : ∀ {ps : List PartWords}, (∀ p ∈ ps, Mark.NumbersStand 0 (p.marks [])) →
    marksOf ((together ps).map fun w => (w, none)) = ps.flatMap (PartWords.marks []) → Standing ps
  | [], _, _ => trivial
  | p :: ps, hstand, hmarks => by
      have hsplit : (together (p :: ps)).map (fun w => ((w, none) : NamedWord)) =
          p.words.map (fun w => (w, none)) ++ (together ps).map fun w => (w, none) :=
        List.map_append
      rw [hsplit, marksOf_append, List.flatMap_cons, writeNamed_unnamed firm_together] at hmarks
      have hlength : (marksBefore (p.words.map fun w => (w, none)) (write (together ps))).length =
          (p.marks []).length := by
        rw [length_marksBefore, PartWords.marks, marksBefore_nil]
      obtain ⟨hfirst, hrest⟩ := List.append_inj hmarks hlength
      refine ⟨?_, standing_of_marks (fun q hq => hstand q (List.mem_cons_of_mem p hq)) hrest⟩
      show Mark.NumbersStand 0 (marksBefore (p.words.map fun w => (w, none)) (write (together ps)))
      rw [hfirst]
      exact hstand p List.mem_cons_self

theorem together_joined_none : ∀ ps : List PartWords, together (joined .none ps) = together ps
  | [] => rfl
  | [_] => rfl
  | p :: q :: ps => by
      rw [joined_cons]
      exact congrArg (p.words ++ ·) (together_joined_none (q :: ps))

theorem standing_joined_none : ∀ {ps : List PartWords}, Standing ps → Standing (joined .none ps)
  | [], h => h
  | [_], h => h
  | p :: q :: ps, h => by
      refine ⟨?_, trivial, standing_joined_none h.2⟩
      show Mark.NumbersStand 0 (p.marks (write (together (joined .none (q :: ps)))))
      rw [together_joined_none]
      exact h.1

theorem mapM_words? : ∀ ps : List PartWords,
    (ps.map PartWords.text).mapM words? = some (ps.map PartWords.words)
  | [] => rfl
  | p :: ps => by
      have hp : words? p.text = some p.words := words?_eq_some_iff.2 ⟨p.fits, rfl⟩
      rw [List.map_cons, List.mapM_cons, hp, mapM_words? ps]
      rfl

/-- **Seamless texts can stand next to each other.** -/
theorem together_none {ps : List PartWords} (hstand : ∀ p ∈ ps, Mark.NumbersStand 0 (p.marks []))
    (h : Seamless (ps.map PartWords.text)) : Fits (together (joined .none ps)) ∧
      Standing (joined .none ps) ∧ Tame (write (together (joined .none ps))) := by
  have hwords := h.words
  have hflatten : (ps.map PartWords.words).flatten = together ps := rfl
  rw [mapM_words?, Option.map_some, hflatten] at hwords
  obtain ⟨hfits, hwrite⟩ := words?_eq_some_iff.1 hwords
  have hmarks : marksOf ((together ps).map fun w => (w, none)) = ps.flatMap (PartWords.marks []) := by
    rw [marksOf_unnamed hfits firm_together, hwrite, h.marks, List.flatMap_map]
    exact congrArg (ps.flatMap ·) (funext fun p => p.marks_nil.symm)
  rw [together_joined_none]
  refine ⟨hfits, standing_joined_none (standing_of_marks hstand hmarks), ?_⟩
  rw [hwrite]
  exact h.tame

/-! ### Seams by their characters -/

/-- The characters where `s` ends and `t` begins keep the two apart: `s` ends with the parenthesis that
closes a group, behind which no lexeme goes on, or `t` begins with a character that no lexeme before it
looks at; and there is not an empty group on both sides. -/
structure Parted (s t : Text) : Prop where
  ends : s = [] ∨ (∃ u, s = u ++ [')'] ∧ u.getLast? ≠ some '\\') ∨ Inert t ∧ t.head? ≠ some ')'
  single : ¬(emptyGroup <:+ s ∧ emptyGroup <+: t)

/-- Each of several texts is parted from what follows it. -/
def AllParted : List Text → Prop
  | [] => True
  | t :: ts => Parted t ts.flatten ∧ AllParted ts

/-- A parenthesis at the end of a pattern that is read stands outside of classes, if no backslash is
before it. -/
theorem outside_of_close {u : Text} {ls : List Lexeme}
    (hlexed : lexAll? false false 0 (u ++ [')']) [] = some ls) (hu : u.getLast? ≠ some '\\') :
    Spot.outside.after u = .outside := by
  have hafter := after_of_lexAll? _ _ _ _ (Nat.le_refl _) hlexed
  have hescaped : (Spot.outside.after u).escaped = false := by
    rw [← List.head?_reverse] at hu
    rw [Spot.escaped_after]
    cases hlast : u.reverse with
    | nil => rfl
    | cons d v =>
      rw [hlast] at hu
      rw [List.takeWhile_cons_of_neg (by simpa using hu)]
      rfl
  rw [Spot.after_append] at hafter
  generalize Spot.outside.after u = s at hafter hescaped
  obtain ⟨inClass, escaped⟩ := s
  cases hescaped
  cases inClass
  · rfl
  · cases hafter

/-- Words that end with the parenthesis of a group are those before it, and the parenthesis. -/
theorem exists_words_of_close {ws : List Word} (hfits : Fits ws) {u : Text}
    (hwrite : write ws = u ++ [')']) (hu : u.getLast? ≠ some '\\') :
    ∃ vs, ws = vs ++ [⟨[')'], .close⟩] ∧ Fits vs := by
  have hclose : Inert [')'] ∧ isLandmark [')'] = true := ⟨⟨by decide, by decide⟩, rfl⟩
  have hlexed : lexAll? false false 0 (u ++ [')']) [] = some (ws.map Word.lexeme) := by
    rw [← hwrite, lexAll?_eq_words, wordsFrom?_of_fits hfits]
    rfl
  have hsplit := @lexAll?_split false false _ _ (outside_of_close hlexed hu) hclose.1 hclose.2 []
  rw [hlexed] at hsplit
  obtain ⟨ls, hls, -⟩ := Option.bind_eq_some_iff.1 hsplit.symm
  rw [lexAll?_eq_words, Option.map_eq_some_iff] at hls
  obtain ⟨vs, hvs, -⟩ := hls
  obtain ⟨hfits', rfl⟩ := words?_eq_some_iff.1 hvs
  refine ⟨vs, ?_, hfits'⟩
  have hboth : Fits (vs ++ [⟨[')'], .close⟩]) := hfits'.append ⟨rfl, trivial⟩ hclose.1
  have hsame := (wordsFrom?_of_fits hfits).symm.trans
    ((congrArg (wordsFrom? false 0) (hwrite.trans (write_append vs [⟨[')'], .close⟩]).symm)).trans
      (wordsFrom?_of_fits hboth))
  exact Option.some.inj hsame

theorem eq_nil_of_write {ws : List Word} (hfits : Fits ws) (h : write ws = []) : ws = [] := by
  cases ws with
  | nil => rfl
  | cons w ws =>
    obtain ⟨c, cs, htext, -⟩ := hfits.1.text_eq
    rw [write_cons, htext] at h
    cases h

/-- Words that fit stay what they are before a text that they are parted from. -/
theorem Parted.fits {ws ws' : List Word} (h : Parted (write ws) (write ws')) (hfits : Fits ws)
    (hfits' : Fits ws') : Fits (ws ++ ws') := by
  rcases h.ends with hnil | ⟨u, hwrite, hu⟩ | ⟨hinert, -⟩
  · obtain rfl := eq_nil_of_write hfits hnil
    exact hfits'
  · obtain ⟨vs, rfl, hvs⟩ := exists_words_of_close hfits hwrite hu
    rw [List.append_assoc]
    exact hvs.append ⟨rfl, hfits'⟩ ⟨by decide, fun h => absurd h (by decide)⟩
  · exact hfits.append hfits' hinert

/-- So do their marks. -/
theorem Parted.marks {ws : List Word} {T : Text} (h : Parted (write ws) T) (hfits : Fits ws)
    (hfirm : ∀ w ∈ ws, Firm w) :
    marksBefore (ws.map fun w => (w, none)) T = marksOf (ws.map fun w => (w, none)) := by
  rcases h.ends with hnil | ⟨u, hwrite, hu⟩ | ⟨hinert, -⟩
  · obtain rfl := eq_nil_of_write hfits hnil
    rfl
  · obtain ⟨vs, rfl, -⟩ := exists_words_of_close hfits hwrite hu
    rw [List.map_append, marksBefore_append, marksOf_append, marksBefore_of_head (T := _ ++ T) rfl,
      marksBefore_of_head (T := writeNamed _) rfl]
    rfl
  · refine marksBefore_of_head ?_ _
    cases T with
    | nil => rfl
    | cons c T => exact (reachesBack_false hinert.1).2.2.2.1

/-- Two empty groups are cut between them, or where no group is closed and some lexeme looks back. -/
theorem cut_emptyGroups {a b : Text} (h : emptyGroup ++ emptyGroup = a ++ b) :
    a = [] ∨ b = [] ∨ (a = emptyGroup ∧ b = emptyGroup) ∨
      (a.getLast?.any (· ≠ ')') = true ∧ b.head?.any (fun c => reachesBack c || c == ')') = true) := by
  have hcut : ∀ n < 9, (emptyGroup ++ emptyGroup).take n = [] ∨ (emptyGroup ++ emptyGroup).drop n = [] ∨
      ((emptyGroup ++ emptyGroup).take n = emptyGroup ∧
        (emptyGroup ++ emptyGroup).drop n = emptyGroup) ∨
      (((emptyGroup ++ emptyGroup).take n).getLast?.any (· ≠ ')') = true ∧
        ((emptyGroup ++ emptyGroup).drop n).head?.any (fun c => reachesBack c || c == ')') = true) := by
    decide
  have hlength : a.length + b.length = 8 := by
    rw [← List.length_append, ← h]
    rfl
  have hat := hcut a.length (by omega)
  rwa [h, List.take_left, List.drop_left] at hat

/-- No empty group follows another one where texts without such are parted. -/
theorem Parted.settled {s t : Text} (h : Parted s t) (hs : Settled s) (ht : Settled t) :
    Settled (s ++ t) := by
  intro htwice
  rcases List.infix_append_iff.1 htwice with hleft | hright | ⟨a, b, hab, ha, hb⟩
  · exact hs hleft
  · exact ht hright
  rcases cut_emptyGroups hab with rfl | rfl | ⟨rfl, rfl⟩ | ⟨hlast, hhead⟩
  · exact ht (hab ▸ hb.isInfix)
  · exact hs (hab ▸ (List.append_nil a).symm ▸ ha.isInfix)
  · exact h.single ⟨ha, hb⟩
  · obtain ⟨x, rfl⟩ := ha
    obtain ⟨y, rfl⟩ := hb
    rcases h.ends with hnil | ⟨u, hu, -⟩ | ⟨hinert, hclose⟩
    · rw [(List.append_eq_nil_iff.1 hnil).2] at hlast
      cases hlast
    · have hends := congrArg List.getLast? hu
      rw [List.getLast?_append, List.getLast?_append] at hends
      cases hc : a.getLast? with
      | none => rw [hc] at hlast; cases hlast
      | some c =>
        rw [hc] at hlast hends
        obtain rfl : c = ')' := Option.some.inj hends
        cases hlast
    · cases b with
      | nil => cases hhead
      | cons c b =>
        rcases Bool.or_eq_true_iff.1 hhead with hback | hparen
        · rw [hinert.1] at hback
          cases hback
        · exact hclose (congrArg some (beq_iff_eq.1 hparen))

/-- What parts have to be for their texts to be `Seamless`. -/
theorem together_parted : ∀ {ps : List PartWords}, (∀ p ∈ ps, Settled p.text) →
    AllParted (ps.map PartWords.text) → Fits (together ps) ∧
      marksOf ((together ps).map fun w => (w, none)) = ps.flatMap (PartWords.marks []) ∧
      Settled (write (together ps))
  | [], _, _ => ⟨trivial, rfl, settled_nil⟩
  | p :: ps, hsettled, h => by
      obtain ⟨hfits, hmarks, hrest⟩ := together_parted
        (fun q hq => hsettled q (List.mem_cons_of_mem p hq)) h.2
      have hparted : Parted (write p.words) (write (together ps)) := (write_together ps).symm ▸ h.1
      have hsplit : together (p :: ps) = p.words ++ together ps := rfl
      rw [hsplit]
      refine ⟨hparted.fits p.fits hfits, ?_, ?_⟩
      · rw [List.map_append, marksOf_append, hmarks, writeNamed_unnamed firm_together,
          hparted.marks p.fits p.firm, List.flatMap_cons, PartWords.marks, marksBefore_nil]
      · rw [write_append]
        exact hparted.settled (hsettled p List.mem_cons_self) hrest

/-- **Texts that their neighbouring characters keep apart are seamless.** -/
theorem seamless_of_allParted {ps : List PartWords} (hsettled : ∀ p ∈ ps, Settled p.text)
    (h : AllParted (ps.map PartWords.text)) : Seamless (ps.map PartWords.text) := by
  obtain ⟨hfits, hmarks, hrest⟩ := together_parted hsettled h
  constructor
  · rw [← write_together, mapM_words?]
    exact words?_eq_some_iff.2 ⟨hfits, rfl⟩
  · rw [← write_together, ← marksOf_unnamed hfits firm_together, hmarks, List.flatMap_map]
    exact congrArg (ps.flatMap ·) (funext PartWords.marks_nil)
  · rw [← write_together]
    exact hrest.tame

/-! ### Both -/

/-- What parts have to be to stand next to each other. -/
theorem together_joined {conjunction : Conjunction} {ps : List PartWords}
    (hstand : ∀ p ∈ ps, Mark.NumbersStand 0 (p.marks [])) (hsettled : ∀ p ∈ ps, Settled p.text)
    (hseams : conjunction = .none → Seamless (ps.map PartWords.text)) :
    Fits (together (joined conjunction ps)) ∧ Standing (joined conjunction ps) ∧
      Tame (write (together (joined conjunction ps))) := by
  cases conjunction with
  | or =>
    obtain ⟨hfits, hstanding, hrest⟩ := together_or hstand hsettled
    exact ⟨hfits, hstanding, hrest.tame⟩
  | none => exact together_none hstand (hseams rfl)

end ExtensibleRegex
