import ExtensibleRegex.Proofs.Combine.Rereading
import Mathlib.Tactic

/-!
# The words of the parts of a union

A part of a union is written again with its references moved and with names for its groups. Here
that is followed through the words of the part:

* moved words still fit before each other (`Fits.shifted`), and their numbers stand behind the
  groups of the parts before if they stand in the part alone (`numbersStand_dub`);
* fitting words with names are read again as the words without names (`rereads_words`);
* the marks of a native pattern can be read off its text (`Mark.ofText`).
-/

namespace ExtensibleRegex

open Native

/-! ## 1. Moved words -/

theorem shifted_of_ne {w : Word} (h : ∀ digits, w.lexeme ≠ .decimal digits) (prior : Nat) :
    w.shifted prior = w := by
  unfold Word.shifted
  split
  · rename_i digits hl
    exact absurd hl (h digits)
  · rfl

theorem Firm.renumbered {w : Word} (h : Firm w) (prior : Nat) : Renumbered w (w.shifted prior) := by
  rcases h.kind with rfl | ⟨digits, hne, hdigits, hzero, rfl⟩ | hstill
  · exact .inl rfl
  · exact .inr ⟨_, _, rfl, Nat.add_pos_left (readDigits_pos hdigits hne hzero) prior, rfl⟩
  · exact .inl (shifted_of_ne hstill.1 prior)

theorem firm_numberWord {n : Nat} (h : 0 < n) : Firm (numberWord (decimalText n)) :=
  .number (decimalText_ne_nil n) (fun _ => isDigit_of_mem_decimalText) (head?_decimalText h)

theorem Firm.shifted {w : Word} (h : Firm w) (prior : Nat) : Firm (w.shifted prior) := by
  rcases h.renumbered prior with heq | ⟨_, n, _, hn, heq⟩
  · rwa [heq]
  · rw [heq]
    exact firm_numberWord hn

/-- The first character of a word does not change when the word is moved. -/
theorem head?_write_shifted {ws : List Word} (h : ∀ w ∈ ws, Firm w) (prior : Nat) :
    (write (ws.map (Word.shifted prior))).head? = (write ws).head? := by
  cases ws with
  | nil => rfl
  | cons w ws =>
    rw [List.map_cons, write_cons, write_cons]
    rcases (h w List.mem_cons_self).kind with rfl | ⟨digits, -, -, -, rfl⟩ | hstill
    · rfl
    · rfl
    · obtain ⟨c, cs, htext⟩ := List.exists_cons_of_ne_nil (h w List.mem_cons_self).ne_nil
      rw [shifted_of_ne hstill.1, htext]
      rfl

/-! ## 2. Words with names -/

theorem map_dub (names : GroupNames) : ∀ (opened : Nat) (ws : List Word),
    (dub names opened ws).map Prod.fst = ws
  | _, [] => rfl
  | opened, w :: ws => by
      unfold dub
      split
      · rw [List.map_cons, map_dub names (opened + 1) ws]
      · rw [List.map_cons, map_dub names opened ws]

theorem firm_of_dub {names : GroupNames} {opened prior : Nat} {ws : List Word}
    (h : ∀ w ∈ ws, Firm w) : ∀ w ∈ dub names opened (ws.map (Word.shifted prior)), Firm w.1 := by
  intro w hw
  have hmem : w.1 ∈ (dub names opened (ws.map (Word.shifted prior))).map Prod.fst :=
    List.mem_map_of_mem hw
  rw [map_dub] at hmem
  obtain ⟨v, hv, heq⟩ := List.mem_map.1 hmem
  rw [← heq]
  exact (h v hv).shifted prior

theorem mem_names_of_dub {names : GroupNames} {name : Text} : ∀ {opened : Nat} {ws : List Word}
    {w : Word}, (w, some name) ∈ dub names opened ws → some name ∈ names
  | _, [], _, h => by cases h
  | opened, v :: ws, w, h => by
      unfold dub at h
      split at h
      · rcases List.mem_cons.1 h with heq | h
        · have hname := (Prod.mk.inj heq).2
          cases hget : names[opened]? with
          | none => rw [hget] at hname; cases hname
          | some other =>
            rw [hget] at hname
            exact List.mem_of_getElem? (hget.trans (congrArg some hname.symm))
        · exact mem_names_of_dub h
      · rcases List.mem_cons.1 h with heq | h
        · cases heq
        · exact mem_names_of_dub h

/-- The first character of a word does not depend on its name. -/
theorem head?_writeNamed {ws : List NamedWord} (h : ∀ w ∈ ws, Firm w.1) :
    (writeNamed ws).head? = (write (ws.map Prod.fst)).head? := by
  cases ws with
  | nil => rfl
  | cons w ws =>
    obtain ⟨w, name⟩ := w
    have hfirm := h (w, name) List.mem_cons_self
    rw [writeNamed_cons, List.map_cons, write_cons]
    rcases hfirm.kind with rfl | ⟨digits, -, -, -, rfl⟩ | hstill
    · cases name <;> rfl
    · rfl
    · obtain ⟨c, cs, htext⟩ := List.exists_cons_of_ne_nil hfirm.ne_nil
      rw [text_of_still hstill, htext]
      rfl

/-- **Words with names are read again as the words without them.** -/
theorem rereads_words : ∀ {ws : List NamedWord}, Fits (ws.map Prod.fst) → (∀ w ∈ ws, Firm w.1) →
    (∀ w ∈ ws, ∀ name, w.2 = some name → Mark.Named name) →
    Rereads .pattern (writeNamed ws) (write (ws.map Prod.fst)) (marksOf ws)
  | [], _, _, _ => .nil
  | (w, name) :: ws, hfits, hfirm, hnames => by
      have hfirm' : ∀ v ∈ ws, Firm v.1 := fun v hv => hfirm v (List.mem_cons_of_mem _ hv)
      refine (hfirm _ List.mem_cons_self).rereads (fun hcaptures => ?_) (hnames _ List.mem_cons_self)
        (rereads_words hfits.2 hfirm' fun v hv => hnames v (List.mem_cons_of_mem _ hv))
      show (writeNamed ws).head? ≠ some '?'
      rw [head?_writeNamed hfirm']
      have hw : w.Fits (write (ws.map Prod.fst)) := hfits.1
      rcases (hfirm (w, name) List.mem_cons_self).kind with heq | ⟨digits, -, -, -, heq⟩ | hstill
      · rw [show w = _ from heq] at hw
        exact head?_of_capture hw
      · rw [heq] at hcaptures
        cases hcaptures
      · rw [captures_of_still hstill] at hcaptures
        cases hcaptures

/-! ## 3. Marks of moved words -/

theorem marks_of_number {digits next : Text} (hne : digits ≠ [])
    (hdigits : ∀ d ∈ digits, d.isDigit = true) (hhead : next.head?.any Char.isDigit = false)
    (name : Option Text) : NamedWord.marks next (numberWord digits, name) = [.number digits] := by
  obtain ⟨d, ds, rfl⟩ := List.exists_cons_of_ne_nil hne
  have htake : (ds ++ next).takeWhile Char.isDigit = ds := by
    rw [List.takeWhile_append_of_pos fun c hc => hdigits c (List.mem_cons_of_mem d hc)]
    cases next with
    | nil => simp
    | cons c next => simp [show c.isDigit = false from hhead]
  show (if d.isDigit then [Mark.number (d :: (ds ++ next).takeWhile Char.isDigit)] else []) = _
  rw [if_pos (hdigits d List.mem_cons_self), htake]

theorem numberStands_decimal {opened : Nat} {digits : Text} (hzero : digits.head? ≠ some '0')
    (hpos : 0 < readDigits 10 digits) (h : Reader.numberStands .pattern opened digits)
    (prior : Nat) : Reader.numberStands .pattern (prior + opened)
      (decimalText (readDigits 10 digits + prior)) := by
  rcases h with ⟨-, -, hle⟩ | hzero'
  · refine .inl ⟨rfl, head?_decimalText (Nat.add_pos_left hpos prior), ?_⟩
    rw [readDigits_decimalText]
    omega
  · rw [hzero'] at hzero
    exact absurd rfl hzero

/-- The marks of a word that is neither a number nor the opening of a capturing group: a zero at
most. They are the same before a text that begins with the same character. -/
theorem marks_still_congr {w : Word} (h : Firm w) (hstill : Still w.lexeme) {opened : Nat}
    {next next' : Text} (hhead : next.head? = next'.head?) (name name' : Option Text)
    {ms : List Mark} (hstand : Mark.NumbersStand opened (NamedWord.marks next (w, name) ++ ms)) :
    NamedWord.marks next' (w, name') = NamedWord.marks next (w, name) ∧
      (NamedWord.marks next (w, name) = [] ∨ NamedWord.marks next (w, name) = [.number ['0']]) := by
  have hplain {c : Char} {cs : Text} {l : Lexeme} (hw : w = ⟨c :: cs, l⟩) (hc : c ≠ '\\') :
      NamedWord.marks next' (w, name') = NamedWord.marks next (w, name) ∧
      (NamedWord.marks next (w, name) = [] ∨ NamedWord.marks next (w, name) = [.number ['0']]) := by
    subst hw
    rw [marks_of_still hstill hc, marks_of_still hstill hc]
    exact ⟨rfl, .inl rfl⟩
  cases h with
  | capture => exact absurd rfl (hstill.2 none)
  | number _ _ _ => exact absurd rfl (hstill.1 _)
  | plain _ first _ => exact hplain rfl (by rcases first with hfirst | rfl; rintro rfl; cases hfirst; decide)
  | opens _ => exact hplain rfl (by decide)
  | set _ _ _ _ => exact hplain rfl (by decide)
  | @escape c cs l _ digit _ _ =>
    rw [marks_of_escape hstill] at hstand
    rw [marks_of_escape hstill, marks_of_escape hstill]
    cases hc : c.isDigit with
    | false => exact ⟨rfl, .inl rfl⟩
    | true =>
      obtain rfl := digit hc
      rw [if_pos hc] at hstand
      have hnone : (cs ++ next).takeWhile Char.isDigit = [] := by
        rcases hstand.1 with ⟨-, hzero, -⟩ | hzero
        · exact absurd rfl hzero
        · exact (List.cons.inj hzero).2
      have hnone' : (cs ++ next').takeWhile Char.isDigit = [] := by
        cases cs with
        | nil =>
          cases next with
          | nil =>
            cases next' with
            | nil => rfl
            | cons d next' => cases hhead
          | cons d next =>
            cases next' with
            | nil => cases hhead
            | cons d' next' =>
              obtain rfl := Option.some.inj hhead
              cases hd : d.isDigit with
              | true => simp [hd] at hnone
              | false => simp [hd]
        | cons d cs =>
          cases hd : d.isDigit with
          | true => simp [hd] at hnone
          | false => simp [hd]
      rw [if_pos rfl, if_pos rfl, hnone, hnone']
      exact ⟨rfl, .inr rfl⟩

/-- The marks of words that are written before a text. -/
def marksBefore : List NamedWord → Text → List Mark
  | [], _ => []
  | w :: ws, T => w.marks (writeNamed ws ++ T) ++ marksBefore ws T

theorem marksBefore_nil : ∀ ws : List NamedWord, marksBefore ws [] = marksOf ws
  | [] => rfl
  | w :: ws => by rw [marksBefore, marksOf, List.append_nil, marksBefore_nil ws]

theorem marksBefore_append : ∀ (ws ws' : List NamedWord) (T : Text),
    marksBefore (ws ++ ws') T = marksBefore ws (writeNamed ws' ++ T) ++ marksBefore ws' T
  | [], _, _ => rfl
  | w :: ws, ws', T => by
      rw [List.cons_append, marksBefore, marksBefore, marksBefore_append ws ws' T, writeNamed_append,
        List.append_assoc, List.append_assoc]

theorem marksOf_append (ws ws' : List NamedWord) :
    marksOf (ws ++ ws') = marksBefore ws (writeNamed ws') ++ marksOf ws' := by
  rw [← marksBefore_nil, marksBefore_append, List.append_nil, marksBefore_nil]

/-- Words that are read as they are when they are written before a text. -/
def FitsBefore : List Word → Text → Prop
  | [], _ => True
  | w :: ws, T => w.Fits (write ws ++ T) ∧ FitsBefore ws T

theorem fitsBefore_nil : ∀ {ws : List Word}, Fits ws → FitsBefore ws []
  | [], _ => trivial
  | w :: ws, h => ⟨by rw [List.append_nil]; exact h.1, fitsBefore_nil h.2⟩

theorem FitsBefore.append : ∀ {ws ws' : List Word}, FitsBefore ws (write ws') → Fits ws' →
    Fits (ws ++ ws')
  | [], _, _, h => h
  | w :: ws, ws', h, h' => by
      refine ⟨?_, h.2.append h'⟩
      show w.Fits (write (ws ++ ws'))
      rw [write_append]
      exact h.1

theorem head?_append_congr {s s' T T' : Text} (h : s.head? = s'.head?) (hT : T.head? = T'.head?) :
    (s ++ T).head? = (s' ++ T').head? := by
  rw [List.head?_append, List.head?_append, h, hT]

/-- **Numbers that stand in a part alone** stand behind the groups of the parts before it, when they
are moved by as many. -/
theorem numbersStand_dub (names : GroupNames) (prior : Nat) {T T' : Text} (hT : T.head? = T'.head?) :
    ∀ {ws : List Word} (opened index : Nat), FitsBefore ws T → (∀ w ∈ ws, Firm w) →
    Mark.NumbersStand opened (marksBefore (ws.map fun w => (w, none)) T) →
    Mark.NumbersStand (prior + opened)
      (marksBefore (dub names index (ws.map (Word.shifted prior))) T')
  | [], _, _, _, _, _ => trivial
  | w :: ws, opened, index, hfits, hfirm, h => by
      have hfirm' : ∀ v ∈ ws, Firm v := fun v hv => hfirm v (List.mem_cons_of_mem w hv)
      have ih (opened index : Nat) := @numbersStand_dub names prior T T' hT ws opened index hfits.2
        hfirm'
      have hplain : (writeNamed (ws.map fun w => (w, none))).head? = (write ws).head? := by
        rw [head?_writeNamed, List.map_map]
        · exact congrArg (fun v => (write v).head?) (List.map_id ws)
        · intro v hv
          obtain ⟨u, hu, rfl⟩ := List.mem_map.1 hv
          exact hfirm' u hu
      have hmoved : (writeNamed (dub names index (ws.map (Word.shifted prior)))).head? =
          (write ws).head? := by
        rw [head?_writeNamed (firm_of_dub hfirm'), map_dub, head?_write_shifted hfirm']
      have hhead := head?_append_congr (hplain.trans hmoved.symm) hT
      rw [List.map_cons] at h ⊢
      unfold dub
      rcases (hfirm w List.mem_cons_self).kind with rfl | ⟨digits, hne, hdigits, hzero, rfl⟩ | hstill
      · exact ih (opened + 1) (index + 1) h
      · have hrest : (writeNamed (ws.map fun w => (w, none)) ++ T).head?.any Char.isDigit = false := by
          rw [head?_append_congr hplain (rfl : T.head? = T.head?)]
          exact (hfits.1.of_decimal rfl).2.2.2.2
        have h' : Mark.NumbersStand opened
          (NamedWord.marks (writeNamed (ws.map fun w => (w, none)) ++ T) (numberWord digits, none) ++
            marksBefore (ws.map fun w => (w, none)) T) := h
        show Mark.NumbersStand (prior + opened)
          (NamedWord.marks (writeNamed (dub names index (ws.map (Word.shifted prior))) ++ T')
            (numberWord (decimalText (readDigits 10 digits + prior)), none) ++
              marksBefore (dub names index (ws.map (Word.shifted prior))) T')
        rw [marks_of_number hne hdigits hrest] at h'
        rw [hhead] at hrest
        rw [marks_of_number (decimalText_ne_nil _) (fun _ => isDigit_of_mem_decimalText) hrest]
        exact ⟨numberStands_decimal hzero (readDigits_pos hdigits hne hzero) h'.1 prior,
          ih opened index h'.2⟩
      · rw [shifted_of_ne hstill.1, if_neg (by simp [captures_of_still hstill])]
        have h' : Mark.NumbersStand opened
          (NamedWord.marks (writeNamed (ws.map fun w => (w, none)) ++ T) (w, none) ++
            marksBefore (ws.map fun w => (w, none)) T) := h
        obtain ⟨heq, hmarks⟩ := marks_still_congr (hfirm w List.mem_cons_self) hstill hhead none none h'
        show Mark.NumbersStand (prior + opened)
          (NamedWord.marks (writeNamed (dub names index (ws.map (Word.shifted prior))) ++ T') (w, none) ++
            marksBefore (dub names index (ws.map (Word.shifted prior))) T')
        rw [heq]
        rcases hmarks with hnone | hone
        · rw [hnone] at h' ⊢
          exact ih opened index h'
        · rw [hone] at h' ⊢
          exact ⟨.inr rfl, ih opened index h'.2⟩

theorem captureNames_of_still {l : Lexeme} (h : Still l) : captureNames [l] = [] := by
  unfold captureNames
  rw [List.filterMap_cons_none, List.filterMap_nil]
  split
  · rename_i name
    exact absurd rfl (h.2 name)
  · rfl

/-- The marks of a word that opens no group hold no name. -/
theorem names_marks {w : NamedWord} (h : w.1.captures = false) (next : Text) :
    Mark.names (w.marks next) = [] := by
  unfold NamedWord.marks
  rw [h, if_neg Bool.false_ne_true]
  split
  · split <;> rfl
  · rfl

/-- The names among the marks of words are those that the words were given. -/
theorem names_marks_dub (names : GroupNames) (T : Text) : ∀ {ws : List Word} (opened : Nat),
    (∀ w ∈ ws, Firm w) → Mark.names (marksBefore (dub names opened ws) T) =
      (List.range' opened (captureNames (ws.map Word.lexeme)).length).map fun i => (names[i]?).join
  | [], _, _ => rfl
  | w :: ws, opened, hfirm => by
      have ih (n : Nat) := @names_marks_dub names T ws n fun v hv =>
        hfirm v (List.mem_cons_of_mem w hv)
      have happend (ms ms' : List Mark) : Mark.names (ms ++ ms') = Mark.names ms ++ Mark.names ms' :=
        List.filterMap_append
      rw [List.map_cons, captureNames_cons]
      unfold dub
      rcases (hfirm w List.mem_cons_self).kind with rfl | ⟨digits, -, -, -, rfl⟩ | hstill
      · show (names[opened]?).join :: Mark.names (marksBefore (dub names (opened + 1) ws) T) = _
        rw [ih, List.length_append,
          show (captureNames [Lexeme.opening (.capture none)]).length = 1 from rfl, Nat.add_comm 1,
          List.range'_succ, List.map_cons]
      · show Mark.names (NamedWord.marks _ (numberWord digits, none) ++
          marksBefore (dub names opened ws) T) = _
        rw [happend, names_marks rfl, ih]
        rfl
      · rw [if_neg (by simp [captures_of_still hstill]), captureNames_of_still hstill]
        show Mark.names (NamedWord.marks _ (w, none) ++ marksBefore (dub names opened ws) T) = _
        rw [happend, names_marks (captures_of_still hstill), ih]
        rfl

/-! ## 4. Marks of texts -/

/-- The marks of a native pattern that names no group. -/
def Mark.ofText : (inClass : Bool) → Text → List Mark
  | _, [] => []
  | _, ['\\'] => []
  | inClass, '\\' :: c :: cs =>
    if c.isDigit && !inClass then .number (c :: cs.takeWhile Char.isDigit) :: ofText inClass cs
    else ofText inClass cs
  | inClass, c :: cs =>
    if c = '[' && !inClass then ofText true cs
    else if c = ']' && inClass then ofText false cs
    else if c = '(' && !inClass && cs.head? != some '?' then .opens none :: ofText inClass cs
    else ofText inClass cs

theorem Mark.ofText_other {b : Bool} {c : Char} (hescape : c ≠ '\\') (hopen : b = false → c ≠ '[')
    (hclose : b = true → c ≠ ']') {cs : Text} (hparen : b = false → c = '(' → cs.head? = some '?') :
    Mark.ofText b (c :: cs) = Mark.ofText b cs := by
  cases b with
  | false =>
    by_cases hc : c = '('
    · subst hc
      simp [ofText, hparen rfl rfl]
    · simp [ofText, hescape, hopen rfl, hc]
  | true => simp [ofText, hescape, hclose rfl]

/-- **The marks of a text that is read again** can be read off it, if it names no group. -/
theorem Rereads.marks_eq {scope : Scope} {t t' : Text} {ms : List Mark} (h : Rereads scope t t' ms)
    (hnames : ∀ name, Mark.opens (some name) ∉ ms) : ms = Mark.ofText (scope = .charClass) t := by
  induction h with
  | nil => rfl
  | plain hc _ ih =>
    simp only [isPlain, Bool.and_eq_true, bne_iff_ne] at hc
    rw [ih hnames, Mark.ofText_other hc.1.1.1 (fun _ => hc.1.1.2) (fun _ => hc.1.2)
      fun _ hparen => absurd hparen hc.2]
  | @close scope _ _ _ _ ih =>
    rw [ih hnames]
    cases scope with
    | pattern =>
      exact (Mark.ofText_other (b := false) (by decide) (fun _ => by decide) (by simp)
        fun _ h => absurd h (by decide)).symm
    | charClass => exact (by simp [Mark.ofText] : Mark.ofText true (']' :: _) = Mark.ofText false _).symm
  | set _ _ ih =>
    rw [ih hnames]
    exact (by simp [Mark.ofText] : Mark.ofText false ('[' :: _) = Mark.ofText true _).symm
  | inner hescape hclose _ ih =>
    rw [ih hnames]
    exact (Mark.ofText_other (b := true) hescape (by simp) (fun _ => hclose) (by simp)).symm
  | @escape scope c t _ _ digit _ _ ih =>
    rw [ih hnames, Mark.ofText, if_neg]
    simp only [Bool.and_eq_true, Bool.not_eq_true', decide_eq_false_iff_not, not_and, not_not]
    exact digit
  | number digit _ ih =>
    rw [ih fun name h => hnames name (List.mem_cons_of_mem _ h)]
    simp [Mark.ofText, digit]
  | capture head _ ih =>
    rw [ih fun name h => hnames name (List.mem_cons_of_mem _ h)]
    simp [Mark.ofText, head]
  | named _ _ _ => exact absurd List.mem_cons_self (hnames _)
  | group _ _ ih =>
    rw [ih hnames]
    exact (Mark.ofText_other (b := false) (by decide) (fun _ => by decide) (by simp) fun _ _ => rfl).symm

end ExtensibleRegex
