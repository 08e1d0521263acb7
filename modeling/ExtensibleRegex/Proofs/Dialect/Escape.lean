import ExtensibleRegex.Proofs.Dialect.Fresh
import ExtensibleRegex.Proofs.Native.Escaped
import ExtensibleRegex.Proofs.Native.Paths
import Mathlib.Tactic

/-!
# Escaped texts in a dialect

No built-in token takes anything of an escaped text, neither outside of classes nor inside, and
whatever the flags are (`Reader.segment_escapeChar`): free spacing finds no blanks in it, a dot is
no dot any more, and no parenthesis opens. So the text is copied piece by piece (`Reader.reads_escape`),
and the regex of an escaped text finds where the text first occurs, that of a class with it the
characters of the text (`Context.regex_escape`).
-/

namespace ExtensibleRegex

open Native

/-! ## 1. Tokens -/

namespace Reader

variable {r : Reader} {scope : Scope} {ledger : Ledger} {behind : Text} {c : Char} {w : Text}

theorem le_takeWhile_append {q : Char → Bool} {ds : Text} (h : ∀ e ∈ ds, q e = true) (rest : Text) :
    ds.length ≤ ((ds ++ rest).takeWhile q).length := by
  rw [List.takeWhile_append_of_pos h, List.length_append]
  exact Nat.le_add_right _ _

/-- No token takes the escape of an escaped character. -/
theorem escape_eq_none (h : EscapeTail c w) (rest : Text) :
    r.escape scope ledger ('\\' :: (w ++ rest)) = .ok none := by
  obtain ⟨d, ds, rfl, hdigits, hletter⟩ := h.letter
  have hnumbered : Trigger.numbered ('\\' :: (d :: ds ++ rest)) = none := by
    cases hfound : Trigger.numbered ('\\' :: (d :: ds ++ rest)) with
    | none => rfl
    | some e =>
      obtain ⟨v, _, hne, hv, -, ht, -⟩ := Trigger.of_numbered hfound
      obtain ⟨f, fs, rfl⟩ := List.exists_cons_of_ne_nil hne
      obtain rfl : d = f := by simpa using (List.cons.inj (List.cons.inj ht).2).1
      have hdigit := hv d List.mem_cons_self
      rcases hletter with ⟨hmeta, -⟩ | ⟨rfl, -⟩ | ⟨rfl, -⟩
      · exact absurd hdigit
          (EscapeTail.syntaxChar_cases (p := fun d => ¬d.isDigit = true) (by simp) hmeta)
      · cases hdigit
      · cases hdigit
  have hnamed : Trigger.namedRef ('\\' :: (d :: ds ++ rest)) = none := by
    cases hfound : Trigger.namedRef ('\\' :: (d :: ds ++ rest)) with
    | none => rfl
    | some e =>
      obtain ⟨v, _, -, -, ht, -⟩ := Trigger.of_namedRef hfound
      obtain rfl : d = 'k' := (List.cons.inj (List.cons.inj ht).2).1
      rcases hletter with ⟨hmeta, -⟩ | ⟨hx, -⟩ | ⟨hu, -⟩
      · cases hmeta
      · cases hx
      · cases hu
  have hpoint : Trigger.codePoint ('\\' :: (d :: ds ++ rest)) = none := by
    cases hfound : Trigger.codePoint ('\\' :: (d :: ds ++ rest)) with
    | none => rfl
    | some e =>
      obtain ⟨v, _, -, -, ht, -⟩ := Trigger.of_codePoint hfound
      obtain ⟨hd, hrest⟩ := List.cons.inj (List.cons.inj ht).2
      rcases hletter with ⟨hmeta, -⟩ | ⟨rfl, -⟩ | ⟨rfl, hlength⟩
      · rw [hd] at hmeta
        cases hmeta
      · cases hd
      · cases ds with
        | nil => cases hlength
        | cons e ds =>
          obtain rfl : e = '\x7b' := (List.cons.inj hrest).1
          exact absurd (hdigits _ List.mem_cons_self) (by decide)
  have hrefuse : Trigger.refuse ('\\' :: (d :: ds ++ rest)) = none := by
    have hkept : Trigger.isRefused d (ds ++ rest) = false := by
      have hle := le_takeWhile_append hdigits rest
      rcases hletter with ⟨hmeta, -⟩ | ⟨rfl, hlength⟩ | ⟨rfl, hlength⟩
      · exact EscapeTail.syntaxChar_cases (p := fun d => Trigger.isRefused d (ds ++ rest) = false) (by
          simp only [List.forall_mem_cons, List.not_mem_nil, false_implies, implies_true, and_true]
          refine ⟨?_, ?_, ?_, ?_, ?_, ?_, ?_, ?_, ?_, ?_, ?_, ?_, ?_, ?_, ?_⟩ <;> rfl) hmeta
      · rw [hlength] at hle
        have hx : Trigger.isRefused 'x' (ds ++ rest) =
            !decide (2 ≤ ((ds ++ rest).takeWhile isHexDigit).length) := rfl
        rw [hx, decide_eq_true hle]
        rfl
      · rw [hlength] at hle
        have hu : Trigger.isRefused 'u' (ds ++ rest) =
            ((!(decide (4 ≤ ((ds ++ rest).takeWhile isHexDigit).length) ||
              Trigger.bracedHex (ds ++ rest))) || false) := rfl
        rw [hu, decide_eq_true hle]
        rfl
    show (if Trigger.isRefused d (ds ++ rest) then _ else none) = none
    rw [hkept]
    rfl
  unfold escape
  simp only [hnumbered, hnamed, hpoint, hrefuse, ite_self]

/-- An escaped character is copied as a whole. -/
theorem verbatimLength_tail (h : EscapeTail c w) (scope : Scope) (rest : Text) :
    verbatimLength scope ('\\' :: (w ++ rest)) = w.length + 1 := by
  obtain ⟨d, ds, rfl, hdigits, hletter⟩ := h.letter
  have hle := le_takeWhile_append hdigits rest
  have hlength : escapeLength scope (d :: (ds ++ rest)) = ds.length + 1 := by
    rcases hletter with ⟨hmeta, rfl⟩ | ⟨rfl, htwo⟩ | ⟨rfl, hfour⟩
    · refine EscapeTail.syntaxChar_cases (p := fun d => escapeLength scope (d :: rest) = 1) ?_ hmeta
      simp only [List.forall_mem_cons, List.not_mem_nil, false_implies, implies_true, and_true]
      cases scope <;> refine ⟨?_, ?_, ?_, ?_, ?_, ?_, ?_, ?_, ?_, ?_, ?_, ?_, ?_, ?_, ?_⟩ <;> rfl
    · rw [htwo] at hle
      have hx : escapeLength scope ('x' :: (ds ++ rest)) =
          if decide (leadingHexDigits (ds ++ rest) ≥ 2) then 3 else 1 := by
        cases scope <;> rfl
      rw [hx, htwo]
      exact if_pos (decide_eq_true hle)
    · rw [hfour] at hle
      have hu : escapeLength scope ('u' :: (ds ++ rest)) =
          if decide (leadingHexDigits (ds ++ rest) ≥ 4) then 5
          else escapeLength.letterLength 'u' (ds ++ rest) := by
        have hletter : escapeLength.letterLength 'u' (ds ++ rest) =
            if decide (leadingHexDigits (ds ++ rest) ≥ 4) then 5
            else escapeLength.letterLength 'u' (ds ++ rest) := by
          conv_lhs => unfold escapeLength.letterLength
          split_ifs <;> simp_all [escapeLength.letterLength]
        cases scope <;> exact hletter
      rw [hu, hfour]
      exact if_pos (decide_eq_true hle)
  show 1 + escapeLength scope (d :: (ds ++ rest)) = _
  rw [hlength, List.length_cons]
  omega

theorem scopeAfter_escapeChar (scope : Scope) (c : Char) :
    Run.scopeAfter scope (escapeChar c) = scope := by
  generalize hw : escapeChar c = w
  have h := escaped_escapeChar c
  rw [hw] at h
  cases h with
  | plain hmeta =>
    have hopen : c ≠ '[' := by
      rintro rfl
      cases hmeta
    have hclose : c ≠ ']' := by
      rintro rfl
      cases hmeta
    cases scope <;> simp [Run.scopeAfter, hopen, hclose]
  | behind h => cases scope <;> simp [Run.scopeAfter]

theorem isSpace_of_isBlank (h : isBlank c = false) : Trigger.isSpace c = false := by
  simp only [isBlank, isWhiteSpace, inRanges, whiteSpaceRanges, List.any_cons, List.any_nil,
    Bool.or_eq_false_iff, Bool.and_eq_false_iff, decide_eq_false_iff_not, beq_eq_false_iff_ne, and_true] at h
  simp only [Trigger.isSpace, Shorthand.members, CodeSet.contains_ranges, inRanges, List.any_cons,
    List.any_nil, Bool.or_eq_false_iff, Bool.and_eq_false_iff, decide_eq_false_iff_not, and_true]
  omega

/-- A character that is not escaped is taken by no token. -/
theorem token?_plain (hmeta : isSyntaxChar c = false) (hsign : c ≠ '#') (hblank : isBlank c = false)
    (rest : Text) : r.token? scope ledger behind (c :: rest) = .ok none := by
  have hne (d : Char) (hd : isSyntaxChar d = true) : ¬(c :: rest).head? = some d := by
    intro h
    rw [Option.some.inj h, hd] at hmeta
    cases hmeta
  have hnone : Trigger.blank (c :: rest) = none := by
    unfold Trigger.blank
    split
    · rename_i heq
      exact absurd (List.cons.inj heq).1 hsign
    · rw [List.takeWhile_cons, isSpace_of_isBlank hblank]
      rfl
  unfold token?
  rw [if_neg (hne '\\' rfl)]
  cases scope with
  | charClass => rfl
  | pattern =>
    simp only [if_neg (hne '(' rfl), if_neg (hne '[' rfl), if_neg (hne '.' rfl)]
    unfold blank
    rw [hnone, ite_self]

theorem verbatimLength_plain (hmeta : isSyntaxChar c = false) (scope : Scope) (rest : Text) :
    verbatimLength scope (c :: rest) = 1 := by
  have hne (d : Char) (hd : isSyntaxChar d = true) : c ≠ d := by
    rintro rfl
    rw [hd] at hmeta
    cases hmeta
  unfold verbatimLength
  split
  · rename_i heq
    cases heq
  · rename_i heq
    exact absurd (List.cons.inj heq).1 (hne '\\' rfl)
  · rename_i heq
    obtain ⟨rfl, rfl⟩ := List.cons.inj heq
    cases scope with
    | charClass => rfl
    | pattern =>
      simp [hne '(' rfl, hne '?' rfl, hne '*' rfl, hne '+' rfl, hne '\x7b' rfl]

/-- **An escaped character is a piece of its own**, in every scope and under every flag. -/
theorem segment_escapeChar (c : Char) (rest : Text) :
    r.segment scope ledger behind (escapeChar c ++ rest) =
      .ok (.copied (escapeChar c), (escapeChar c).length) := by
  have h := escaped_escapeChar c
  generalize escapeChar c = w at h
  have hpiece (hnone : r.token? scope ledger behind (w ++ rest) = .ok none)
      (hlength : verbatimLength scope (w ++ rest) = w.length) :
      r.segment scope ledger behind (w ++ rest) = .ok (.copied w, w.length) := by
    unfold segment
    rw [hnone, hlength, List.take_left]
  cases h with
  | plain hmeta _ hsign hblank =>
    exact hpiece (token?_plain hmeta hsign hblank rest) (verbatimLength_plain hmeta scope rest)
  | behind h => exact hpiece (escape_eq_none h rest) (verbatimLength_tail h scope rest)

/-- The pieces of an escaped text. -/
theorem reads_escape {rest : Text} {pieces : List Segment}
    (hrest : ∀ behind, r.Reads scope ledger behind rest pieces) : ∀ (t : Text) (behind : Text),
    r.Reads scope ledger behind (ExtensibleRegex.escape t ++ rest)
      (t.map (fun c => .copied (escapeChar c)) ++ pieces)
  | [], behind => hrest behind
  | c :: t, behind => by
      obtain ⟨d, ds, hds, -⟩ := @lexeme?_escapeChar false false c []
      have hpos : 0 < (escapeChar c).length := by
        rw [hds]
        exact Nat.succ_pos _
      rw [escape_cons, List.append_assoc]
      refine .cons (by rw [hds]; exact List.cons_ne_nil _ _) hpos (segment_escapeChar c _) ?_
      rw [List.take_left, List.drop_left]
      show r.Reads (Run.scopeAfter scope (escapeChar c)) ledger _ _ _
      rw [scopeAfter_escapeChar]
      exact reads_escape hrest t _

theorem render_escape (t : Text) (pieces : List Segment) :
    render (t.map (fun c => .copied (escapeChar c)) ++ pieces) =
      ExtensibleRegex.escape t ++ render pieces := by
  unfold render
  rw [List.flatMap_append, List.flatMap_map]
  rfl

theorem names_escape : ∀ (t : Text) (pieces : List Segment),
    names (t.map (fun c => .copied (escapeChar c)) ++ pieces) = names pieces
  | [], _ => rfl
  | _ :: t, pieces => names_escape t pieces

/-- The pieces of a class with an escaped text. -/
theorem reads_class_escape {t : Text} (hne : t ≠ []) (behind : Text) :
    r.Reads .pattern ledger behind ('[' :: (ExtensibleRegex.escape t ++ [']']))
      (.copied ['['] :: (t.map (fun c => .copied (escapeChar c)) ++ [.copied [']']])) := by
  have hclose : ∀ behind, r.Reads .charClass ledger behind [']'] [.copied [']']] := fun behind =>
    .cons (List.cons_ne_nil _ _) Nat.one_pos rfl .nil
  have hbare : Trigger.bareClass ('[' :: (ExtensibleRegex.escape t ++ [']'])) = none := by
    have hfirst {d : Char} (hd : isSyntaxChar d = true) (hescape : d ≠ '\\') :
        (ExtensibleRegex.escape t ++ [']']).head? ≠ some d := by
      obtain ⟨c, cs, rfl⟩ := List.exists_cons_of_ne_nil hne
      obtain ⟨e, es, hes, -⟩ := @lexeme?_escapeChar false false c []
      have hhead := @head?_escape_append (c :: cs) [] d hd hescape nofun
      rw [escape_cons, hes] at hhead ⊢
      exact hhead
    cases hfound : Trigger.bareClass ('[' :: (ExtensibleRegex.escape t ++ [']'])) with
    | none => rfl
    | some e =>
      rcases Trigger.of_bareClass hfound with ⟨cs, ht, -⟩ | ⟨cs, ht, -⟩
      · exact absurd (congrArg List.head? (List.cons.inj ht).2) (hfirst rfl (by decide))
      · exact absurd (congrArg List.head? (List.cons.inj ht).2) (hfirst rfl (by decide))
  have hopen : r.segment .pattern ledger behind ('[' :: (ExtensibleRegex.escape t ++ [']'])) =
      .ok (.copied ['['], 1) := by
    have hnone : r.token? .pattern ledger behind ('[' :: (ExtensibleRegex.escape t ++ [']'])) =
        .ok none := by
      show bareClass _ = _
      unfold bareClass
      rw [hbare]
    unfold segment
    rw [hnone]
    rfl
  exact .cons (List.cons_ne_nil _ _) Nat.one_pos hopen (reads_escape hclose t _)

end Reader

/-! ## 2. Empty groups -/

/-- Where question marks stand behind backslashes only, no empty group can stand. -/
theorem settled_of_isChain {t : Text} (h : t.IsChain fun a b => b = '?' → a = '\\') : Settled t := by
  intro hinfix
  have hgroup := h.infix hinfix
  simp [emptyGroup] at hgroup

theorem isChain_of_forall : ∀ {d : Char} {ds : Text}, (∀ e ∈ ds, e ≠ '?') →
    (d :: ds).IsChain fun a b => b = '?' → a = '\\'
  | _, [], _ => .singleton _
  | _, e :: _, h => .cons_cons (fun he => absurd he (h e List.mem_cons_self))
      (isChain_of_forall fun f hf => h f (List.mem_cons_of_mem e hf))

theorem isChain_escapeChar (c : Char) :
    (escapeChar c).IsChain fun a b => b = '?' → a = '\\' := by
  have h := escaped_escapeChar c
  generalize escapeChar c = w at h
  cases h with
  | plain => exact .singleton c
  | behind h =>
    obtain ⟨d, ds, rfl, hdigits, -⟩ := h.letter
    refine .cons_cons (fun _ => rfl) (isChain_of_forall fun e he hquestion => ?_)
    rw [hquestion] at he
    exact absurd (hdigits _ he) (by decide)

/-- An escaped text has question marks behind backslashes only. -/
theorem isChain_escape : ∀ (t : Text) {rest : Text},
    rest.IsChain (fun a b => b = '?' → a = '\\') → rest.head? ≠ some '?' →
    (escape t ++ rest).IsChain fun a b => b = '?' → a = '\\'
  | [], _, hrest, _ => hrest
  | c :: t, rest, hrest, hhead => by
      rw [escape_cons, List.append_assoc]
      refine (isChain_escapeChar c).append (isChain_escape t hrest hhead) fun a _ b hb hquestion => ?_
      have hfirst := head?_escape_append t (c := '?') (by decide) (by decide) hhead
      rw [hquestion] at hb
      exact absurd (Option.mem_def.1 hb) hfirst

/-- Nothing is left out of what is written for an escaped text. -/
theorem mergeEmptyGroups_of_isChain {t : Text} (h : t.IsChain fun a b => b = '?' → a = '\\') :
    mergeEmptyGroups t = t :=
  (merged_of_settled _ t (Nat.le_refl _) (settled_of_isChain h)).1

/-! ## 3. Regexes -/

/-- A span where a text occurs in another one for the first time. -/
structure Span.FirstOccurrence (s : Span) (t text : Text) : Prop where
  subject : s.start.text = text
  stretch : s.start.Stretch t s.stop
  first : ∀ i < s.start.index, ¬t <+: text.drop i

namespace Context

variable {c : Context} {flags : Text}

/-- The regex of a pattern in a fresh context, by its pieces and its program. -/
theorem Fresh.exists_regex {pattern native : Text} {pieces : List Segment} {program : Program}
    (h : c.Fresh) (hflags : ∀ f ∈ flags, f ∈ ['g', 'i', 'm', 'n', 's', 'u', 'x', 'y'])
    (hnodup : flags.Nodup) (hmodifier : modeModifier? pattern = none)
    (hread : (⟨flags, false⟩ : Reader).read pattern = .ok pieces)
    (hnative : mergeEmptyGroups (Reader.render pieces) = native)
    (hprogram : Program.ofSource? native (Reader.nativeFlags flags).mode = some program) :
    ∃ re, (answer (regex pattern flags) c).1 = .ok re ∧ re.engine.program = program := by
  have hprepare : Dialect.initial.flags.prepare pattern flags = .ok ⟨pattern, flags⟩ := by
    refine KnownFlags.prepare_of_known hmodifier (fun f hf => ?_) hnodup
    rw [Dialect.initial_flags]
    exact List.contains_iff_mem.2 (hflags f hf)
  obtain ⟨e, he, hnode⟩ := Engine.ofSource_of_program hprogram
  rw [← hnative] at he
  rw [h.answer_regex]
  exact ⟨_, bind_eq_ok.2 ⟨_, bind_eq_ok.2 ⟨_, hprepare, bind_eq_ok.2 ⟨_, hread, rfl⟩⟩,
    bind_eq_ok.2 ⟨e, he, rfl⟩⟩, hnode⟩

/-- What a search finds that looks for a text. -/
theorem firstOccurrence_of_search? {t : Text} (text : Text) {p : Program}
    (hp : p = ⟨Node.chars t .empty, 0⟩) :
    match p.search? (.first text) with
    | some f => f.whole.FirstOccurrence t text
    | none => ¬t <:+: text := by
  subst hp
  cases hsearch : Program.search? ⟨Node.chars t .empty, 0⟩ (.first text) with
  | none =>
    rintro ⟨before, rest, htext⟩
    have hlength : before.length ≤ (Place.first text).ahead.length := by
      show before.length ≤ text.length
      rw [← htext, List.length_append, List.length_append]
      omega
    have hnone := matchAt?_chars_eq_none.1
      (Program.search?_eq_none hsearch before.length hlength)
    rw [Place.ahead_advance] at hnone
    refine hnone ?_
    show t <+: text.drop before.length
    rw [← htext, List.append_assoc, List.drop_left]
    exact List.prefix_append t rest
  | some f =>
    obtain ⟨n, hn, hfound, hbefore⟩ := Program.search?_eq_some hsearch
    rw [matchAt?_chars] at hfound
    split at hfound
    · rename_i hprefix
      cases hfound
      refine ⟨Place.text_advance n _, ?_, fun i hi hprefix' => ?_⟩
      · have hstretch := Place.stretch_advance t.length ((Place.first text).advance n)
        rwa [(List.prefix_iff_eq_take.1 hprefix).symm] at hstretch
      · have hi' : i < n := by
          rw [Place.index_advance hn] at hi
          simpa [Place.first] using hi
        have hnone := matchAt?_chars_eq_none.1 (hbefore i hi')
        rw [Place.ahead_advance] at hnone
        exact hnone hprefix'
    · cases hfound

/-- A class matches the texts of one of its characters. -/
theorem isSome_search?_atom (a : Atom) (d : Char) :
    (Program.search? ⟨.seq (.atom a) .empty, 0⟩ (.first [d])).isSome = a.admits d := by
  simp only [Program.search?, Place.first, Program.searchFrom, Program.matchAt?, Node.run,
    Node.isDirect, Node.walk, Atom.step, Direction.next?, Place.next?, if_true]
  cases a.admits d <;> rfl

/-- **Escaping is exact.** Under all built-in flags but those that ignore case, the regex of an escaped
text finds the first place where the text occurs, and the regex of a class with the escaped text
matches just its characters. -/
theorem regex_escape (h : c.Fresh) (t : Text)
    (hflags : ∀ f ∈ flags, f ∈ ['g', 'm', 'n', 's', 'u', 'x', 'y']) (hnodup : flags.Nodup) :
    (∃ re, (answer (regex (escape t) flags) c).1 = .ok re ∧ ∀ text,
      match re.find? text with
      | some found => found.whole.FirstOccurrence t text
      | none => ¬t <:+: text) ∧
    (t ≠ [] → ∃ re, (answer (regex ('[' :: (escape t ++ [']'])) flags) c).1 = .ok re ∧
      ∀ d, re.isMatch [d] = true ↔ d ∈ t) := by
  have hknown : ∀ f ∈ flags, f ∈ ['g', 'i', 'm', 'n', 's', 'u', 'x', 'y'] := fun f hf =>
    (by simp : ['g', 'm', 'n', 's', 'u', 'x', 'y'] ⊆ ['g', 'i', 'm', 'n', 's', 'u', 'x', 'y'])
      (hflags f hf)
  have hcase : (Reader.nativeFlags flags).mode.ignoreCase = false := by
    have hi : 'i' ∉ flags := fun hmem => absurd (hflags 'i' hmem) (by decide)
    show flags.contains 'i' = false
    simpa using hi
  constructor
  · have hread := (@Reader.reads_escape ⟨flags, false⟩ .pattern .empty [] [] (fun _ => .nil) t []).read
    have hnative : mergeEmptyGroups (Reader.render
        (t.map (fun c => .copied (escapeChar c)) ++ [])) = escape t ++ [] := by
      rw [Reader.render_escape]
      exact mergeEmptyGroups_of_isChain (isChain_escape t .nil nofun)
    have hprogram : Program.ofSource? (escape t ++ []) (Reader.nativeFlags flags).mode =
        some ⟨Node.chars t .empty, 0⟩ := by
      rw [List.append_nil]
      exact ofSource?_escape t hcase
    obtain ⟨re, hre, hnode⟩ := h.exists_regex hknown hnodup (modeModifier?_of_head
      (@head?_escape_append t [] _ (by decide) (by decide) nofun)) hread hnative hprogram
    rw [List.append_nil] at hre
    refine ⟨re, hre, fun text => ?_⟩
    have hsearch := firstOccurrence_of_search? text hnode
    unfold Regex.find? Regex.searchAt? Engine.search?
    rw [if_neg Bool.false_ne_true]
    cases hfound : re.engine.program.search? (.first text) with
    | none =>
      rw [hfound] at hsearch
      exact hsearch
    | some f =>
      rw [hfound] at hsearch
      exact hsearch
  · intro hne
    have hread := (@Reader.reads_class_escape ⟨flags, false⟩ .empty t hne []).read
    have hchain : ('[' :: (escape t ++ [']'])).IsChain fun a b => b = '?' → a = '\\' := by
      refine List.IsChain.cons (isChain_escape t (.singleton _) (by decide)) fun b hb hquestion => ?_
      rw [hquestion] at hb
      exact absurd hb (head?_escape_append t (by decide) (by decide) (by decide))
    have hnative : mergeEmptyGroups (Reader.render (.copied ['['] ::
        (t.map (fun c => .copied (escapeChar c)) ++ [.copied [']']]))) =
          '[' :: (escape t ++ [']']) := by
      show mergeEmptyGroups ('[' :: Reader.render _) = _
      rw [Reader.render_escape]
      exact mergeEmptyGroups_of_isChain hchain
    obtain ⟨re, hre, hnode⟩ := h.exists_regex hknown hnodup rfl hread hnative
      (ofSource?_class_escape t hcase)
    refine ⟨re, hre, fun d => ?_⟩
    have hmatch : re.isMatch [d] =
        (Atom.set false (.unionOf (t.map fun c => .single c.toNat)) false).admits d := by
      rw [← isSome_search?_atom, ← hnode]
      exact Option.isSome_map
    rw [hmatch]
    exact admits_singles t d

/-- A text with a blank, a dot and a hyphen, under free spacing and in the mode where dots match
everything. -/
theorem regex_escape_blank :
    (∃ re, (answer (regex (escape " .-".toList) ['x', 's', 'u']) initial).1 = .ok re ∧
      (match re.find? "a.- .-".toList with
        | some found => found.whole.FirstOccurrence " .-".toList "a.- .-".toList
        | none => ¬" .-".toList <:+: "a.- .-".toList)) ∧
    ∃ re, (answer (regex ('[' :: (escape " .-".toList ++ [']'])) ['x', 's', 'u']) initial).1 =
        .ok re ∧ re.isMatch ['-'] = true ∧ re.isMatch ['a'] = false := by
  have hflags : ∀ f ∈ ['x', 's', 'u'], f ∈ ['g', 'm', 'n', 's', 'u', 'x', 'y'] := by simp
  obtain ⟨⟨re, hre, hfind⟩, hclass⟩ := regex_escape fresh_initial " .-".toList hflags (by decide)
  obtain ⟨re', hre', hmatch⟩ := hclass (by decide)
  refine ⟨⟨re, hre, hfind _⟩, re', hre', (hmatch '-').2 (by decide), ?_⟩
  rw [← Bool.not_eq_true, hmatch 'a']
  decide

end Context

end ExtensibleRegex
