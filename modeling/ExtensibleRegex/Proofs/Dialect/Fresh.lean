import ExtensibleRegex.Proofs.Dialect.Registration
import ExtensibleRegex.Proofs.Expansion.Groups
import ExtensibleRegex.Proofs.Native.Cutting
import Mathlib.Tactic

/-!
# Contexts without registrations

A context in which only patterns have been expanded has the built-in tokens and nothing else
(`Context.Fresh`), and answers as a new one does, whatever it has expanded before: an expansion is
what the reader makes of the pattern (`Fresh.answer_expand`), and a regex is made of that
(`Fresh.answer_regex`).

That the native pattern of such a regex is given to the dialect once more asks for two more facts
here: a reading gives the answer of the reader (`Reads.read`), and a well-formed native pattern does
not begin with a mode modifier (`lexeme?_of_modeModifier?`).
-/

namespace ExtensibleRegex

open Native

/-! ## 1. Mode modifiers -/

/-- A group never opens with names and a closing parenthesis. -/
theorem modifiers?_of_names {names body : Text} (h : ∀ c ∈ names, isNameChar c = true) :
    modifiers? (names ++ ')' :: body) = none := by
  have hdrop : ∀ k, k ≤ names.length → ∃ c cs, (names ++ ')' :: body).drop k = c :: cs ∧
      c ≠ ':' ∧ c ≠ '-' := by
    intro k hk
    rw [List.drop_append_of_le_length hk]
    cases hrest : names.drop k with
    | nil => exact ⟨')', body, rfl, by decide, by decide⟩
    | cons c cs =>
      have hname := h c (List.mem_of_mem_drop (hrest ▸ List.mem_cons_self))
      exact ⟨c, cs ++ ')' :: body, rfl, by rintro rfl; simp [isNameChar] at hname,
        by rintro rfl; simp [isNameChar] at hname⟩
  unfold modifiers?
  simp only
  have hinert : Inert (')' :: body) := ⟨by decide, fun hc => absurd hc (by decide)⟩
  have hle : ((names ++ ')' :: body).takeWhile fun c => c == 'i' || c == 'm' || c == 's').length ≤
      names.length := by
    rw [takeWhile_append_of_stop _ (fun c hc => ?_) _ hinert]
    · exact (List.takeWhile_prefix _).length_le
    · by_contra hmode
      have hcase : (c = 'i' ∨ c = 'm') ∨ c = 's' := by
        simpa only [Bool.not_eq_false, Bool.or_eq_true, beq_iff_eq] using hmode
      rcases hcase with (rfl | rfl) | rfl <;> exact absurd hc (by decide)
  obtain ⟨c, cs, hcs, hcolon, hhyphen⟩ := hdrop _ hle
  rw [hcs]
  split
  · rename_i heq
    exact absurd (List.cons.inj heq).1 hcolon
  · rename_i heq
    exact absurd (List.cons.inj heq).1 hhyphen
  · rfl

theorem modeModifier?_eq_some {pattern : Text} {modifier : Text × Text}
    (h : modeModifier? pattern = some modifier) :
    ∃ c names body, pattern = '(' :: '?' :: c :: (names ++ ')' :: body) ∧
      ∀ d ∈ c :: names, isNameChar d = true := by
  unfold modeModifier? at h
  split at h
  · rename_i pattern rest
    split at h
    · rename_i c names body htake hdrop
      refine ⟨c, names, body, ?_, fun d hd => ?_⟩
      · rw [← List.takeWhile_append_dropWhile (p := isNameChar) (l := rest), htake, hdrop]
        rfl
      · exact List.all_eq_true.1 (List.all_takeWhile (p := isNameChar) (l := rest)) d (htake ▸ hd)
    · cases h
  · cases h

/-- A parenthesis that begins a mode modifier opens no group of the engine. -/
theorem lexeme?_of_modeModifier? {c : Char} {t : Text} {modifier : Text × Text}
    (h : modeModifier? (c :: t) = some modifier) (strict named : Bool) :
    lexeme? strict named c t = none := by
  obtain ⟨d, names, body, heq, hnames⟩ := modeModifier?_eq_some h
  obtain ⟨rfl, rfl⟩ := List.cons.inj heq
  have hne (e : Char) (he : isNameChar e = false) : d ≠ e := fun hde => by
    rw [← hde, hnames d List.mem_cons_self] at he
    cases he
  have hopening : opening? ('?' :: d :: (names ++ ')' :: body)) = none := by
    rw [opening?_modifiers (hne _ (by decide)) (hne _ (by decide)) (hne _ (by decide)),
      ← List.cons_append, modifiers?_of_names hnames]
    rfl
  show (opening? _).map _ = none
  rw [hopening]
  rfl

theorem modeModifier?_of_head {pattern : Text} (h : pattern.head? ≠ some '(') :
    modeModifier? pattern = none := by
  unfold modeModifier?
  split
  · exact absurd rfl h
  · rfl

/-- A pattern without a mode modifier is prepared with known flags that are not repeated. -/
theorem KnownFlags.prepare_of_known {k : KnownFlags} {pattern flags : Text}
    (hmodifier : modeModifier? pattern = none) (hknown : ∀ f ∈ flags, k.knows f = true)
    (hnodup : flags.Nodup) : k.prepare pattern flags = .ok ⟨pattern, flags⟩ := by
  have hunknown : flags.find? (fun f => !k.knows f) = none := by
    rw [List.find?_eq_none]
    intro f hf
    rw [hknown f hf]
    decide
  unfold KnownFlags.prepare KnownFlags.refuseRepeats KnownFlags.refuseUnknown
  rw [hmodifier, repeatedFlag?_eq_none_iff.2 hnodup, hunknown]
  rfl

/-! ## 2. Readings -/

namespace Reader

variable {r : Reader}

/-- A reading of a text is what the reader answers. -/
theorem Reads.readFrom {scope : Scope} {ledger : Ledger} {behind t : Text} {pieces : List Segment}
    (h : r.Reads scope ledger behind t pieces) : r.readFrom 0 scope ledger behind t = .ok pieces := by
  induction h with
  | nil => rfl
  | @cons scope ledger behind t piece n pieces hne hpos hfirst _ ih =>
    obtain ⟨c, cs, rfl⟩ := List.exists_cons_of_ne_nil hne
    obtain ⟨k, rfl⟩ := Nat.exists_eq_add_of_lt hpos
    have hskip := readFrom_skip r (piece.scopeAfter scope) (piece.enter ledger) (0 + k + 1)
      (.between behind (c :: cs))
    rw [Place.behind_advance, Place.ahead_advance] at hskip
    have hrest : r.readFrom (0 + k + 1 - 1) (piece.scopeAfter scope) (piece.enter ledger) (c :: behind)
        cs = .ok pieces := hskip.trans ih
    unfold Reader.readFrom
    rw [hfirst]
    simp only [hrest]
    rfl

theorem Reads.read {t : Text} {pieces : List Segment} (h : r.Reads .pattern .empty [] t pieces) :
    r.read t = .ok pieces := h.readFrom

/-- What a pattern is expanded to with the built-in tokens. -/
def expansion (pattern flags : Text) : Except Error Expansion := do
  let prepared ← Dialect.initial.flags.prepare pattern flags
  let pieces ← (⟨prepared.flags, false⟩ : Reader).read prepared.pattern
  return { pattern := mergeEmptyGroups (render pieces)
           flags := nativeFlags prepared.flags
           names := if (names pieces).any Option.isSome then some (names pieces) else none }

/-- The expansion of a pattern with known flags, by its pieces. -/
theorem expansion_of_read {pattern flags : Text} {pieces : List Segment}
    (hmodifier : modeModifier? pattern = none)
    (hknown : ∀ f ∈ flags, f ∈ ['g', 'i', 'm', 'n', 's', 'u', 'x', 'y']) (hnodup : flags.Nodup)
    (hread : (⟨flags, false⟩ : Reader).read pattern = .ok pieces) :
    expansion pattern flags = .ok
      { pattern := mergeEmptyGroups (render pieces)
        flags := nativeFlags flags
        names := if (names pieces).any Option.isSome then some (names pieces) else none } := by
  have hprepare : Dialect.initial.flags.prepare pattern flags = .ok ⟨pattern, flags⟩ := by
    refine KnownFlags.prepare_of_known hmodifier (fun f hf => ?_) hnodup
    rw [Dialect.initial_flags]
    exact List.contains_iff_mem.2 (hknown f hf)
  unfold expansion
  rw [hprepare]
  show (⟨flags, false⟩ : Reader).read pattern >>= _ = _
  rw [hread]
  rfl

end Reader

/-- The expansion of a pattern in a new dialect is what the reader makes of it. -/
theorem Dialect.meaning_initial (pattern flags : Text) :
    Dialect.initial.meaning pattern flags = Reader.expansion pattern flags := by
  unfold Dialect.meaning Reader.expansion
  cases hprepare : Dialect.initial.flags.prepare pattern flags with
  | error e =>
    rw [expand_of_refused (d := initial.cleared) hprepare]
    rfl
  | ok prepared =>
    rw [expand_of_prepare (d := initial.cleared) hprepare]
    show (ExtensibleRegex.expand Dialect.initial.tokens Dialect.initial.features prepared _).1 = _
    rw [Reader.expand_initial, Dialect.initial_features]
    show Except.map _ ((⟨prepared.flags, false⟩ : Reader).read prepared.pattern) =
      ((⟨prepared.flags, false⟩ : Reader).read prepared.pattern).bind _
    cases (⟨prepared.flags, false⟩ : Reader).read prepared.pattern <;> rfl

/-! ## 3. Fresh contexts -/

namespace Context

/-- A context in which nothing has been registered: what it keeps is what the built-in tokens make
of patterns. -/
structure Fresh (c : Context) : Prop where
  faithful : c.Faithful
  dialect : c.dialect.cleared = Dialect.initial.cleared

theorem fresh_initial : initial.Fresh := ⟨faithful_initial, rfl⟩

variable {c : Context}

/-- What expands patterns leaves a fresh context fresh. -/
theorem Fresh.after {α : Type} {task : ContextM α} (h : c.Fresh) (htask : Keeps id task) :
    (answer task c).2.Fresh :=
  ⟨(htask c h.faithful).1, (htask c h.faithful).2.trans h.dialect⟩

theorem Fresh.features (h : c.Fresh) : c.dialect.features = {} := by
  have hfeatures := congrArg Dialect.features h.dialect
  exact hfeatures.trans Dialect.initial_features

theorem Fresh.fullFlags (h : c.Fresh) (flags : Text) : c.dialect.fullFlags flags = flags := by
  unfold Dialect.fullFlags
  rw [h.features]
  rfl

/-- A pattern means in a fresh context what the reader makes of it. -/
theorem Fresh.meaning (h : c.Fresh) : c.dialect.meaning = Reader.expansion := by
  funext pattern flags
  rw [← Dialect.meaning_cleared, h.dialect, Dialect.meaning_cleared, Dialect.meaning_initial]

/-- **A fresh context expands a pattern as the reader does.** -/
theorem Fresh.answer_expand (h : c.Fresh) (pattern flags : Text) :
    (answer (expand pattern flags) c).1 = Reader.expansion pattern flags := by
  rw [h.faithful.answer_expand, h.fullFlags, h.meaning]

/-- **The regex of a pattern in a fresh context** is made of what the reader answers. -/
theorem Fresh.answer_regex (h : c.Fresh) (pattern flags : Text) :
    (answer (regex pattern flags) c).1 = (do
      let t ← Reader.expansion pattern flags
      let engine ← Engine.ofSource t.pattern t.flags.mode
      return { engine
               global := t.flags.global
               sticky := t.flags.sticky
               names := t.names
               source := some pattern
               flags := some (orderFlags flags)
               namespaced := false }) := by
  rw [h.faithful.answer_regex, h.meaning, h.fullFlags, h.features]

/-- The regex that a fresh context makes of a pattern. -/
def freshRegex (pattern flags : Text) : Except Error Regex := do
  let t ← Reader.expansion pattern flags
  let engine ← Engine.ofSource t.pattern t.flags.mode
  return { engine
           global := t.flags.global
           sticky := t.flags.sticky
           names := t.names
           source := some pattern
           flags := some (orderFlags flags)
           namespaced := false }

/-- The regex of an expansion whose native pattern is well-formed. -/
theorem exists_freshRegex {pattern flags : Text} {t : Expansion} {program : Program}
    (ht : Reader.expansion pattern flags = .ok t)
    (hprogram : Program.ofSource? t.pattern t.flags.mode = some program) :
    ∃ re, freshRegex pattern flags = .ok re ∧ re.engine.program = program ∧
      re.engine.source = t.pattern ∧ re.engine.mode = t.flags.mode ∧ re.names = t.names := by
  obtain ⟨e, he, hnode⟩ := Engine.ofSource_of_program hprogram
  obtain ⟨hsource, hmode⟩ := Engine.ofSource_eq_ok.1 he
  refine ⟨{ engine := e, global := t.flags.global, sticky := t.flags.sticky, names := t.names,
            source := some pattern, flags := some (orderFlags flags), namespaced := false }, ?_,
    hnode, hsource, hmode, rfl⟩
  unfold freshRegex
  rw [ht]
  show Engine.ofSource t.pattern t.flags.mode >>= _ = _
  rw [he]
  rfl

/-- A fresh context answers with a regex and stays fresh. -/
theorem Fresh.answer_freshRegex (h : c.Fresh) (pattern flags : Text) :
    (answer (regex pattern flags) c).1 = freshRegex pattern flags ∧
      (answer (regex pattern flags) c).2.Fresh :=
  ⟨h.answer_regex pattern flags, h.after (keeps_regex pattern flags)⟩

/-- A fresh context answers with the regex that a new one does. -/
theorem Fresh.answer_regex_initial (h : c.Fresh) (pattern flags : Text) :
    (answer (regex pattern flags) c).1 = (answer (regex pattern flags) initial).1 := by
  rw [h.answer_regex, fresh_initial.answer_regex]

end Context

end ExtensibleRegex
