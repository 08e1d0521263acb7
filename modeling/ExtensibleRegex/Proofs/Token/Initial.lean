import ExtensibleRegex.Dialect.Basic
import ExtensibleRegex.Proofs.Results
import ExtensibleRegex.Proofs.Token.Triggers
import Mathlib.Tactic

/-!
# The tokens of a fresh dialect

A fresh dialect has the built-in tokens only. This file says which of them goes first at a place,
and with which match, without the engine:

* a token `Works` when it is what its declaration says and its trigger matches where a function on
  the text ahead says;
* `firstFound?` goes through declarations and such functions as `firstToken?` goes through tokens
  (`firstToken?_works`);
* `Dialect.initial_tokens` says that the tokens of a fresh dialect work.
-/

namespace ExtensibleRegex

open Native

/-! ## 1. Captures of triggers -/

/-- The captures of a match of a trigger. -/
def Native.Extent.captures (e : Extent) (p : Place) : Captures :=
  ⟨(e.found p).whole, (e.found p).groups, none, false⟩

namespace Native.Extent

variable (e : Extent) (p : Place)

theorem index_advance_min (n : Nat) (p : Place) :
    (p.advance n).index = p.index + min n p.ahead.length := by
  by_cases h : n ≤ p.ahead.length
  · rw [Place.index_advance h, Nat.min_eq_left h]
  · have hend : p.advance n = p.advance p.ahead.length := by
      obtain ⟨k, rfl⟩ := Nat.exists_eq_add_of_le (Nat.le_of_not_le h)
      have hnext : ∀ k (q : Place), q.ahead = [] → q.advance k = q := by
        intro k q hq
        cases k with
        | zero => rfl
        | succ k =>
          have hnone : q.next? = none := (Place.next?_eq_none_iff q).2 (by simp [Place.atEnd, hq])
          simp only [Place.advance, hnone]
      rw [← Place.advance_advance]
      exact hnext k _ (by rw [Place.ahead_advance, List.drop_length])
    rw [hend, Place.index_advance (Nat.le_refl _), Nat.min_eq_right (Nat.le_of_not_le h)]

theorem text_span (m n : Nat) :
    Span.text ⟨p.advance m, p.advance n⟩ = (p.ahead.drop m).take (n - m) := by
  simp only [Span.text, Place.ahead_advance, index_advance_min]
  rw [Nat.add_sub_add_left, List.take_eq_take_iff, List.length_drop]
  omega

theorem text_captures : (e.captures p).text = e.text p.ahead := text_span p 0 e.length

theorem textOf_captures : (e.captures p).textOf 1 = e.captured p.ahead := by
  unfold captures found Captures.textOf Captures.get? Captures.slots captured
  cases e.group with
  | none => rfl
  | some g => exact text_span p g.1 g.2

theorem stop_captures : (e.captures p).whole.stop.ahead = p.ahead.drop e.length :=
  Place.ahead_advance _ _

end Native.Extent

/-! ## 2. Tokens that work -/

/-- A token made from a declaration, with a function that says where its trigger matches. -/
structure Token.Works (t : Token) (s : TokenSpec) (find : Text → Option Extent) : Prop where
  handler : t.handler = s.handler
  switch : t.switch = s.switch
  scope : t.scope = s.scope
  gate : t.gate = s.gate
  reparse : t.reparse = s.reparse
  lead : t.lead = s.lead
  finds : ∀ p, t.trigger.searchAt? p true = (find p.ahead).map (·.captures p)

theorem Token.works_of_finds {s : TokenSpec} {find : Text → Option Extent} (h : s.Finds find)
    (serial : Nat) : ∃ t, Token.ofSpec s serial = .ok t ∧ t.Works s find := by
  obtain ⟨node, n, hprogram, hruns, hn⟩ := h.program
  obtain ⟨e, he, hnode⟩ := Engine.ofSource_of_program hprogram
  have hmode := (Engine.ofSource_eq_ok.1 he).2
  have hregex : Regex.native s.trigger ['u'] = .ok ⟨e, false, false, none, none, none, false⟩ :=
    bind_eq_ok.2 ⟨(), rfl, bind_eq_ok.2 ⟨e, he, rfl⟩⟩
  refine ⟨_, bind_eq_ok.2 ⟨_, hregex, rfl⟩, rfl, rfl, rfl, rfl, rfl, rfl, fun p => ?_⟩
  have hfree : e.NoNextGroup := Engine.noNextGroup_of_unicode e (by rw [hmode])
  simp only [Regex.searchAt?, if_true, Engine.searchAt?_eq_matchAt? e (.inr hfree), hnode,
    matchAt?_of_runs hruns hn]
  cases find p.ahead <;> rfl

/-- Declared tokens with the functions that say where they match. -/
abbrev Finders := List (TokenSpec × (Text → Option Extent))

theorem forM_singleFlag : ∀ {cs : Text}, (∀ c ∈ cs, isNameChar c) →
    cs.forM (m := Except Error) (fun c => do let _ ← KnownFlags.singleFlag [c]) = .ok ()
  | [], _ => rfl
  | c :: cs, hcs => by
      have hc : KnownFlags.singleFlag [c] = .ok c := if_pos (hcs c List.mem_cons_self)
      show ((KnownFlags.singleFlag [c] >>= fun _ => pure ()) >>= fun _ => List.forM cs _) = _
      rw [hc]
      exact forM_singleFlag fun d hd => hcs d (List.mem_cons_of_mem _ hd)

theorem Dialect.addToken_works (d : Dialect) {s : TokenSpec} {find : Text → Option Extent}
    (h : s.Finds find) :
    ∃ d', d.addToken s = .ok d' ∧ d'.features = d.features ∧
      d'.flags = s.flags.foldl KnownFlags.insert d.flags ∧
      ∃ t, t.Works s find ∧ d'.tokens = t :: d.tokens := by
  obtain ⟨t, ht, hworks⟩ := Token.works_of_finds h d.tokens.length
  refine ⟨_, bind_eq_ok.2 ⟨(), forM_singleFlag h.flags, bind_eq_ok.2 ⟨t, ht, rfl⟩⟩, rfl, rfl, t, hworks, rfl⟩

theorem Dialect.addTokens_works {specs : List TokenSpec} {finders : List (Text → Option Extent)}
    (h : List.Forall₂ TokenSpec.Finds specs finders) : ∀ d : Dialect,
    (d.addTokens specs).features = d.features ∧
      (d.addTokens specs).flags =
        specs.foldl (fun k s => s.flags.foldl KnownFlags.insert k) d.flags ∧
      ∃ ts, (d.addTokens specs).tokens = ts.reverse ++ d.tokens ∧
      List.Forall₂ (fun t (sf : TokenSpec × (Text → Option Extent)) => t.Works sf.1 sf.2) ts
        (specs.zip finders) := by
  induction h with
  | nil => exact fun d => ⟨rfl, rfl, [], rfl, .nil⟩
  | @cons s find specs finders hs _ ih =>
    intro d
    obtain ⟨d', hd', hfeatures, hflags, t, ht, htokens⟩ := d.addToken_works hs
    obtain ⟨hfeatures', hflags', ts, hts, hworks⟩ := ih d'
    have hstep : d.addTokens (s :: specs) = d'.addTokens specs := by
      unfold addTokens
      rw [List.foldl_cons, hd']
    rw [hstep]
    refine ⟨hfeatures'.trans hfeatures, by rw [hflags', hflags]; rfl, t :: ts, ?_, .cons ht hworks⟩
    rw [hts, htokens]
    simp

/-- Whether a token is to be tried before a text. -/
def TokenSpec.applies (s : TokenSpec) (t : Text) (scope : Scope) (flags : Text) : Bool :=
  (s.lead.isNone || s.lead == t.head?) && s.scope.admits scope && s.gate.all flags.contains

/-- The first token of a list that matches before a text, and its match. -/
def firstFound? (fs : Finders) (scope : Scope) (flags t : Text) : Option (TokenSpec × Extent) :=
  fs.findSome? fun f => if f.1.applies t scope flags then (f.2 t).map (f.1, ·) else none

theorem firstToken?_works {ts : List Token} {fs : Finders}
    (h : List.Forall₂ (fun t (sf : TokenSpec × (Text → Option Extent)) => t.Works sf.1 sf.2) ts fs)
    (p : Place) (scope : Scope) (flags : Text) :
    match firstFound? fs scope flags p.ahead with
    | some (s, e) => ∃ t, firstToken? ts p scope flags = some (t, e.captures p) ∧
        t.handler = s.handler ∧ t.reparse = s.reparse
    | none => firstToken? ts p scope flags = none := by
  induction h with
  | nil => rfl
  | @cons t sf ts fs ht _ ih =>
    have hmatch : t.matchAt? p scope flags =
        if sf.1.applies p.ahead scope flags then (sf.2 p.ahead).map (·.captures p) else none := by
      simp only [Token.matchAt?, Token.applies, TokenSpec.applies, ht.finds, ht.lead, ht.scope,
        ht.gate]
      rfl
    unfold firstToken? firstFound? at *
    rw [List.findSome?_cons, List.findSome?_cons, hmatch]
    by_cases ha : sf.1.applies p.ahead scope flags = true
    · simp only [if_pos ha]
      cases sf.2 p.ahead with
      | none => exact ih
      | some e => exact ⟨t, rfl, ht.handler, ht.reparse⟩
    · simp only [if_neg ha]
      exact ih


/-- The built-in tokens with where they match, latest first. -/
def Builtin.table : Finders := (specs.zip finders).reverse

theorem Dialect.initial_features : Dialect.initial.features = {} :=
  (Dialect.addTokens_works Builtin.specs_find Dialect.bare).1

theorem Dialect.initial_flags :
    Dialect.initial.flags = ⟨['g', 'i', 'm', 'n', 's', 'u', 'x', 'y'], by decide⟩ :=
  (Dialect.addTokens_works Builtin.specs_find Dialect.bare).2.1.trans (by decide)

theorem Dialect.initial_tokens :
    List.Forall₂ (fun t (sf : TokenSpec × (Text → Option Extent)) => t.Works sf.1 sf.2)
      Dialect.initial.tokens Builtin.table := by
  obtain ⟨-, -, ts, hts, hworks⟩ := Dialect.addTokens_works Builtin.specs_find Dialect.bare
  have htokens : Dialect.initial.tokens = ts.reverse := hts.trans (List.append_nil _)
  rw [htokens]
  exact List.rel_reverse hworks

/-- A token out of a list of tokens that work does what some declaration says. -/
theorem exists_works_of_mem {ts : List Token} {fs : Finders}
    (h : List.Forall₂ (fun t (sf : TokenSpec × (Text → Option Extent)) => t.Works sf.1 sf.2) ts fs)
    {t : Token} (ht : t ∈ ts) : ∃ sf ∈ fs, t.Works sf.1 sf.2 := by
  induction h with
  | nil => cases ht
  | @cons u sf ts fs hu _ ih =>
    rcases List.mem_cons.1 ht with rfl | ht
    · exact ⟨sf, List.mem_cons_self, hu⟩
    · obtain ⟨sf', hsf', hworks⟩ := ih ht
      exact ⟨sf', List.mem_cons_of_mem sf hsf', hworks⟩

/-- The built-in tokens leave the features as they are. -/
theorem Dialect.switch_of_mem_initial {t : Token} (h : t ∈ Dialect.initial.tokens) (inv : Invocation)
    (ledger : Ledger) : t.switch inv ledger = inv.setting.features := by
  have hkeeps : ∀ sf ∈ Builtin.table, sf.1.switch = fun inv _ => inv.setting.features := by
    simp [Builtin.table, Builtin.specs, Builtin.finders]
  obtain ⟨sf, hsf, hworks⟩ := exists_works_of_mem Dialect.initial_tokens h
  rw [hworks.switch, hkeeps sf hsf]

end ExtensibleRegex
