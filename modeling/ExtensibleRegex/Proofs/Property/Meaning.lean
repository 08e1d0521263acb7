import ExtensibleRegex.Proofs.Dialect.Fresh
import ExtensibleRegex.Proofs.Property.Trigger
import Mathlib.Tactic

/-!
# Property escapes in a context

A context to which properties have been added, and nothing else, is `Furnished`: it has the
built-in tokens, the token of property escapes before them, and the properties. This file says what
a pattern is expanded to there that is one property escape, with anchors around it or without:

* an anchor is copied (`Run.steps_anchors`), and a property escape is written as its property says
  (`Run.step_property`);
* `PropertyEscape.written` is what stands for an escape, as a function of what it says;
* so the regex of such a pattern is that of the anchors around what is written
  (`Context.Furnished.answer_regex`).
-/

namespace ExtensibleRegex

open Native

/-! ## 1. What is written -/

/-- What stands for a property escape outside of classes. -/
def UnicodeProperty.patternText? (p : UnicodeProperty) (flags : Text) (negated : Bool) :
    Option Text :=
  if flags.contains 'A' then some (p.pointPattern negated)
  else p.bmp.map fun bmp => classText bmp .pattern negated

/-- What stands for a property escape outside of classes, by what it says. -/
def PropertyEscape.written (e : PropertyEscape) (flags : Text) (t : PropertyTable) :
    Except Error Text := do
  let (_, p, negated) ← t.resolve e
  match p.patternText? flags negated with
  | none => throw (.property (.needsAstral e.token))
  | some text => return text

theorem propertyText_pattern (found : Captures) (flags : Text) (t : PropertyTable) :
    propertyText found .pattern flags t =
      (PropertyEscape.ofCaptures found).bind (·.written flags t) := by
  unfold propertyText PropertyEscape.written UnicodeProperty.patternText?
  refine congrArg (PropertyEscape.ofCaptures found).bind (funext fun e => ?_)
  cases t.resolve e with
  | error err => rfl
  | ok r =>
    obtain ⟨key, p, negated⟩ := r
    show (if flags.contains 'A' = true then _ else _) =
      match (if flags.contains 'A' = true then some (p.pointPattern negated)
        else p.bmp.map fun bmp => classText bmp .pattern negated) with
      | none => throw (Error.property (.needsAstral e.token))
      | some text => pure text
    by_cases hA : flags.contains 'A' = true
    · simp only [hA, if_true]
      rfl
    · simp only [hA]
      cases hbmp : p.bmp <;> rfl

/-! ## 2. Steps -/

/-- The setting of a run with the token of property escapes before the built-in ones. -/
def RunSetting.KnowsProperties (s : RunSetting) : Prop :=
  ∃ t : Token, t.IsProperty ∧ s.tokens = t :: Dialect.initial.tokens

namespace Run

variable {s : RunSetting} {x : Run}

/-- A step where no token begins copies. -/
theorem step_copy (hs : s.KnowsProperties) {c : Char} {rest : Text} (hahead : x.place.ahead = c :: rest)
    (hc : c ≠ '\\') (hfound : firstFound? Builtin.table x.scope s.flags (c :: rest) = none) :
    x.step s = .running x.copy := by
  obtain ⟨t, ht, htokens⟩ := hs
  have hend : x.place.atEnd = false := by simp [Place.atEnd, hahead]
  have hlead : t.matchAt? x.place x.scope s.flags = none := by
    unfold Token.matchAt? Token.applies
    simp [ht.lead, hahead, hc.symm]
  have hfirst := firstToken?_works Dialect.initial_tokens x.place x.scope s.flags
  rw [hahead, hfound] at hfirst
  have hnone : firstToken? s.tokens x.place x.scope s.flags = none := by
    rw [htokens]
    unfold firstToken?
    rw [List.findSome?_cons, hlead]
    exact hfirst
  unfold step
  simp only [hend, and_false, if_false, Bool.false_eq_true, hnone]

/-- A step at an anchor copies it. -/
theorem step_anchor (hs : s.KnowsProperties) (hscope : x.scope = .pattern) {c : Char} {rest : Text}
    (hahead : x.place.ahead = c :: rest) (hc : c = '^' ∨ c = '$') :
    x.step s = .running (x.write [c] (x.place.advance 1)) := by
  have hfound : firstFound? Builtin.table x.scope s.flags (c :: rest) = none := by
    have hblank : Trigger.blank (c :: rest) = none := by
      have hspace : Trigger.isSpace c = false := by rcases hc with rfl | rfl <;> decide
      rcases hc with rfl | rfl <;> simp [Trigger.blank, hspace]
    rcases hc with rfl | rfl <;>
      simp [Builtin.table, firstFound?, Builtin.specs, Builtin.finders, TokenSpec.applies, hblank]
  have hcopy : x.copy = x.write [c] (x.place.advance 1) := by
    have hlength : verbatimLength .pattern (c :: rest) = 1 := by
      rcases hc with rfl | rfl <;> rfl
    have hstays : scopeAfter .pattern [c] = .pattern := by
      rcases hc with rfl | rfl <;> rfl
    unfold copy
    rw [hahead, hscope, hlength]
    show { x.write [c] (x.place.advance 1) with scope := scopeAfter .pattern [c] } = _
    rw [hstays, ← hscope]
    rfl
  rw [step_copy hs hahead (by rcases hc with rfl | rfl <;> decide) hfound, hcopy]

theorem steps_of_running {y : Run} (h : x.step s = .running y) (limit : Nat) :
    x.steps s (limit + 1) = y.steps s limit := by
  rw [steps, h]

/-- The run after anchors: each has been written on its own. -/
def pastAnchors (x : Run) (u : Text) : Run :=
  { x with place := x.place.advance u.length, output := (u.map fun c => [c]).reverse ++ x.output }

/-- Anchors in a row are copied one by one. -/
theorem steps_anchors (hs : s.KnowsProperties) (limit : Nat) : ∀ (u rest : Text) (x : Run),
    (∀ c ∈ u, c = '^' ∨ c = '$') → x.rounds = 0 → x.scope = .pattern → x.place.ahead = u ++ rest →
    x.steps s (limit + u.length) = (x.pastAnchors u).steps s limit
  | [], _, _, _, _, _, _ => rfl
  | c :: u, rest, x, hu, hrounds, hscope, hahead => by
      have hstep := step_anchor hs hscope hahead (hu c List.mem_cons_self)
      have hrest : (x.write [c] (x.place.advance 1)).place.ahead = u ++ rest := by
        show (x.place.advance 1).ahead = _
        rw [Place.ahead_advance, hahead]
        rfl
      have ih := steps_anchors hs limit u rest (x.write [c] (x.place.advance 1))
        (fun d hd => hu d (List.mem_cons_of_mem _ hd)) rfl hscope hrest
      have hpast : (x.write [c] (x.place.advance 1)).pastAnchors u = x.pastAnchors (c :: u) := by
        unfold pastAnchors write
        simp only [Place.advance_advance, List.length_cons, Nat.add_comm 1, List.map_cons,
          List.reverse_cons, List.append_assoc, List.singleton_append, hrounds]
      rw [← hpast, ← ih]
      exact steps_of_running hstep (limit + u.length)

/-- A step at a property escape writes what stands for it. -/
theorem step_property (hs : s.KnowsProperties) (hsound : x.memory.properties.Sound) {letter : Char}
    {caret name rest : Text} (hletter : letter = 'p' ∨ letter = 'P')
    (hcaret : caret = [] ∧ name.head? ≠ some '^' ∨ caret = ['^']) (hname : '\x7d' ∉ name)
    (hahead : x.place.ahead = '\\' :: letter :: '\x7b' :: (caret ++ (name ++ '\x7d' :: rest))) :
    ∃ memory, x.step s =
      match propertyText (propertyCaptures x.place caret name) x.scope s.flags
        x.memory.properties with
      | .ok text => .running { x.write text (propertyCaptures x.place caret name).whole.stop with
          memory }
      | .error e => .failed e memory := by
  obtain ⟨t, ht, htokens⟩ := hs
  have hend : x.place.atEnd = false := by simp [Place.atEnd, hahead]
  have hmatch : t.matchAt? x.place x.scope s.flags = some (propertyCaptures x.place caret name) := by
    have happlies : t.applies x.place x.scope s.flags = true := by
      simp [Token.applies, ht.lead, ht.scope, ht.gate, TokenScope.admits, hahead]
    unfold Token.matchAt?
    rw [if_pos happlies, ht.finds _ letter caret name rest hletter hcaret hname hahead]
  have hfirst : firstToken? s.tokens x.place x.scope s.flags =
      some (t, propertyCaptures x.place caret name) := by
    rw [htokens]
    unfold firstToken?
    rw [List.findSome?_cons, hmatch]
    rfl
  -- the span of the match is not empty, so the run goes on behind it
  have hspan : (propertyCaptures x.place caret name).whole.isEmpty = false := by
    have hindex := Extent.index_advance_min (3 + caret.length + name.length + 1) x.place
    have hlength : 0 < x.place.ahead.length := by
      rw [hahead]
      exact Nat.succ_pos _
    simp only [Span.isEmpty, propertyCaptures, hindex]
    rw [beq_eq_false_iff_ne]
    omega
  let inv : Invocation := ⟨propertyCaptures x.place caret name, x.scope, s.flags,
    (x.memory.tally.count t.serial).1, ⟨x.features, x.memory.properties⟩⟩
  have hwritten := (expandProperty_of_sound inv hsound).1
  have hhandler : t.handler inv x.ledger =
      (expandProperty inv).map fun w => (w.1, x.ledger) := by
    rw [ht.handler]
    unfold propertyHandler
    cases expandProperty inv <;> rfl
  unfold step
  simp only [hend, and_false, if_false, Bool.false_eq_true, hfirst]
  rw [show t.handler ⟨propertyCaptures x.place caret name, x.scope, s.flags,
    (x.memory.tally.count t.serial).1, ⟨x.features, x.memory.properties⟩⟩ x.ledger = _ from hhandler]
  rw [show propertyText (propertyCaptures x.place caret name) x.scope s.flags x.memory.properties = _
    from hwritten.symm]
  refine ⟨⟨(x.memory.tally.count t.serial).2, t.note inv⟩, ?_⟩
  cases expandProperty inv with
  | error e => rfl
  | ok w =>
    simp only [Except.map, accept, ht.reparse, ht.switch, hspan, Bool.false_eq_true, if_false]
    rfl

end Run

/-! ## 3. Expansions -/

/-- A property escape with braces. -/
def escapeText (letter : Char) (caret name : Text) : Text :=
  '\\' :: letter :: '\x7b' :: (caret ++ (name ++ ['\x7d']))

/-- What stands for a property escape with braces. -/
def escapeWritten (letter : Char) (caret name flags : Text) (t : PropertyTable) :
    Except Error Text :=
  if letter = 'P' ∧ caret ≠ [] then
    .error (.property (.doubleNegation (escapeText letter caret name)))
  else PropertyEscape.written ⟨escapeText letter caret name, name, letter = 'P' ∨ caret ≠ []⟩ flags t

section Expansion

variable {u v : Text} {letter : Char} {caret name : Text}

theorem propertyText_escape {p : Place} {rest : Text}
    (hp : p.ahead = '\\' :: letter :: '\x7b' :: (caret ++ (name ++ '\x7d' :: rest)))
    (flags : Text) (t : PropertyTable) :
    propertyText (propertyCaptures p caret name) .pattern flags t =
      escapeWritten letter caret name flags t := by
  rw [propertyText_pattern, ofCaptures_property hp]
  unfold escapeWritten escapeText
  by_cases hdouble : letter = 'P' ∧ caret ≠ []
  · simp only [if_pos hdouble]
    rfl
  · simp only [if_neg hdouble]
    rfl

/-- **A run over a property escape between anchors** writes the anchors and what stands for the
escape. It takes a step for each anchor, one for the escape, and one at the end. -/
theorem Run.steps_property {s : RunSetting} {x : Run} (hs : s.KnowsProperties) (limit : Nat)
    (hsound : x.memory.properties.Sound) (hrounds : x.rounds = 0) (hscope : x.scope = .pattern)
    (hu : ∀ c ∈ u, c = '^' ∨ c = '$') (hv : ∀ c ∈ v, c = '^' ∨ c = '$')
    (hletter : letter = 'p' ∨ letter = 'P')
    (hcaret : caret = [] ∧ name.head? ≠ some '^' ∨ caret = ['^']) (hname : '\x7d' ∉ name)
    (hahead : x.place.ahead = u ++ (escapeText letter caret name ++ v)) :
    match escapeWritten letter caret name s.flags x.memory.properties with
    | .ok text => ∃ y, x.steps s ((limit + 1) + v.length + 1 + u.length) = .finished y ∧
        y.output = (v.map fun c => [c]).reverse ++ text :: ((u.map fun c => [c]).reverse ++ x.output) ∧
        y.ledger = x.ledger
    | .error e => ∃ memory,
        x.steps s ((limit + 1) + v.length + 1 + u.length) = .failed e memory := by
  have hescape : (x.pastAnchors u).place.ahead =
      '\\' :: letter :: '\x7b' :: (caret ++ (name ++ '\x7d' :: v)) := by
    show (x.place.advance u.length).ahead = _
    rw [Place.ahead_advance, hahead, List.drop_left]
    simp [escapeText]
  obtain ⟨memory, hstep⟩ := Run.step_property hs (x := x.pastAnchors u) hsound hletter hcaret hname
    hescape
  rw [show (x.pastAnchors u).scope = .pattern from hscope, propertyText_escape hescape] at hstep
  rw [Run.steps_anchors hs _ u _ x hu hrounds hscope hahead]
  change (x.pastAnchors u).step s =
    match escapeWritten letter caret name s.flags x.memory.properties with
    | .ok text => _
    | .error e => _ at hstep
  cases hwritten : escapeWritten letter caret name s.flags x.memory.properties with
  | error e =>
    rw [hwritten] at hstep
    exact ⟨memory, by rw [Run.steps, hstep]⟩
  | ok text =>
    rw [hwritten] at hstep
    -- the run behind the escape
    let y : Run := { (x.pastAnchors u).write text
      (propertyCaptures (x.pastAnchors u).place caret name).whole.stop with memory }
    have hrest : y.place.ahead = v := stop_propertyCaptures hescape
    have hend : (y.pastAnchors v).place.atEnd = true := by
      have hnone : (y.place.advance v.length).ahead = [] := by
        rw [Place.ahead_advance, hrest, List.drop_length]
      exact List.isEmpty_iff.2 hnone
    have hfinish : (y.pastAnchors v).step s = .finished (y.pastAnchors v) := by
      unfold Run.step
      exact if_pos ⟨rfl, hend⟩
    refine ⟨y.pastAnchors v, ?_, rfl, rfl⟩
    rw [Run.steps_of_running hstep,
      Run.steps_anchors hs (limit + 1) v [] y hv rfl hscope (by rw [hrest, List.append_nil]),
      Run.steps, hfinish]

/-- **The expansion of a property escape between anchors.** -/
theorem expand_property {t : Token} (ht : t.IsProperty) (features : Features) (flags : Text)
    {memory : Memory} (hsound : memory.properties.Sound)
    (hu : ∀ c ∈ u, c = '^' ∨ c = '$') (hv : ∀ c ∈ v, c = '^' ∨ c = '$')
    (hletter : letter = 'p' ∨ letter = 'P')
    (hcaret : caret = [] ∧ name.head? ≠ some '^' ∨ caret = ['^']) (hname : '\x7d' ∉ name) :
    (expand (t :: Dialect.initial.tokens) features
        ⟨u ++ (escapeText letter caret name ++ v), flags⟩ memory).1 =
      (escapeWritten letter caret name flags memory.properties).map fun text =>
        ⟨mergeEmptyGroups (u ++ (text ++ v)), Reader.nativeFlags flags, none⟩ := by
  let pattern : Text := u ++ (escapeText letter caret name ++ v)
  have hsteps := Run.steps_property (s := ⟨t :: Dialect.initial.tokens, flags⟩)
    (x := .initial pattern features memory) ⟨t, ht, rfl⟩ 0 hsound rfl rfl hu hv hletter hcaret hname rfl
  change match escapeWritten letter caret name flags memory.properties with
    | .ok text => _
    | .error e => _ at hsteps
  unfold expand
  cases hwritten : escapeWritten letter caret name flags memory.properties with
  | error e =>
    rw [hwritten] at hsteps
    obtain ⟨m, hm⟩ := hsteps
    rw [Run.finish?_of_failed hm]
    rfl
  | ok text =>
    rw [hwritten] at hsteps
    obtain ⟨y, hy, houtput, hledger⟩ := hsteps
    have hflat : (y.output.reverse).flatten = u ++ (text ++ v) := by
      rw [houtput]
      simp [Run.initial, ← List.flatMap_def]
    have hnames : (Run.initial pattern features memory).ledger.groupNames? = none := by
      simp [Run.initial, Ledger.groupNames?, Ledger.hasNamed, Ledger.empty]
    rw [Run.finish?_of_finished hy]
    simp only [Run.expansion, hflat, hledger, hnames]
    rfl

end Expansion

/-! ## 4. Dialects with properties -/

namespace Dialect

/-- A dialect with the token of property escapes before the built-in ones, and with properties. -/
structure Furnished (d : Dialect) (ps : List UnicodeProperty) : Prop where
  checked : ∀ p ∈ ps, p.check = .ok ()
  tokens : ∃ t : Token, t.IsProperty ∧ d.tokens = t :: initial.tokens
  flags : d.flags = initial.flags.insert 'A'
  features : d.features = {}
  knows : d.knowsProperties = true
  properties : d.properties.cleared = ps.foldl PropertyTable.insert .empty

variable {d d' : Dialect} {ps qs : List UnicodeProperty}

theorem properties_addTokens : ∀ (specs : List TokenSpec) (d : Dialect),
    (d.addTokens specs).properties = d.properties ∧
      (d.addTokens specs).knowsProperties = d.knowsProperties
  | [], _ => ⟨rfl, rfl⟩
  | s :: specs, d => by
      cases hs : d.addToken s with
      | error e =>
        have hskip : d.addTokens (s :: specs) = d.addTokens specs := by
          unfold addTokens
          rw [List.foldl_cons, hs]
        rw [hskip]
        exact properties_addTokens specs d
      | ok d' =>
        have hstep : d.addTokens (s :: specs) = d'.addTokens specs := by
          unfold addTokens
          rw [List.foldl_cons, hs]
        obtain ⟨_, -, hs⟩ := bind_eq_ok.1 hs
        obtain ⟨_, -, hs⟩ := bind_eq_ok.1 hs
        cases hs
        rw [hstep]
        exact properties_addTokens specs _

theorem Furnished.cleared (h : d.Furnished ps) : d.cleared.Furnished ps :=
  ⟨h.checked, h.tokens, h.flags, h.features, h.knows, h.properties⟩

theorem Furnished.of_cleared (h : d.cleared.Furnished ps) : d.Furnished ps :=
  ⟨h.checked, h.tokens, h.flags, h.features, h.knows, h.properties⟩

/-- A fresh dialect gets the token of property escapes. -/
theorem exists_enableProperties (h : d.cleared = initial.cleared) :
    ∃ d', d.enableProperties = .ok (true, d') ∧ d'.Furnished [] := by
  obtain ⟨t, ht, hproperty⟩ := exists_propertyToken d.tokens.length
  have hcleared := properties_addTokens Builtin.specs bare
  have hknows : d.knowsProperties = false :=
    (congrArg Dialect.knowsProperties h).trans hcleared.2
  have hproperties : d.properties.cleared = .empty :=
    (congrArg Dialect.properties h).trans (congrArg PropertyTable.cleared hcleared.1)
  have hflags : propertySpec.flags.forM (m := Except Error)
      (fun c => do let _ ← KnownFlags.singleFlag [c]) = .ok () := rfl
  let e : Dialect := { d with
    flags := propertySpec.flags.foldl KnownFlags.insert d.flags, tokens := t :: d.tokens }
  have hadd : d.addToken propertySpec = .ok e :=
    bind_eq_ok.2 ⟨(), hflags, bind_eq_ok.2 ⟨t, ht, rfl⟩⟩
  have htokens : d.tokens = initial.tokens := (congrArg Dialect.tokens h : _)
  have hknown : d.flags = initial.flags := (congrArg Dialect.flags h : _)
  have hfeatures : d.features = {} := (congrArg Dialect.features h).trans initial_features
  refine ⟨{ e with knowsProperties := true }, ?_, ⟨nofun, ⟨t, hproperty, ?_⟩, ?_, hfeatures, rfl,
    hproperties⟩⟩
  · unfold enableProperties
    rw [hknows, hadd]
    rfl
  · show t :: d.tokens = _
    rw [htokens]
  · show d.flags.insert 'A' = _
    rw [hknown]

theorem Furnished.enableProperties (h : d.Furnished ps) :
    d.enableProperties = .ok (false, d) := by
  unfold Dialect.enableProperties
  rw [h.knows]
  rfl

/-- Properties are added to those that are there. -/
theorem Furnished.addProperties {b : Bool} {e : Dialect} (henable : d.enableProperties = .ok (b, e))
    (h : e.Furnished ps) (hd : d.addProperties qs = .ok d') : d'.Furnished (ps ++ qs) := by
  obtain ⟨_, hcheck, hd⟩ := bind_eq_ok.1 hd
  rw [henable] at hd
  cases hd
  have hall : ∀ (l : List UnicodeProperty), l.forM UnicodeProperty.check = .ok () →
      ∀ p ∈ l, p.check = .ok () := by
    intro l hl p hp
    induction l with
    | nil => cases hp
    | cons q l ih =>
      obtain ⟨_, hq, hl⟩ := bind_eq_ok.1 hl
      rcases List.mem_cons.1 hp with rfl | hp
      · exact hq
      · exact ih hl hp
  refine ⟨fun p hp => ?_, h.tokens, h.flags, h.features, h.knows, ?_⟩
  · rcases List.mem_append.1 hp with hp | hp
    · exact h.checked p hp
    · exact hall qs hcheck p hp
  · show (qs.foldl PropertyTable.insert e.properties).cleared = _
    rw [← PropertyTable.foldl_insert_cleared, h.properties, List.foldl_append]

end Dialect

/-! ## 5. Contexts with properties -/

namespace Context

/-- A context to which properties have been added, and nothing else. -/
structure Furnished (c : Context) (ps : List UnicodeProperty) : Prop where
  faithful : c.Faithful
  dialect : c.dialect.Furnished ps

variable {c : Context} {ps qs : List UnicodeProperty}

/-- What expands patterns leaves the properties as they are. -/
theorem Furnished.after {α : Type} {task : ContextM α} (h : c.Furnished ps) (htask : Keeps id task) :
    (answer task c).2.Furnished ps := by
  obtain ⟨hfaithful, hdialect⟩ := htask c h.faithful
  refine ⟨hfaithful, .of_cleared ?_⟩
  have hcleared := h.dialect.cleared
  rwa [← show _ = c.dialect.cleared from hdialect] at hcleared

/-- What properties an accepted registration leads to. -/
theorem furnished_of_effect {r : Registration} (hr : r.Pure) (hc : c.Faithful)
    (hok : (answer r.task c).1 = .ok ())
    (h : ∀ d, r.effect c.dialect.cleared = .ok d → d.Furnished ps) :
    (answer r.task c).2.Furnished ps := by
  obtain ⟨hfaithful, hdialect, hsame⟩ := Registration.faithful_task hr hc
  refine ⟨hfaithful, .of_cleared ?_⟩
  rw [hdialect]
  rw [hok] at hsame
  unfold Registration.after
  cases heffect : r.effect c.dialect.cleared with
  | error e =>
    rw [heffect] at hsame
    cases hsame
  | ok d => exact h d heffect

/-- A fresh context in which property escapes are made known. -/
theorem Fresh.enableProperties (h : c.Fresh)
    (hok : (answer Context.enableProperties c).1 = .ok ()) :
    (answer Context.enableProperties c).2.Furnished [] := by
  refine furnished_of_effect (r := .propertyEscapes) trivial h.faithful hok fun d hd => ?_
  obtain ⟨d', hd', hfurnished⟩ := Dialect.exists_enableProperties
    (d := c.dialect.cleared) h.dialect
  change c.dialect.cleared.enableProperties.map Prod.snd = .ok d at hd
  rw [hd'] at hd
  cases hd
  exact hfurnished

/-- A fresh context to which properties are added. -/
theorem Fresh.addProperties (h : c.Fresh)
    (hok : (answer (Context.addProperties ps) c).1 = .ok ()) :
    (answer (Context.addProperties ps) c).2.Furnished ps := by
  refine furnished_of_effect (r := .properties ps) trivial h.faithful hok fun d hd => ?_
  obtain ⟨d', hd', hfurnished⟩ := Dialect.exists_enableProperties
    (d := c.dialect.cleared) h.dialect
  exact hfurnished.addProperties hd' hd

/-- Properties are added to a fresh context if all of them are accepted. -/
theorem furnished_initial (hps : ∀ p ∈ ps, p.check = .ok ()) :
    (answer (addProperties ps) initial).2.Furnished ps := by
  refine fresh_initial.addProperties ?_
  obtain ⟨d, hd, -⟩ := Dialect.exists_enableProperties (d := Dialect.initial) rfl
  have hall : ∀ l : List UnicodeProperty, (∀ p ∈ l, p.check = .ok ()) →
      l.forM UnicodeProperty.check = .ok () := by
    intro l hl
    induction l with
    | nil => rfl
    | cons p l ih =>
      exact bind_eq_ok.2 ⟨(), hl p List.mem_cons_self, ih fun q hq => hl q (List.mem_cons_of_mem p hq)⟩
  have heffect : Dialect.initial.addProperties ps =
      .ok { d with properties := ps.foldl PropertyTable.insert d.properties } :=
    bind_eq_ok.2 ⟨(), hall ps hps, bind_eq_ok.2 ⟨_, hd, rfl⟩⟩
  have htask := Registration.answer_task (.properties ps) initial
  rw [show (Registration.properties ps).effect initial.dialect = _ from heffect] at htask
  exact htask.1

/-- Properties are added to those that are there. -/
theorem Furnished.addProperties (h : c.Furnished ps)
    (hok : (answer (Context.addProperties qs) c).1 = .ok ()) :
    (answer (Context.addProperties qs) c).2.Furnished (ps ++ qs) :=
  furnished_of_effect (r := .properties qs) trivial h.faithful hok fun _ hd =>
    h.dialect.cleared.addProperties h.dialect.cleared.enableProperties hd

/-- The regex of a pattern whose expansion is known, where the flags are known and not repeated. -/
theorem Furnished.answer_regex_of_expand (h : c.Furnished ps) {flags pattern : Text}
    (written : Except Error Text)
    (hflags : ∀ f ∈ flags, f ∈ ['A', 'g', 'i', 'm', 'n', 's', 'u', 'x', 'y']) (hnodup : flags.Nodup)
    (hhead : pattern.head? ≠ some '(')
    (hexpand : ∀ (t : Token) (features : Features) (memory : Memory), t.IsProperty →
      memory.properties = ps.foldl PropertyTable.insert .empty →
      (ExtensibleRegex.expand (t :: Dialect.initial.tokens) features ⟨pattern, flags⟩ memory).1 =
        written.map fun text => ⟨mergeEmptyGroups text, Reader.nativeFlags flags, none⟩) :
    (answer (regex pattern flags) c).1 = (do
      let text ← written
      let engine ← Engine.ofSource (mergeEmptyGroups text) (Reader.nativeFlags flags).mode
      return { engine
               global := (Reader.nativeFlags flags).global
               sticky := (Reader.nativeFlags flags).sticky
               names := none
               source := some pattern
               flags := some (orderFlags flags)
               namespaced := false }) := by
  obtain ⟨t, ht, htokens⟩ := h.dialect.tokens
  have hfeatures := h.dialect.features
  have hfull : c.dialect.fullFlags flags = flags := by
    unfold Dialect.fullFlags
    rw [hfeatures]
    rfl
  have hprepare : c.dialect.flags.prepare pattern flags = .ok ⟨pattern, flags⟩ := by
    refine KnownFlags.prepare_of_known (modeModifier?_of_head hhead) (fun f hf => ?_) hnodup
    rw [h.dialect.flags, Dialect.initial_flags]
    exact List.contains_iff_mem.2 (hflags f hf)
  have hmeaning : c.dialect.meaning pattern flags =
      written.map fun text => ⟨mergeEmptyGroups text, Reader.nativeFlags flags, none⟩ := by
    unfold Dialect.meaning
    rw [Dialect.expand_of_prepare (d := c.dialect.cleared) hprepare]
    show (ExtensibleRegex.expand c.dialect.tokens _ _ ⟨#[], c.dialect.properties.cleared⟩).1 = _
    rw [htokens]
    exact hexpand t _ _ ht h.dialect.properties
  rw [h.faithful.answer_regex, hfull, hmeaning, hfeatures]
  cases written <;> rfl

/-- The properties that have been added are the only ones there are, with nothing derived. -/
theorem sound_foldl_insert (ps : List UnicodeProperty) :
    (ps.foldl PropertyTable.insert .empty).Sound :=
  PropertyTable.sound_foldl_insert ps .empty (PropertyTable.sound_cleared .empty)

/-- **The regex of a property escape between anchors**, where the flags are known and not
repeated. -/
theorem Furnished.answer_regex (h : c.Furnished ps) {flags u v caret name : Text} {letter : Char}
    (hflags : ∀ f ∈ flags, f ∈ ['A', 'g', 'i', 'm', 'n', 's', 'u', 'x', 'y']) (hnodup : flags.Nodup)
    (hu : ∀ c ∈ u, c = '^' ∨ c = '$') (hv : ∀ c ∈ v, c = '^' ∨ c = '$')
    (hletter : letter = 'p' ∨ letter = 'P')
    (hcaret : caret = [] ∧ name.head? ≠ some '^' ∨ caret = ['^']) (hname : '\x7d' ∉ name) :
    (answer (regex (u ++ (escapeText letter caret name ++ v)) flags) c).1 = (do
      let text ← escapeWritten letter caret name flags (ps.foldl PropertyTable.insert .empty)
      let engine ← Engine.ofSource (mergeEmptyGroups (u ++ (text ++ v)))
        (Reader.nativeFlags flags).mode
      return { engine
               global := (Reader.nativeFlags flags).global
               sticky := (Reader.nativeFlags flags).sticky
               names := none
               source := some (u ++ (escapeText letter caret name ++ v))
               flags := some (orderFlags flags)
               namespaced := false }) := by
  have hhead : (u ++ (escapeText letter caret name ++ v)).head? ≠ some '(' := by
    cases u with
    | nil => exact nofun
    | cons d u => rcases hu d List.mem_cons_self with rfl | rfl <;> exact nofun
  have hregex := h.answer_regex_of_expand
    ((escapeWritten letter caret name flags (ps.foldl PropertyTable.insert .empty)).map
      fun text => u ++ (text ++ v)) hflags hnodup hhead fun t features memory ht hmemory => by
    rw [expand_property ht features flags (hmemory ▸ sound_foldl_insert ps) hu hv hletter hcaret hname,
      hmemory]
    cases escapeWritten letter caret name flags (ps.foldl PropertyTable.insert .empty) <;> rfl
  rw [hregex]
  cases escapeWritten letter caret name flags (ps.foldl PropertyTable.insert .empty) <;> rfl

end Context

end ExtensibleRegex
