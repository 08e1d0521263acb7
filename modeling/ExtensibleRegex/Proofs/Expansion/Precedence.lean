import ExtensibleRegex.Dialect.Basic

/-!
# Runs see tokens through the one that goes first

A step asks its tokens one thing: which of them goes first at a place, and with which match. So two
lists of tokens that answer this alike, with tokens that do the same, expand every pattern alike:

* `Token.Replaces` says that a token does for a match what another one does;
* `RunSetting.MirroredBy` says that where a token goes first in one setting, its replacement does in
  the other, with the same match;
* `Run.step_mirrored` says that each step is then the same, and `expand_mirrored` that all of an
  expansion is, with its error, its memory, and whether it comes to an end.
-/

namespace ExtensibleRegex

/-- The token that goes first is one of the list, and matches at the place. -/
theorem mem_of_firstToken? {tokens : List Token} {p : Place} {scope : Scope} {flags : Text}
    {token : Token} {found : Captures}
    (h : firstToken? tokens p scope flags = some (token, found)) :
    token ∈ tokens ∧ token.trigger.searchAt? p true = some found := by
  obtain ⟨t, ht, hm⟩ := List.exists_of_findSome?_eq_some h
  obtain ⟨c, hc, heq⟩ := Option.map_eq_some_iff.1 hm
  cases heq
  unfold Token.matchAt? at hc
  split at hc
  · exact ⟨ht, hc⟩
  · cases hc

/-- A token that does for a match what another one does. When it is tried may differ. -/
structure Token.Replaces (t t' : Token) : Prop where
  handler : t'.handler = t.handler
  switch : t'.switch = t.switch
  note : t'.note = t.note
  reparse : t'.reparse = t.reparse
  serial : t'.serial = t.serial

theorem Token.Replaces.refl (t : Token) : t.Replaces t := ⟨rfl, rfl, rfl, rfl, rfl⟩

/-- Where a token goes first in a setting, its replacement goes first in another one. -/
structure RunSetting.MirroredBy (replace : Token → Token) (s s' : RunSetting) : Prop where
  flags : s'.flags = s.flags
  replaces : ∀ t : Token, t.Replaces (replace t)
  first : ∀ p scope, firstToken? s'.tokens p scope s.flags =
    (firstToken? s.tokens p scope s.flags).map fun x => (replace x.1, x.2)

namespace Run

variable {replace : Token → Token} {s s' : RunSetting}

/-- **Each step is the same** in both settings. -/
theorem step_mirrored (h : s.MirroredBy replace s') (r : Run) : r.step s' = r.step s := by
  unfold step
  rw [h.flags, h.first]
  cases firstToken? s.tokens r.place r.scope s.flags with
  | none => rfl
  | some x =>
    obtain ⟨token, found⟩ := x
    have ht := h.replaces token
    simp only [Option.map_some, ht.handler, ht.switch, ht.note, ht.serial, accept, ht.reparse]

/-- So are any number of steps. -/
theorem steps_mirrored (h : s.MirroredBy replace s') : ∀ (limit : Nat) (r : Run),
    r.steps s' limit = r.steps s limit
  | 0, _ => rfl
  | limit + 1, r => by
      unfold steps
      rw [step_mirrored h]
      cases r.step s with
      | running r' => exact steps_mirrored h limit r'
      | finished r' => rfl
      | failed e memory => rfl

/-- So is what all steps lead to, if they lead to anything. -/
theorem finish?_mirrored (h : s.MirroredBy replace s') (r : Run) : r.finish? s' = r.finish? s := by
  refine Option.ext fun o => ⟨fun ho => ?_, fun ho => ?_⟩
  · obtain ⟨hend, limit, hlimit⟩ := exists_steps_of_finish? ho
    exact finish?_of_steps hend limit r ((steps_mirrored h limit r).symm.trans hlimit)
  · obtain ⟨hend, limit, hlimit⟩ := exists_steps_of_finish? ho
    exact finish?_of_steps hend limit r ((steps_mirrored h limit r).trans hlimit)

end Run

/-- **Lists of tokens of which the same go first expand a pattern alike.** -/
theorem expand_mirrored {replace : Token → Token} {tokens tokens' : List Token} {features : Features}
    {prepared : Prepared}
    (h : RunSetting.MirroredBy replace ⟨tokens, prepared.flags⟩ ⟨tokens', prepared.flags⟩)
    (memory : Memory) :
    expand tokens' features prepared memory = expand tokens features prepared memory := by
  unfold expand
  rw [Run.finish?_mirrored h]

/-- Dialects with the same features and properties that prepare a pattern alike expand it alike, if
of their tokens the same go first. -/
theorem Dialect.expand_mirrored {replace : Token → Token} {d d' : Dialect} {pattern flags : Text}
    (hfeatures : d'.features = d.features) (hproperties : d'.properties = d.properties)
    (hprepare : d'.flags.prepare pattern flags = d.flags.prepare pattern flags)
    (h : ∀ prepared, d.flags.prepare pattern flags = .ok prepared →
      RunSetting.MirroredBy replace ⟨d.tokens, prepared.flags⟩ ⟨d'.tokens, prepared.flags⟩)
    (tally : Tally) :
    d'.expand pattern flags tally = d.expand pattern flags tally := by
  unfold expand
  rw [hprepare, hfeatures, hproperties]
  cases hok : d.flags.prepare pattern flags with
  | error e => rfl
  | ok prepared => exact ExtensibleRegex.expand_mirrored (h prepared hok) _

end ExtensibleRegex
