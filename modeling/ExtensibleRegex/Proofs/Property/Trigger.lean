import ExtensibleRegex.Proofs.Property.Derived
import ExtensibleRegex.Proofs.Token.Initial
import Mathlib.Tactic

/-!
# The trigger of property escapes

A property escape with braces is found by the trigger of the token behind `\p` and `\P`: its four
groups hold the letter, the caret, the name, and nothing, as there is no name of one letter
(`searchAt?_property`). What the escape says is read off these groups (`ofCaptures_property`).
-/

namespace ExtensibleRegex

open Native Node

namespace Native.Trigger

/-! ## 1. The tree of the trigger -/

/-- The letter of a property escape. -/
def propertyLetter : Atom := inside (.union (.ranges [(112, 112)]) (.ranges [(80, 80)]))

/-- What stands in the braces. -/
def propertyNameAtom : Atom := outside (.ranges [(125, 125)])

theorem admits_propertyNameAtom (c : Char) : propertyNameAtom.admits c = (c != '\x7d') := by
  have hsingle : (CodeSet.ranges [(125, 125)]).contains c.toNat = (c == '\x7d') :=
    contains_single '\x7d' c
  rw [propertyNameAtom, admits_outside, hsingle]
  rfl

/-- The name and the closing brace. -/
def propertyNameNode : Node :=
  .seq (.group 3 (.seq (many propertyNameAtom 0 3) .empty)) (.seq (char '\x7d') .empty)

/-- The caret that may stand before the name, and what follows. -/
def propertyBracesNode : Node :=
  .seq (.group 2 (.seq (.loop (.atom (.literal '^'.toNat false)) 0 (some 1) true ⟨2, 0⟩) .empty))
    propertyNameNode

def propertyNode : Node :=
  .seq (char '\\') (.seq (.group 1 (.seq (.atom propertyLetter) .empty))
    (.seq (.alt (.seq (char '\x7b') propertyBracesNode)
      (.seq (.group 4 (.seq (.atom (inside letterSet)) .empty)) .empty)) .empty))

theorem program_property :
    Program.ofSource? propertySpec.trigger ⟨false, false, true⟩ = some ⟨propertyNode, 4⟩ := by
  decide +kernel

/-! ## 2. Its runs -/

variable {t : Track} {caret name rest : Text}

/-- A name up to its closing brace. -/
theorem run_propertyName (hname : '\x7d' ∉ name) (h : t.place.ahead = name ++ '\x7d' :: rest) :
    propertyNameNode.run .forward some t =
      some (((t.skip name.length).record 3 ⟨t.place, t.place.advance name.length⟩).skip 1) := by
  have hreach : propertyNameAtom.reach t = name.length := by
    rw [reach_eq admits_propertyNameAtom, h, List.takeWhile_append_of_pos, List.takeWhile_cons_of_neg,
      List.append_nil]
    · decide
    · intro c hc
      exact bne_iff_ne.2 fun heq => hname (heq ▸ hc)
  unfold propertyNameNode
  rw [run_capture_until (admits_propertyNameAtom '\x7d'), hreach, h, List.drop_left,
    if_pos ⟨Nat.zero_le _, rfl⟩]
  rfl

/-- A caret, if there is one, and a name. -/
theorem run_propertyBraces (hcaret : caret = [] ∧ name.head? ≠ some '^' ∨ caret = ['^'])
    (hname : '\x7d' ∉ name) (h : t.place.ahead = caret ++ (name ++ '\x7d' :: rest)) :
    propertyBracesNode.run .forward some t =
      some ((((t.skip caret.length).record 2 ⟨t.place, t.place.advance caret.length⟩).skip
        name.length).record 3
          ⟨t.place.advance caret.length, (t.place.advance caret.length).advance name.length⟩ |>.skip 1) := by
  unfold propertyBracesNode
  rw [run_seq_forward, run_group]
  rcases hcaret with ⟨rfl, hhead⟩ | rfl
  · have hstop : ¬0 < (Atom.literal '^'.toNat false).reach t := by
      rw [reach_eq (admits_literal '^'), h]
      cases name with
      | nil => exact Nat.lt_irrefl 0
      | cons c cs =>
        have hc : (c == '^') = false := beq_eq_false_iff_ne.2 fun hc => hhead (congrArg some hc)
        rw [List.nil_append, List.cons_append, List.takeWhile_cons, hc]
        exact Nat.lt_irrefl 0
    rw [run_optional, if_neg hstop]
    exact run_propertyName hname h
  · have hreach : 0 < (Atom.literal '^'.toNat false).reach t := by
      rw [reach_eq (admits_literal '^'), h]
      simp
    have hahead : ((t.skip 1).record 2 ⟨t.place, t.place.advance 1⟩).place.ahead =
        name ++ '\x7d' :: rest := by
      have hskip : (t.skip 1).place.ahead = t.place.ahead.drop 1 := Track.ahead_skip 1 t
      rw [h] at hskip
      exact hskip
    exact run_optional_of_some hreach (run_propertyName hname hahead)

end Native.Trigger

/-! ## 3. Matches -/

open Native.Trigger

/-- The match of a property escape with braces: the letter, the caret and the name. -/
def propertyCaptures (p : Place) (caret name : Text) : Captures where
  whole := ⟨p, p.advance (3 + caret.length + name.length + 1)⟩
  groups := [some ⟨p.advance 1, p.advance 2⟩, some ⟨p.advance 3, p.advance (3 + caret.length)⟩,
    some ⟨p.advance (3 + caret.length), p.advance (3 + caret.length + name.length)⟩, none]
  names := none
  namespaced := false

variable {p : Place} {letter : Char} {caret name rest : Text}

/-- **The trigger finds a property escape with braces.** -/
theorem matchAt?_property (hletter : letter = 'p' ∨ letter = 'P')
    (hcaret : caret = [] ∧ name.head? ≠ some '^' ∨ caret = ['^']) (hname : '\x7d' ∉ name)
    (hp : p.ahead = '\\' :: letter :: '\x7b' :: (caret ++ (name ++ '\x7d' :: rest))) :
    Program.matchAt? ⟨propertyNode, 4⟩ p =
      some ⟨(propertyCaptures p caret name).whole, (propertyCaptures p caret name).groups⟩ := by
  have hskip (n : Nat) : ((⟨p, []⟩ : Track).skip n).place.ahead = p.ahead.drop n :=
    Track.ahead_skip n _
  have hadmits : propertyLetter.admits letter = true := by
    rcases hletter with rfl | rfl <;> decide
  -- the letter is the first group
  let t : Track := ((⟨p, []⟩ : Track).skip 2).record 1 ⟨p.advance 1, p.advance 2⟩
  have hbraces := @run_propertyBraces (t.skip 1) caret name rest hcaret hname (by
    show (((⟨p, []⟩ : Track).skip 2).skip 1).place.ahead = _
    rw [Track.skip_skip, hskip, hp]
    rfl)
  have hrun : propertyNode.run .forward some ⟨p, []⟩ = propertyBracesNode.run .forward some (t.skip 1) := by
    unfold propertyNode
    rw [run_char_cons hp, run_seq_forward, run_group, run_seq_empty, run_atom, hskip, hp]
    simp only [List.drop_succ_cons, List.drop_zero, hadmits, if_true]
    rw [Track.skip_skip]
    show (Node.seq _ Node.empty).run .forward some t = _
    have hahead : t.place.ahead = '\x7b' :: (caret ++ (name ++ '\x7d' :: rest)) := by
      show ((⟨p, []⟩ : Track).skip 2).place.ahead = _
      rw [hskip, hp]
      rfl
    rw [run_seq_empty, run_alt, run_char_cons hahead, hbraces]
  unfold Program.matchAt?
  rw [hrun, hbraces]
  simp only [propertyCaptures, Track.skip, Track.record, Place.advance_advance, t]
  rfl

/-- A token that is made from the declaration of property escapes. -/
structure Token.IsProperty (t : Token) : Prop where
  handler : t.handler = propertyHandler
  switch : t.switch = fun inv _ => inv.setting.features
  scope : t.scope = .all
  gate : t.gate = none
  reparse : t.reparse = false
  lead : t.lead = some '\\'
  finds : ∀ (p : Place) (letter : Char) (caret name rest : Text), letter = 'p' ∨ letter = 'P' →
    caret = [] ∧ name.head? ≠ some '^' ∨ caret = ['^'] → '\x7d' ∉ name →
    p.ahead = '\\' :: letter :: '\x7b' :: (caret ++ (name ++ '\x7d' :: rest)) →
    t.trigger.searchAt? p true = some (propertyCaptures p caret name)

/-- **The token of property escapes** is accepted, and finds them. -/
theorem exists_propertyToken (serial : Nat) :
    ∃ t, Token.ofSpec propertySpec serial = .ok t ∧ t.IsProperty := by
  obtain ⟨e, he, hprogram⟩ := Engine.ofSource_of_program program_property
  have hmode := (Engine.ofSource_eq_ok.1 he).2
  have hregex : Regex.native propertySpec.trigger ['u'] =
      .ok ⟨e, false, false, none, none, none, false⟩ :=
    bind_eq_ok.2 ⟨(), rfl, bind_eq_ok.2 ⟨e, he, rfl⟩⟩
  refine ⟨_, bind_eq_ok.2 ⟨_, hregex, rfl⟩, rfl, rfl, rfl, rfl, rfl, rfl, ?_⟩
  intro p letter caret name rest hletter hcaret hname hp
  have hfree : e.NoNextGroup := Engine.noNextGroup_of_unicode e (by rw [hmode])
  simp only [Regex.searchAt?, if_true, Engine.searchAt?_eq_matchAt? e (.inr hfree), hprogram,
    matchAt?_property hletter hcaret hname hp]
  rfl

/-! ## 4. What the escape says -/

theorem textOf_propertyCaptures
    (hp : p.ahead = '\\' :: letter :: '\x7b' :: (caret ++ (name ++ '\x7d' :: rest))) :
    (propertyCaptures p caret name).text =
        '\\' :: letter :: '\x7b' :: (caret ++ (name ++ ['\x7d'])) ∧
      (propertyCaptures p caret name).textOf 1 = [letter] ∧
      (propertyCaptures p caret name).textOf 2 = caret ∧
      (propertyCaptures p caret name).textOf 3 = name := by
  have hspan (m n : Nat) := Extent.text_span p m n
  have hdrop : p.ahead.drop 3 = caret ++ (name ++ '\x7d' :: rest) := by rw [hp]; rfl
  refine ⟨?_, ?_, ?_, ?_⟩
  · have hwhole : p.ahead = ('\\' :: letter :: '\x7b' :: (caret ++ (name ++ ['\x7d']))) ++ rest := by
      rw [hp]
      simp
    refine (hspan 0 _).trans ?_
    rw [List.drop_zero, hwhole]
    exact List.take_left' (by simp; omega)
  · refine (hspan 1 2).trans ?_
    rw [hp]
    rfl
  · refine (hspan 3 _).trans ?_
    rw [hdrop, Nat.add_sub_cancel_left]
    exact List.take_left
  · refine (hspan _ _).trans ?_
    rw [← List.drop_drop, hdrop, List.drop_left, Nat.add_sub_cancel_left]
    exact List.take_left

/-- Behind the match of a property escape comes what stands behind its brace. -/
theorem stop_propertyCaptures
    (hp : p.ahead = '\\' :: letter :: '\x7b' :: (caret ++ (name ++ '\x7d' :: rest))) :
    (propertyCaptures p caret name).whole.stop.ahead = rest := by
  have hwhole : p.ahead = ('\\' :: letter :: '\x7b' :: (caret ++ (name ++ ['\x7d']))) ++ rest := by
    rw [hp]
    simp
  show (p.advance (3 + caret.length + name.length + 1)).ahead = rest
  rw [Place.ahead_advance, hwhole]
  exact List.drop_left' (by simp; omega)

/-- **What a property escape says**: a capital letter and a caret negate, but not both. -/
theorem ofCaptures_property
    (hp : p.ahead = '\\' :: letter :: '\x7b' :: (caret ++ (name ++ '\x7d' :: rest))) :
    PropertyEscape.ofCaptures (propertyCaptures p caret name) =
      (let token := '\\' :: letter :: '\x7b' :: (caret ++ (name ++ ['\x7d']))
      if letter = 'P' ∧ caret ≠ [] then .error (.property (.doubleNegation token))
      else .ok ⟨token, name, letter = 'P' ∨ caret ≠ []⟩) := by
  obtain ⟨htext, hfirst, hsecond, hthird⟩ := textOf_propertyCaptures hp
  have hfourth : (propertyCaptures p caret name).get? 4 = none := rfl
  unfold PropertyEscape.ofCaptures
  simp only [htext, hfirst, hsecond, hthird, hfourth, List.cons.injEq, and_true]

end ExtensibleRegex
