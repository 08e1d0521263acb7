import ExtensibleRegex.Proofs.Native.Fragments
import ExtensibleRegex.Proofs.Native.Anchored
import ExtensibleRegex.Token.Builtin
import Mathlib.Tactic

/-!
# What the built-in triggers match

The triggers of the built-in tokens are native patterns. For each of them this file gives

* a function on the text ahead of a place (`openPlain`, `numbered`, …) that says where the trigger
  matches there, and where its group lies;
* the tree that the pattern is read as (`openPlainNode`, …), with the theorem that its runs lead
  where the function says (`runs_openPlain`, …).

`Builtin.specs_find` puts the list of the tokens beside that of the functions.
-/

namespace ExtensibleRegex

namespace Native

open Node

/-! ## 1. The triggers -/

namespace Trigger

/-- A parenthesis without a question mark after it. -/
def openPlain : Text → Option Extent
  | '(' :: cs => if cs.head? = some '?' then none else some ⟨1, none⟩
  | _ => none

def openPlainNode : Node :=
  .seq (char '(') (.seq (.look false true (.seq (char '?') .empty)) .empty)

theorem runs_openPlain : Runs openPlainNode openPlain := by
  intro p
  unfold openPlainNode
  cases h : p.ahead with
  | nil => exact run_char_ne (by simp [h]) _
  | cons c cs =>
    by_cases hc : c = '('
    · subst hc
      have hahead : ((⟨p, []⟩ : Track).skip 1).place.ahead = cs := by
        rw [Track.ahead_skip, h]
        rfl
      rw [run_char_cons h, run_seq_empty, run_not]
      by_cases hq : cs.head? = some '?'
      · obtain ⟨ds, hds⟩ := List.head?_eq_some_iff.1 hq
        rw [run_char_cons (hahead.trans hds)]
        simp [openPlain, hq, Node.run]
      · rw [run_char_ne (by rw [hahead]; exact hq)]
        simp only [openPlain, hq, if_false]
        rfl
    · rw [run_char_ne (by simp [h, hc])]
      simp [openPlain, hc]

/-- The opening of a named group. -/
def openNamed : Text → Option Extent
  | '(' :: '?' :: cs =>
    let p := if cs.head? = some 'P' then 1 else 0
    match cs.drop p with
    | '<' :: rest => Extent.enclosed (3 + p) isNameChar '>' rest
    | _ => none
  | _ => none

def nameAtom : Atom := inside nameSet

theorem admits_nameAtom (c : Char) : nameAtom.admits c = isNameChar c := by
  rw [nameAtom, admits_inside, contains_nameSet]

def openNamedNode : Node :=
  chars ['(', '?'] (.seq (.loop (.atom (.literal 'P'.toNat false)) 0 (some 1) true ⟨0, 0⟩)
    (.seq (char '<') (.seq (.group 1 (.seq (many nameAtom 1 1) .empty)) (.seq (char '>') .empty))))

/-- The angle bracket and the name after the beginning of a named group. -/
theorem run_openNamed_rest (p : Place) (n : Nat) :
    (Node.seq (char '<') (.seq (.group 1 (.seq (many nameAtom 1 1) .empty))
        (.seq (char '>') .empty))).run .forward some ((⟨p, []⟩ : Track).skip n) =
      (match p.ahead.drop n with
        | '<' :: rest => Extent.enclosed (n + 1) isNameChar '>' rest
        | _ => none).map (fun e : Extent => e.track p) := by
  have hahead : ((⟨p, []⟩ : Track).skip n).place.ahead = p.ahead.drop n := Track.ahead_skip _ _
  rw [run_char, hahead]
  cases hd : p.ahead.drop n with
  | nil => rfl
  | cons d ds =>
    by_cases hlt : d = '<'
    · subst hlt
      have hdrop : p.ahead.drop (n + 1) = ds := by rw [← List.drop_drop, hd]; rfl
      simp only [if_true]
      rw [Track.skip_skip, run_enclosed admits_nameAtom _ (by decide), hdrop]
    · simp [hlt]

theorem runs_openNamed : Runs openNamedNode openNamed := by
  refine runs_chars (fun p cs hcs => ?_) ?_
  · have hspec : openNamed (['(', '?'] ++ cs) =
        (match cs.drop (if cs.head? = some 'P' then 1 else 0) with
          | '<' :: rest =>
            Extent.enclosed (3 + if cs.head? = some 'P' then 1 else 0) isNameChar '>' rest
          | _ => none) := rfl
    have hlength : ['(', '?'].length = 2 := rfl
    rw [hlength, run_optional, run_openNamed_rest, hspec]
    have hahead : ((⟨p, []⟩ : Track).skip 2).place.ahead = cs := by
      rw [Track.ahead_skip, hcs]
      rfl
    have hdrop (n : Nat) : p.ahead.drop (2 + n) = cs.drop n := by
      rw [← List.drop_drop, hcs]
      rfl
    have hdrop2 : p.ahead.drop 2 = cs := hdrop 0
    have hreach : 0 < (Atom.literal 'P'.toNat false).reach ((⟨p, []⟩ : Track).skip 2) ↔
        cs.head? = some 'P' := by
      rw [reach_eq (admits_literal 'P'), hahead]
      cases cs with
      | nil => simp
      | cons d ds => by_cases hd : d = 'P' <;> simp [hd]
    by_cases hP : cs.head? = some 'P'
    · -- without the letter the angle bracket is missing
      obtain ⟨ds, hds⟩ := List.head?_eq_some_iff.1 hP
      rw [if_pos (hreach.2 hP), Track.skip_skip, run_openNamed_rest, hdrop2, hdrop]
      simp only [hP, if_true]
      subst hds
      simp only [List.drop_succ_cons, List.drop_zero]
      cases ds with
      | nil => rfl
      | cons e es =>
        by_cases he : e = '<'
        · subst he
          simp only
          cases Extent.enclosed (2 + 1 + 1) isNameChar '>' es <;> rfl
        · simp [he]
    · rw [if_neg (fun h => hP (hreach.1 h)), hdrop2]
      simp only [hP, if_false, List.drop_zero]
  · intro t ht
    unfold openNamed
    split
    · rename_i cs
      exact absurd rfl (ht cs)
    · rfl

/-- A backslash and digits. -/
def numbered : Text → Option Extent
  | '\\' :: cs =>
    let n := (cs.takeWhile Char.isDigit).length
    if 0 < n then some ⟨n + 1, some (1, n + 1)⟩ else none
  | _ => none

def digitAtom : Atom := inside Shorthand.digit.members

def numberedNode : Node :=
  chars ['\\'] (.seq (.group 1 (.seq (many digitAtom 1 1) .empty)) .empty)

theorem runs_numbered : Runs numberedNode numbered := by
  have hadmits (c : Char) : digitAtom.admits c = c.isDigit := by
    rw [digitAtom, admits_inside, contains_digits]
  refine runs_chars (fun p cs hcs => ?_) ?_
  · have hspec : numbered (['\\'] ++ cs) =
        if 0 < (cs.takeWhile Char.isDigit).length then
          some ⟨(cs.takeWhile Char.isDigit).length + 1,
            some (1, (cs.takeWhile Char.isDigit).length + 1)⟩
        else none := rfl
    have hahead : ((⟨p, []⟩ : Track).skip 1).place.ahead = cs := by
      rw [Track.ahead_skip, hcs]
      rfl
    have hreach : digitAtom.reach ((⟨p, []⟩ : Track).skip 1) = (cs.takeWhile Char.isDigit).length := by
      rw [reach_eq hadmits, hahead]
    show (Node.seq _ Node.empty).run _ _ ((⟨p, []⟩ : Track).skip 1) = _
    rw [run_seq_empty, run_group, run_seq_empty, many, hspec]
    by_cases h : 0 < (cs.takeWhile Char.isDigit).length
    · have hm : 1 ≤ digitAtom.reach ((⟨p, []⟩ : Track).skip 1) := by omega
      refine Eq.trans (run_loop_of_some hm rfl) ?_
      rw [hreach, if_pos h]
      simp only [Option.map_some, Extent.track, Option.toList_some, List.map_cons, List.map_nil,
        Track.skip, Track.record, Place.advance_advance, Nat.add_comm 1]
    · rw [run_loop_of_lt (by omega), if_neg h]
      rfl
  · intro t ht
    unfold numbered
    split
    · rename_i cs
      exact absurd rfl (ht cs)
    · rfl

/-- A reference by name. -/
def namedRef : Text → Option Extent
  | '\\' :: 'k' :: '<' :: cs => Extent.enclosed 3 isNameChar '>' cs
  | _ => none

def namedRefNode : Node :=
  chars ['\\', 'k', '<'] (.seq (.group 1 (.seq (many nameAtom 1 1) .empty))
    (.seq (char '>') .empty))

theorem runs_namedRef : Runs namedRefNode namedRef := by
  refine runs_chars (fun p cs hcs => ?_) ?_
  · have hdrop : p.ahead.drop 3 = cs := by rw [hcs]; rfl
    have h := run_enclosed admits_nameAtom '>' (by decide) 1 3 p
    rw [hdrop] at h
    exact h
  · intro t ht
    unfold namedRef
    split
    · rename_i cs
      exact absurd rfl (ht cs)
    · rfl

/-- A dot. -/
def dot : Text → Option Extent
  | '.' :: _ => some ⟨1, none⟩
  | _ => none

def dotNode : Node := chars ['.'] .empty

theorem runs_dot : Runs dotNode dot := by
  refine runs_chars (fun p cs _ => rfl) ?_
  intro t ht
  unfold dot
  split
  · rename_i cs
    exact absurd rfl (ht cs)
  · rfl

/-- Whether a character is a blank of patterns. -/
def isSpace (c : Char) : Bool := Shorthand.space.members.contains c.toNat

/-- Blanks, or a comment up to the end of its line. -/
def blank : Text → Option Extent
  | '#' :: cs =>
    let n := (cs.takeWhile (· != '\n')).length
    some ⟨1 + n + (if (cs.drop n).head? = some '\n' then 1 else 0), none⟩
  | cs =>
    let n := (cs.takeWhile isSpace).length
    if 0 < n then some ⟨n, none⟩ else none

def spaceAtom : Atom := inside Shorthand.space.members

def lineAtom : Atom := outside (.ranges [(10, 10)])

def blankNode : Node :=
  .alt (.seq (many spaceAtom 1 0) .empty)
    (.seq (char '#') (.seq (many lineAtom 0 0)
      (.seq (.loop (.atom (.literal '\n'.toNat false)) 0 (some 1) true ⟨0, 0⟩) .empty)))

theorem run_spaces (p : Place) :
    (Node.seq (many spaceAtom 1 0) .empty).run .forward some ⟨p, []⟩ =
      if 0 < (p.ahead.takeWhile isSpace).length then
        some ⟨p.advance (p.ahead.takeWhile isSpace).length, []⟩
      else none := by
  have hreach : spaceAtom.reach ⟨p, []⟩ = (p.ahead.takeWhile isSpace).length :=
    reach_eq (fun c => admits_inside _ c) _
  rw [run_seq_empty, many]
  by_cases h : 0 < (p.ahead.takeWhile isSpace).length
  · rw [run_loop_of_some (by rw [hreach]; exact h) rfl, hreach, if_pos h]
    rfl
  · rw [run_loop_of_lt (by omega), if_neg h]

/-- The end of a line, if there is one. -/
theorem run_lineEnd (t : Track) :
    (Node.seq (.loop (.atom (.literal '\n'.toNat false)) 0 (some 1) true ⟨0, 0⟩) .empty).run
        .forward some t =
      some (t.skip (if t.place.ahead.head? = some '\n' then 1 else 0)) := by
  rw [run_optional, reach_eq (admits_literal '\n')]
  cases t.place.ahead with
  | nil => rfl
  | cons c cs =>
    by_cases hc : c = '\n'
    · simp [hc, Node.run]
    · simp [hc, Node.run, Track.skip_zero]

theorem run_lineComment (p : Place) :
    (Node.seq (many lineAtom 0 0)
        (.seq (.loop (.atom (.literal '\n'.toNat false)) 0 (some 1) true ⟨0, 0⟩) .empty)).run
        .forward some ((⟨p, []⟩ : Track).skip 1) =
      (fun cs : Text =>
        let n := (cs.takeWhile (· != '\n')).length
        some ((⟨p, []⟩ : Track).skip (1 + n + (if (cs.drop n).head? = some '\n' then 1 else 0))))
        (p.ahead.drop 1) := by
  have hadmits (c : Char) : lineAtom.admits c = (c != '\n') := by
    have hsingle : (CodeSet.ranges [(10, 10)]).contains c.toNat = (c == '\n') :=
      contains_single '\n' c
    rw [lineAtom, admits_outside, hsingle]
    rfl
  have hreach : lineAtom.reach ((⟨p, []⟩ : Track).skip 1) =
      ((p.ahead.drop 1).takeWhile (· != '\n')).length := by
    rw [reach_eq hadmits, Track.ahead_skip]
  rw [run_seq_forward, many]
  refine Eq.trans (run_loop_of_some (Nat.zero_le _) (run_lineEnd _)) ?_
  simp only [hreach, Track.ahead_skip, Track.skip_skip, List.drop_drop, Nat.add_assoc]

theorem runs_blank : Runs blankNode blank := by
  intro p
  rw [blankNode, run_alt, run_spaces]
  by_cases h : ∃ cs, p.ahead = '#' :: cs
  · obtain ⟨cs, hcs⟩ := h
    have hspace : (p.ahead.takeWhile isSpace).length = 0 := by
      rw [hcs, List.takeWhile_cons, if_neg (by decide)]
      rfl
    rw [if_neg (by omega), run_char_cons hcs, run_lineComment, hcs]
    rfl
  · have hblank : blank p.ahead = if 0 < (p.ahead.takeWhile isSpace).length then
        some ⟨(p.ahead.takeWhile isSpace).length, none⟩ else none := by
      unfold blank
      split
      · rename_i cs hcs
        exact absurd ⟨cs, hcs⟩ h
      · rfl
    have hnone : (Node.seq (char '#') (.seq (many lineAtom 0 0)
        (.seq (.loop (.atom (.literal '\n'.toNat false)) 0 (some 1) true ⟨0, 0⟩) .empty))).run
        .forward some ⟨p, []⟩ = none := by
      refine run_char_ne (fun hhead => ?_) _
      obtain ⟨cs, hcs⟩ := List.head?_eq_some_iff.1 hhead
      exact h ⟨cs, hcs⟩
    rw [hblank, hnone]
    by_cases hs : 0 < (p.ahead.takeWhile isSpace).length
    · rw [if_pos hs, if_pos hs]
      rfl
    · rw [if_neg hs, if_neg hs]
      rfl

/-- A comment in parentheses. -/
def comment : Text → Option Extent
  | '(' :: '?' :: '#' :: cs =>
    let n := (cs.takeWhile (· != ')')).length
    if (cs.drop n).head? = some ')' then some ⟨n + 4, none⟩ else none
  | _ => none

def commentNode : Node :=
  chars ['(', '?', '#'] (.seq (many (outside (.ranges [(41, 41)])) 0 0) (.seq (char ')') .empty))

theorem runs_comment : Runs commentNode comment := by
  have hadmits (c : Char) : (outside (.ranges [(41, 41)])).admits c = (c != ')') := by
    have hsingle : (CodeSet.ranges [(41, 41)]).contains c.toNat = (c == ')') :=
      contains_single ')' c
    rw [admits_outside, hsingle]
    rfl
  refine runs_chars (fun p cs hcs => ?_) ?_
  · have hspec : comment (['(', '?', '#'] ++ cs) =
        if (cs.drop (cs.takeWhile (· != ')')).length).head? = some ')' then
          some ⟨(cs.takeWhile (· != ')')).length + 4, none⟩
        else none := rfl
    have hahead : ((⟨p, []⟩ : Track).skip 3).place.ahead = cs := by
      rw [Track.ahead_skip, hcs]
      rfl
    have hreach : (outside (.ranges [(41, 41)])).reach ((⟨p, []⟩ : Track).skip 3) =
        (cs.takeWhile (· != ')')).length := by
      rw [reach_eq hadmits, hahead]
    show (Node.seq _ _).run _ _ ((⟨p, []⟩ : Track).skip 3) = _
    rw [run_many_until (hadmits ')'), hreach, hahead, hspec]
    by_cases h : (cs.drop (cs.takeWhile (· != ')')).length).head? = some ')'
    · rw [if_pos h, if_pos h, Track.skip_skip, Track.skip_skip]
      simp only [Option.map_some, Extent.track, Node.run, Track.skip, Option.toList_none,
        List.map_nil]
      have hsum : 3 + ((cs.takeWhile (· != ')')).length + 1) =
          (cs.takeWhile (· != ')')).length + 4 := by omega
      rw [hsum]
    · rw [if_neg h, if_neg h]
      rfl
  · intro t ht
    unfold comment
    split
    · rename_i cs
      exact absurd rfl (ht cs)
    · rfl

/-- The beginning of a comment. -/
def openComment : Text → Option Extent
  | '(' :: '?' :: '#' :: _ => some ⟨3, none⟩
  | _ => none

def openCommentNode : Node := chars ['(', '?', '#'] .empty

theorem runs_openComment : Runs openCommentNode openComment := by
  refine runs_chars (fun p cs _ => rfl) ?_
  intro t ht
  unfold openComment
  split
  · rename_i cs
    exact absurd rfl (ht cs)
  · rfl

/-- An empty class or its complement. -/
def bareClass : Text → Option Extent
  | '[' :: ']' :: _ => some ⟨2, some (1, 1)⟩
  | '[' :: '^' :: ']' :: _ => some ⟨3, some (1, 2)⟩
  | _ => none

def caretAtom : Atom := .literal '^'.toNat false

def bareClassNode : Node :=
  chars ['['] (.seq (.group 1 (.seq (.loop (.atom caretAtom) 0 (some 1) true ⟨1, 0⟩) .empty))
    (.seq (char ']') .empty))

theorem runs_bareClass : Runs bareClassNode bareClass := by
  refine runs_chars (fun p cs hcs => ?_) ?_
  · have hahead : ((⟨p, []⟩ : Track).skip 1).place.ahead = cs := by
      rw [Track.ahead_skip, hcs]
      rfl
    have hclose (n : Nat) : (Node.seq (char ']') .empty).run .forward some
        (((⟨p, []⟩ : Track).skip (1 + n)).record 1 ⟨p.advance 1, p.advance (1 + n)⟩) =
          if (cs.drop n).head? = some ']' then
            some (Extent.track ⟨n + 2, some (1, 1 + n)⟩ p)
          else none := by
      have hdrop : (p.advance (1 + n)).ahead = cs.drop n := by
        rw [Place.ahead_advance, ← List.drop_drop, hcs]
        rfl
      rw [run_char]
      simp only [Track.record, Track.skip, hdrop]
      cases cs.drop n with
      | nil => rfl
      | cons d ds =>
        by_cases hd : d = ']'
        · have hsum : 1 + n + 1 = n + 2 := by omega
          simp [hd, Node.run, Extent.track, Place.advance_advance, hsum]
        · simp [hd]
    show (Node.seq _ _).run _ _ ((⟨p, []⟩ : Track).skip 1) = _
    rw [run_seq_forward, run_group, run_optional, caretAtom, reach_eq (admits_literal '^'), hahead]
    simp only [Node.run.eq_1, Track.skip_skip]
    have h0 := hclose 0
    have h1 := hclose 1
    simp only [Track.skip, Nat.add_zero, List.drop_zero] at h0 h1 ⊢
    rw [h0, h1]
    cases cs with
    | nil => rfl
    | cons d ds =>
      by_cases hcaret : d = '^'
      · subst hcaret
        cases ds with
        | nil => simp [bareClass]
        | cons e es =>
          by_cases he : e = ']'
          · simp [bareClass, he]
          · simp [bareClass, he]
      · by_cases hd : d = ']'
        · simp [bareClass, hd]
        · simp [bareClass, hcaret, hd]
  · intro t ht
    unfold bareClass
    split
    · rename_i cs
      exact absurd rfl (ht _)
    · rename_i cs
      exact absurd rfl (ht _)
    · rfl

/-- A code point escape. -/
def codePoint : Text → Option Extent
  | '\\' :: 'u' :: '\x7b' :: cs => Extent.enclosed 3 isHexDigit '\x7d' cs
  | _ => none

def hexAtom : Atom := inside hexSet

theorem admits_hexAtom (c : Char) : hexAtom.admits c = isHexDigit c := by
  rw [hexAtom, admits_inside, contains_hexSet]

def codePointNode : Node :=
  chars ['\\', 'u', '\x7b'] (.seq (.group 1 (.seq (many hexAtom 1 1) .empty))
    (.seq (char '\x7d') .empty))

theorem runs_codePoint : Runs codePointNode codePoint := by
  refine runs_chars (fun p cs hcs => ?_) ?_
  · have hdrop : p.ahead.drop 3 = cs := by rw [hcs]; rfl
    have h := run_enclosed admits_hexAtom '\x7d' (by decide) 1 3 p
    rw [hdrop] at h
    exact h
  · intro t ht
    unfold codePoint
    split
    · rename_i cs
      exact absurd rfl (ht cs)
    · rfl

/-- The letters that mean nothing after a backslash, whatever follows. -/
def refusedSet : CodeSet :=
  .unionOf ([(65, 65), (66, 66), (67, 67), (69, 82), (84, 84), (85, 85), (86, 86), (88, 88),
    (89, 89), (90, 90), (97, 97), (101, 101), (103, 109), (111, 111), (112, 112), (113, 113),
    (121, 121), (122, 122)].map fun r => .ranges [r])

/-- Hexadecimal digits in braces. -/
def bracedHex : Text → Bool
  | '\x7b' :: cs =>
    let n := (cs.takeWhile isHexDigit).length
    0 < n && (cs.drop n).head? == some '\x7d'
  | _ => false

/-- Whether a letter means nothing after a backslash. -/
def isRefused (c : Char) (cs : Text) : Bool :=
  refusedSet.contains c.toNat || (c == 'c' && !cs.head?.any Char.isAlpha ||
    (c == 'u' && !(decide (4 ≤ (cs.takeWhile isHexDigit).length) || bracedHex cs) ||
      c == 'x' && !decide (2 ≤ (cs.takeWhile isHexDigit).length)))

/-- An escape that means nothing. -/
def refuse : Text → Option Extent
  | '\\' :: c :: cs => if isRefused c cs then some ⟨2, some (1, 2)⟩ else none
  | _ => none

/-- A node that takes one character, depending on what follows it. -/
def TakesOne (node : Node) (q : Char → Text → Bool) : Prop :=
  ∀ k t, node.run .forward k t =
    match t.place.ahead with
    | c :: cs => if q c cs then k (t.skip 1) else none
    | [] => none

theorem TakesOne.alt {a b : Node} {q r : Char → Text → Bool} (ha : TakesOne a q)
    (hb : TakesOne b r) : TakesOne (.alt a b) fun c cs => q c cs || r c cs := by
  intro k t
  rw [run_alt, ha, hb]
  cases t.place.ahead with
  | nil => rfl
  | cons c cs =>
    by_cases hq : q c cs = true
    · by_cases hr : r c cs = true
      · simp only [hq, hr, if_true, Bool.true_or]
        cases k (t.skip 1) <;> rfl
      · simp only [hq, hr, if_true, Bool.true_or, Bool.false_eq_true, if_false]
        cases k (t.skip 1) <;> rfl
    · simp [hq]

theorem takesOne_atom (s : CodeSet) :
    TakesOne (.seq (.atom (inside s)) .empty) fun c _ => s.contains c.toNat := by
  intro k t
  rw [run_seq_empty, run_atom]
  cases t.place.ahead with
  | nil => rfl
  | cons c cs => simp only [admits_inside]

/-- A character that certain texts must not follow. -/
theorem takesOne_unless {c : Char} {body : Node} {q : Text → Bool}
    (hbody : ∀ t, (body.run .forward some t).isSome = q t.place.ahead) :
    TakesOne (.seq (char c) (.seq (.look false true body) .empty)) fun d cs =>
      d == c && !q cs := by
  intro k t
  rw [run_char]
  cases h : t.place.ahead with
  | nil => rfl
  | cons d cs =>
    have hq : (body.run .forward some (t.skip 1)).isSome = q cs := by
      rw [hbody, Track.ahead_skip, h]
      rfl
    by_cases hd : d = c
    · simp only [hd, if_true, beq_self_eq_true, Bool.true_and]
      rw [run_seq_empty, run_not, ← hq]
      cases body.run .forward some (t.skip 1) <;> rfl
    · simp [hd]

theorem isSome_run_letter (t : Track) :
    ((Node.seq (.atom (inside letterSet)) .empty).run .forward some t).isSome =
      t.place.ahead.head?.any Char.isAlpha := by
  rw [run_seq_empty, run_atom]
  cases t.place.ahead with
  | nil => rfl
  | cons c cs =>
    simp only [admits_inside, contains_letterSet, List.head?_cons, Option.any_some]
    cases c.isAlpha <;> rfl

theorem reach_hexAtom (t : Track) :
    hexAtom.reach t = (t.place.ahead.takeWhile isHexDigit).length := reach_eq admits_hexAtom t

theorem isSome_run_hex (n : Nat) (t : Track) :
    ((Node.seq (.loop (.atom hexAtom) n (some n) true ⟨1, 0⟩) .empty).run .forward some t).isSome =
      decide (n ≤ (t.place.ahead.takeWhile isHexDigit).length) := by
  rw [run_seq_empty, run_loop_fixed, reach_hexAtom]
  by_cases h : n ≤ (t.place.ahead.takeWhile isHexDigit).length
  · simp [h]
  · simp [h]

def bracedHexNode : Node :=
  .seq (char '\x7b') (.seq (many hexAtom 1 1) (.seq (char '\x7d') .empty))

theorem isSome_run_bracedHex (t : Track) :
    (bracedHexNode.run .forward some t).isSome = bracedHex t.place.ahead := by
  rw [bracedHexNode, run_char]
  cases h : t.place.ahead with
  | nil => rfl
  | cons d cs =>
    by_cases hd : d = '\x7b'
    · subst hd
      have hahead : (t.skip 1).place.ahead = cs := by
        rw [Track.ahead_skip, h]
        rfl
      have hsum := reach_hexAtom (t.skip 1)
      rw [hahead] at hsum
      simp only [if_true, bracedHex]
      rw [run_seq_forward, many]
      by_cases hr : 0 < hexAtom.reach (t.skip 1)
      · rw [run_loop_of_stop hr]
        · rw [run_char, Track.ahead_skip, hahead, hsum]
          rw [hsum] at hr
          cases cs.drop (cs.takeWhile isHexDigit).length with
          | nil => simp
          | cons d ds =>
            by_cases hd : d = '\x7d'
            · simp [hd, hr, Node.run]
            · simp [hd]
        · intro j _ hj
          exact run_char_ne (head?_skip_ne (admits_hexAtom '\x7d') hj) _
      · rw [run_loop_of_lt (by omega)]
        rw [hsum] at hr
        simp [hr]
    · simp [hd, bracedHex]


def refuseNode : Node :=
  chars ['\\'] (.seq (.group 1 (.alt (.seq (.atom (inside refusedSet)) .empty)
    (.alt (.seq (char 'c') (.seq (.look false true (.seq (.atom (inside letterSet)) .empty)) .empty))
      (.alt (.seq (char 'u') (.seq (.look false true
          (.alt (.seq (.loop (.atom hexAtom) 4 (some 4) true ⟨1, 0⟩) .empty) bracedHexNode)) .empty))
        (.seq (char 'x') (.seq (.look false true
          (.seq (.loop (.atom hexAtom) 2 (some 2) true ⟨1, 0⟩) .empty)) .empty)))))) .empty)

theorem isSome_run_codePoint (t : Track) :
    ((Node.alt (.seq (.loop (.atom hexAtom) 4 (some 4) true ⟨1, 0⟩) .empty)
      bracedHexNode).run .forward some t).isSome =
      (decide (4 ≤ (t.place.ahead.takeWhile isHexDigit).length) || bracedHex t.place.ahead) := by
  rw [← isSome_run_hex, ← isSome_run_bracedHex, run_alt]
  cases (Node.seq (.loop (.atom hexAtom) 4 (some 4) true ⟨1, 0⟩) .empty).run .forward some t <;>
    rfl

theorem runs_refuse : Runs refuseNode refuse := by
  refine runs_chars (fun p cs hcs => ?_) ?_
  · have hahead : ((⟨p, []⟩ : Track).skip 1).place.ahead = cs := by
      rw [Track.ahead_skip, hcs]
      rfl
    have hone := (takesOne_atom refusedSet).alt
      ((takesOne_unless (c := 'c') (q := fun cs => cs.head?.any Char.isAlpha) isSome_run_letter).alt
        ((takesOne_unless (c := 'u')
          (q := fun cs => decide (4 ≤ (cs.takeWhile isHexDigit).length) || bracedHex cs)
          isSome_run_codePoint).alt
          (takesOne_unless (c := 'x')
            (q := fun cs => decide (2 ≤ (cs.takeWhile isHexDigit).length)) (isSome_run_hex 2))))
    show (Node.seq _ _).run _ _ ((⟨p, []⟩ : Track).skip 1) = _
    rw [run_seq_empty, run_group, hone, hahead]
    cases cs with
    | nil => rfl
    | cons c cs =>
      have hspec : refuse (['\\'] ++ c :: cs) =
          if isRefused c cs then some ⟨2, some (1, 2)⟩ else none := rfl
      rw [hspec]
      simp only
      show (if isRefused c cs = true then _ else _) = _
      by_cases h : isRefused c cs = true
      · rw [if_pos h, if_pos h]
        simp only [Option.map_some, Extent.track, Track.skip, Track.record,
          Place.advance_advance, Option.toList_some, List.map_cons, List.map_nil]
      · rw [if_neg h, if_neg h]
        rfl
  · intro t ht
    unfold refuse
    split
    · rename_i cs
      exact absurd rfl (ht _)
    · rfl

/-! ## 2. What the triggers match -/

section Matches

variable {t : Text} {e : Extent}

theorem of_openPlain (h : openPlain t = some e) :
    ∃ cs, t = '(' :: cs ∧ cs.head? ≠ some '?' ∧ e = ⟨1, none⟩ := by
  unfold openPlain at h
  split at h
  · rename_i cs
    split at h
    · cases h
    · rename_i hq
      cases h
      exact ⟨cs, rfl, hq, rfl⟩
  · cases h

/-- The two ways in which a named group begins. -/
theorem of_openNamed (h : openNamed t = some e) :
    ∃ before w rest, (before = ['(', '?', '<'] ∨ before = ['(', '?', 'P', '<']) ∧
      w ≠ [] ∧ (∀ c ∈ w, isNameChar c = true) ∧ t = before ++ (w ++ '>' :: rest) ∧
      e.length = before.length + w.length + 1 ∧ e.group.isSome = true ∧
      e.text t = before ++ w ++ ['>'] ∧ e.captured t = w := by
  unfold openNamed at h
  split at h
  · rename_i cs
    simp only at h
    split at h
    · rename_i ds hds
      by_cases hP : cs.head? = some 'P'
      · obtain ⟨es, rfl⟩ := List.head?_eq_some_iff.1 hP
        simp only [hP, if_true, List.drop_succ_cons, List.drop_zero] at h hds
        subst hds
        obtain ⟨w, rest, hne, hw, hcs, hlen⟩ :=
          Extent.of_enclosed ['(', '?', 'P', '<'] h
        exact ⟨_, w, rest, .inr rfl, hne, hw, congrArg (['(', '?', 'P', '<'] ++ ·) hcs, hlen⟩
      · simp only [hP, if_false, List.drop_zero] at h hds
        subst hds
        obtain ⟨w, rest, hne, hw, hcs, hlen⟩ := Extent.of_enclosed ['(', '?', '<'] h
        exact ⟨_, w, rest, .inl rfl, hne, hw, congrArg (['(', '?', '<'] ++ ·) hcs, hlen⟩
    · cases h
  · cases h

theorem of_numbered (h : numbered t = some e) :
    ∃ w rest, w ≠ [] ∧ (∀ c ∈ w, c.isDigit = true) ∧ rest.head?.any Char.isDigit = false ∧
      t = '\\' :: (w ++ rest) ∧ e.length = w.length + 1 ∧ e.group.isSome = true ∧
      e.text t = '\\' :: w ∧ e.captured t = w := by
  unfold numbered at h
  split at h
  · rename_i cs
    simp only at h
    split at h
    · rename_i hpos
      cases h
      have hcs := takeWhile_append_drop Char.isDigit cs
      have htake := List.prefix_iff_eq_take.1 (List.takeWhile_prefix (l := cs) Char.isDigit)
      refine ⟨_, _, List.length_pos_iff.1 hpos, List.all_eq_true.1 List.all_takeWhile,
        head?_drop_takeWhile _ cs, congrArg ('\\' :: ·) hcs, rfl, rfl, ?_, ?_⟩
      · simp only [Extent.text, List.take_succ_cons, ← htake]
      · simp only [Extent.captured, Nat.add_sub_cancel, List.drop_succ_cons, List.drop_zero, ← htake]
    · cases h
  · cases h

theorem of_namedRef (h : namedRef t = some e) :
    ∃ w rest, w ≠ [] ∧ (∀ c ∈ w, isNameChar c = true) ∧
      t = ['\\', 'k', '<'] ++ (w ++ '>' :: rest) ∧ e.length = 3 + w.length + 1 ∧
      e.group.isSome = true ∧ e.text t = ['\\', 'k', '<'] ++ w ++ ['>'] ∧ e.captured t = w := by
  unfold namedRef at h
  split at h
  · rename_i cs
    obtain ⟨w, rest, hne, hw, hcs, hlen⟩ := Extent.of_enclosed ['\\', 'k', '<'] h
    exact ⟨w, rest, hne, hw, congrArg (['\\', 'k', '<'] ++ ·) hcs, hlen⟩
  · cases h

theorem of_codePoint (h : codePoint t = some e) :
    ∃ w rest, w ≠ [] ∧ (∀ c ∈ w, isHexDigit c = true) ∧
      t = ['\\', 'u', '\x7b'] ++ (w ++ '\x7d' :: rest) ∧ e.length = 3 + w.length + 1 ∧
      e.group.isSome = true ∧ e.text t = ['\\', 'u', '\x7b'] ++ w ++ ['\x7d'] ∧
      e.captured t = w := by
  unfold codePoint at h
  split at h
  · rename_i cs
    obtain ⟨w, rest, hne, hw, hcs, hlen⟩ := Extent.of_enclosed ['\\', 'u', '\x7b'] h
    exact ⟨w, rest, hne, hw, congrArg (['\\', 'u', '\x7b'] ++ ·) hcs, hlen⟩
  · cases h

theorem of_dot (h : dot t = some e) : ∃ cs, t = '.' :: cs ∧ e = ⟨1, none⟩ := by
  unfold dot at h
  split at h
  · cases h
    exact ⟨_, rfl, rfl⟩
  · cases h

theorem of_openComment (h : openComment t = some e) :
    ∃ cs, t = '(' :: '?' :: '#' :: cs ∧ e = ⟨3, none⟩ := by
  unfold openComment at h
  split at h
  · cases h
    exact ⟨_, rfl, rfl⟩
  · cases h

theorem of_bareClass (h : bareClass t = some e) :
    (∃ cs, t = '[' :: ']' :: cs ∧ e = ⟨2, some (1, 1)⟩) ∨
      ∃ cs, t = '[' :: '^' :: ']' :: cs ∧ e = ⟨3, some (1, 2)⟩ := by
  unfold bareClass at h
  split at h
  · cases h
    exact .inl ⟨_, rfl, rfl⟩
  · cases h
    exact .inr ⟨_, rfl, rfl⟩
  · cases h

theorem of_refuse (h : refuse t = some e) :
    ∃ c cs, t = '\\' :: c :: cs ∧ isRefused c cs = true ∧ e = ⟨2, some (1, 2)⟩ := by
  unfold refuse at h
  split at h
  · rename_i c cs
    split at h
    · rename_i hc
      cases h
      exact ⟨c, cs, rfl, hc, rfl⟩
    · cases h
  · cases h

theorem of_comment (h : comment t = some e) :
    ∃ w rest, (∀ c ∈ w, (c != ')') = true) ∧ t = ['(', '?', '#'] ++ (w ++ ')' :: rest) ∧
      e = ⟨w.length + 4, none⟩ := by
  unfold comment at h
  split at h
  · rename_i cs
    simp only at h
    split at h
    · rename_i hhead
      cases h
      obtain ⟨rest, hrest⟩ := List.head?_eq_some_iff.1 hhead
      have hcs := takeWhile_append_drop (· != ')') cs
      rw [hrest] at hcs
      exact ⟨_, rest, List.all_eq_true.1 List.all_takeWhile,
        congrArg (['(', '?', '#'] ++ ·) hcs, rfl⟩
    · cases h
  · cases h

/-- Blanks are not empty, and have no group. -/
theorem of_blank (h : blank t = some e) : 0 < e.length ∧ e.group = none := by
  unfold blank at h
  split at h
  · cases h
    exact ⟨by simp only; omega, rfl⟩
  · simp only at h
    split at h
    · rename_i hpos
      cases h
      exact ⟨hpos, rfl⟩
    · cases h

end Matches

end Trigger

end Native

/-! ## 2. The list of the built-in tokens -/

open Native

/-- The trigger of a token matches where a function on the text ahead says. -/
structure TokenSpec.Finds (s : TokenSpec) (find : Text → Option Extent) : Prop where
  flags : ∀ c ∈ s.flags, isNameChar c
  program : ∃ node n, Program.ofSource? s.trigger ⟨false, false, true⟩ = some ⟨node, n⟩ ∧
    Runs node find ∧ ∀ cs e, find cs = some e → n = e.group.toList.length

namespace Builtin

/-- Where the built-in tokens match, in the order of their registration. -/
def finders : List (Text → Option Extent) :=
  [Trigger.refuse, Trigger.codePoint, Trigger.bareClass, Trigger.openComment, Trigger.comment,
    Trigger.blank, Trigger.dot, Trigger.namedRef, Trigger.numbered, Trigger.openNamed,
    Trigger.openPlain]

open Trigger in
theorem specs_find : List.Forall₂ TokenSpec.Finds specs finders := by
  have hone {e : Extent} (h : e.group.isSome = true) : 1 = e.group.toList.length := by
    obtain ⟨g, hg⟩ := Option.isSome_iff_exists.1 h
    rw [hg]
    rfl
  have hflags {s : TokenSpec} (h : s.flags.all isNameChar = true) : ∀ c ∈ s.flags, isNameChar c :=
    List.all_eq_true.1 h
  refine .cons ⟨hflags rfl, refuseNode, 1, by decide +kernel, runs_refuse, fun _ _ h => ?_⟩ <|
    .cons ⟨hflags rfl, codePointNode, 1, by decide +kernel, runs_codePoint, fun _ _ h => ?_⟩ <|
    .cons ⟨hflags rfl, bareClassNode, 1, by decide +kernel, runs_bareClass, fun _ _ h => ?_⟩ <|
    .cons ⟨hflags rfl, openCommentNode, 0, by decide +kernel, runs_openComment, fun _ _ h => ?_⟩ <|
    .cons ⟨hflags rfl, commentNode, 0, by decide +kernel, runs_comment, fun _ _ h => ?_⟩ <|
    .cons ⟨hflags rfl, blankNode, 0, by decide +kernel, runs_blank, fun _ _ h => ?_⟩ <|
    .cons ⟨hflags rfl, dotNode, 0, by decide +kernel, runs_dot, fun _ _ h => ?_⟩ <|
    .cons ⟨hflags rfl, namedRefNode, 1, by decide +kernel, runs_namedRef, fun _ _ h => ?_⟩ <|
    .cons ⟨hflags rfl, numberedNode, 1, by decide +kernel, runs_numbered, fun _ _ h => ?_⟩ <|
    .cons ⟨hflags rfl, openNamedNode, 1, by decide +kernel, runs_openNamed, fun _ _ h => ?_⟩ <|
    .cons ⟨hflags rfl, openPlainNode, 0, by decide +kernel, runs_openPlain, fun _ _ h => ?_⟩ .nil
  · obtain ⟨c, cs, -, -, rfl⟩ := of_refuse h
    rfl
  · obtain ⟨w, rest, -, -, -, -, hgroup, -⟩ := of_codePoint h
    exact hone hgroup
  · rcases of_bareClass h with ⟨cs, -, rfl⟩ | ⟨cs, -, rfl⟩ <;> rfl
  · obtain ⟨cs, -, rfl⟩ := of_openComment h
    rfl
  · obtain ⟨w, rest, -, -, rfl⟩ := of_comment h
    rfl
  · rw [(of_blank h).2]
    rfl
  · obtain ⟨cs, -, rfl⟩ := of_dot h
    rfl
  · obtain ⟨w, rest, -, -, -, -, hgroup, -⟩ := of_namedRef h
    exact hone hgroup
  · obtain ⟨w, rest, -, -, -, -, -, hgroup, -⟩ := of_numbered h
    exact hone hgroup
  · obtain ⟨before, w, rest, -, -, -, -, -, hgroup, -⟩ := of_openNamed h
    exact hone hgroup
  · obtain ⟨cs, -, -, rfl⟩ := of_openPlain h
    rfl

end Builtin

end ExtensibleRegex
