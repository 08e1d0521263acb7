import ExtensibleRegex.Proofs.Expansion.Precedence
import ExtensibleRegex.Proofs.Token.Initial
import Mathlib.Tactic

/-!
# How a fresh dialect reads patterns

With the built-in tokens only, nothing is written back into the pattern, and a pattern is read in
one pass from left to right. This file gives that pass as a recursion on the text:

* a pattern is cut into pieces (`Segment`): the parenthesis of a capturing group, native text that
  is copied, and what a token writes;
* `Reader.token?` says what the built-in tokens make of a text, scope by scope and character by
  character, and `Reader.read` reads a whole pattern;
* `handled_token?` compares that with the handlers of the tokens, `step_segment` with a step of a
  run and `steps_read` with the whole run;
* `expand_initial` puts it together: what a pattern is expanded to, with its errors.
-/

namespace ExtensibleRegex

open Native

/-! ## 1. Pieces -/

/-- A piece of a pattern, with what is written for it. -/
inductive Segment where
  /-- The parenthesis of a capturing group, with the name that the group was written with. -/
  | opens (name : Option Text)
  /-- Native text, copied as it stands. -/
  | copied (t : Text)
  /-- What a token writes for its match. -/
  | written (t : Text)
  deriving DecidableEq, Repr

namespace Segment

/-- What is written for a piece. -/
def text : Segment → Text
  | opens _ => ['(']
  | copied t => t
  | written t => t

/-- The groups opened after a piece. -/
def enter (ledger : Ledger) : Segment → Ledger
  | opens name => ledger.push name
  | _ => ledger

/-- The scope after a piece. -/
def scopeAfter (scope : Scope) : Segment → Scope
  | copied t => Run.scopeAfter scope t
  | _ => scope

end Segment

/-! ## 2. Reading -/

/-- What is known wherever a pattern is read. -/
structure Reader where
  flags : Text
  namespacing : Bool

namespace Reader

/-- What a token makes of the text before it: a piece, and how many characters it stands for. -/
abbrev Answer := Except Error (Option (Segment × Nat))

/-- A token's answer with a text. -/
def write (e : Extent) (t : Text) : Answer := .ok (some (.written t, e.length))

/-- What stands for a comment or blanks between two texts. -/
def separator (behind ahead flags : Text) : Text :=
  if behind.isEmpty || ahead.isEmpty || behind.head?.any isDelimiter || ahead.head?.any isDelimiter
      || openersReversed.any (·.isPrefixOf behind) || quantifierNext ahead flags then []
  else emptyGroup

/-- Whether a number in an escape may stand. -/
def numberStands (scope : Scope) (groups : Nat) (digits : Text) : Prop :=
  (scope = .pattern ∧ digits.head? ≠ some '0' ∧ readDigits 10 digits ≤ groups) ∨ digits = ['0']

instance (scope : Scope) (groups : Nat) (digits : Text) :
    Decidable (numberStands scope groups digits) :=
  inferInstanceAs (Decidable (_ ∨ _))

/-- An escape. -/
def escape (r : Reader) (scope : Scope) (ledger : Ledger) (t : Text) : Answer :=
  match Trigger.numbered t with
  | some e =>
    if numberStands scope ledger.groupCount (e.captured t) then write e (e.text t)
    else .error (.octalOrUndefinedGroup (e.text t))
  | none =>
  match if scope = .pattern then Trigger.namedRef t else none with
  | some e =>
    match Builtin.referredGroup? ledger (e.captured t) with
    | some n =>
      write e ('\\' :: decimalText n ++
        if (t.drop e.length).head?.any Char.isDigit then emptyGroup else [])
    | none => .error (.undefinedGroup (e.text t))
  | none =>
  match Trigger.codePoint t with
  | some e =>
    let n := readDigits 16 (e.captured t)
    if n > 0x10FFFF then .error (.codePointTooLarge (e.text t))
    else if n ≤ 0xFFFF then write e ('\\' :: 'u' :: hexText 4 n)
    else if r.flags.contains 'u' then write e (e.text t)
    else .error .codePointNeedsUnicode
  | none =>
  match Trigger.refuse t with
  | some e =>
    if e.captured t = ['B'] ∧ scope = .pattern then write e (e.text t)
    else .error (.invalidEscape (e.text t))
  | none => .ok none

/-- A parenthesis. -/
def parenthesis (r : Reader) (ledger : Ledger) (behind t : Text) : Answer :=
  match Trigger.openPlain t with
  | some e =>
    if r.flags.contains 'n' then write e ['(', '?', ':'] else .ok (some (.opens none, e.length))
  | none =>
  match Trigger.openNamed t with
  | some e =>
    let name := e.captured t
    if name.all Char.isDigit then .error (.integerName (e.text t))
    else if !r.namespacing && Builtin.guardedNames.contains name then
      .error (.reservedName (e.text t))
    else if (ledger.index? name).isSome then .error (.duplicateName (e.text t))
    else .ok (some (.opens (some name), e.length))
  | none =>
  match Trigger.comment t with
  | some e => write e (separator behind (t.drop e.length) r.flags)
  | none =>
  match Trigger.openComment t with
  | some _ => .error (.unterminatedComment t)
  | none => .ok none

/-- A class that is empty or the complement of an empty one. -/
def bareClass (t : Text) : Answer :=
  match Trigger.bareClass t with
  | some e => write e (if e.captured t = [] then "\\b\\B".toList else "[\\s\\S]".toList)
  | none => .ok none

/-- A dot. -/
def dot (r : Reader) (t : Text) : Answer :=
  match if r.flags.contains 's' then Trigger.dot t else none with
  | some e => write e "[\\s\\S]".toList
  | none => .ok none

/-- Blanks. -/
def blank (r : Reader) (behind t : Text) : Answer :=
  match if r.flags.contains 'x' then Trigger.blank t else none with
  | some e => write e (separator behind (t.drop e.length) r.flags)
  | none => .ok none

/-- What the tokens make of a text. -/
def token? (r : Reader) (scope : Scope) (ledger : Ledger) (behind t : Text) : Answer :=
  if t.head? = some '\\' then r.escape scope ledger t
  else
    match scope with
    | .charClass => .ok none
    | .pattern =>
      if t.head? = some '(' then r.parenthesis ledger behind t
      else if t.head? = some '[' then bareClass t
      else if t.head? = some '.' then r.dot t
      else r.blank behind t

/-- The piece that a text begins with, and how many characters it stands for. -/
def segment (r : Reader) (scope : Scope) (ledger : Ledger) (behind t : Text) :
    Except Error (Segment × Nat) :=
  match r.token? scope ledger behind t with
  | .ok (some piece) => .ok piece
  | .ok none => .ok (.copied (t.take (verbatimLength scope t)), verbatimLength scope t)
  | .error e => .error e

/-- The pieces of a text. `skip` characters belong to the piece read last. -/
def readFrom (r : Reader) : (skip : Nat) → Scope → Ledger → (behind : Text) → Text →
    Except Error (List Segment)
  | _, _, _, _, [] => .ok []
  | skip + 1, scope, ledger, behind, c :: cs => readFrom r skip scope ledger (c :: behind) cs
  | 0, scope, ledger, behind, c :: cs =>
    match r.segment scope ledger behind (c :: cs) with
    | .ok (s, n) =>
      (readFrom r (n - 1) (s.scopeAfter scope) (s.enter ledger) (c :: behind) cs).map (s :: ·)
    | .error e => .error e

/-- The pieces of a pattern. -/
def read (r : Reader) (t : Text) : Except Error (List Segment) := r.readFrom 0 .pattern .empty [] t

/-- What the tokens for escapes answer before a text, unless they refuse it. -/
inductive OfEscape (r : Reader) (scope : Scope) (ledger : Ledger) (t : Text) :
    Option (Segment × Nat) → Prop
  /-- A number that may stand is written as it was read. -/
  | number {w rest : Text} (ne_nil : w ≠ []) (isDigit : ∀ c ∈ w, c.isDigit = true)
      (ends : rest.head?.any Char.isDigit = false)
      (stands : numberStands scope ledger.groupCount w) (read : t = '\\' :: (w ++ rest)) :
      OfEscape r scope ledger t (some (.written ('\\' :: w), w.length + 1))
  /-- The name of a group becomes its number, kept apart from a digit behind it. -/
  | name {w rest : Text} {m : Nat} (isNameChar : ∀ c ∈ w, isNameChar c = true)
      (scope_eq : scope = .pattern) (refers : Builtin.referredGroup? ledger w = some m)
      (read : t = ['\\', 'k', '<'] ++ (w ++ '>' :: rest)) :
      OfEscape r scope ledger t (some (.written ('\\' :: decimalText m ++
        if rest.head?.any Char.isDigit then emptyGroup else []), 3 + w.length + 1))
  /-- A code point of one unit is written with four digits. -/
  | unit {w rest : Text} (isHexDigit : ∀ c ∈ w, isHexDigit c = true)
      (small : readDigits 16 w ≤ 0xFFFF)
      (read : t = ['\\', 'u', '\x7b'] ++ (w ++ '\x7d' :: rest)) :
      OfEscape r scope ledger t (some (.written ('\\' :: 'u' :: hexText 4 (readDigits 16 w)),
        3 + w.length + 1))
  /-- A larger one is written as it was read. -/
  | point {w rest : Text} (isHexDigit : ∀ c ∈ w, isHexDigit c = true)
      (unicode : r.flags.contains 'u' = true)
      (read : t = ['\\', 'u', '\x7b'] ++ (w ++ '\x7d' :: rest)) :
      OfEscape r scope ledger t (some (.written (['\\', 'u', '\x7b'] ++ w ++ ['\x7d']),
        3 + w.length + 1))
  /-- Outside of classes `\B` is no letter without a meaning. -/
  | inside {rest : Text} (scope_eq : scope = .pattern) (read : t = '\\' :: 'B' :: rest) :
      OfEscape r scope ledger t (some (.written ['\\', 'B'], 2))
  /-- No token takes the text. -/
  | untaken (numbered : Trigger.numbered t = none)
      (namedRef : scope = .pattern → Trigger.namedRef t = none)
      (codePoint : Trigger.codePoint t = none) (refuse : Trigger.refuse t = none) :
      OfEscape r scope ledger t none

/-- **What an escape is answered**, by the tokens in their order. -/
theorem of_escape {r : Reader} {scope : Scope} {ledger : Ledger} {t : Text}
    {x : Option (Segment × Nat)} (h : r.escape scope ledger t = .ok x) :
    r.OfEscape scope ledger t x := by
  unfold escape at h
  cases hnumbered : Trigger.numbered t with
  | some e =>
    obtain ⟨w, rest, hne, hdigits, hend, hread, hlength, -, htext, hcaptured⟩ :=
      Trigger.of_numbered hnumbered
    simp only [hnumbered, htext, hcaptured] at h
    split at h
    · rename_i hstands
      obtain rfl := Except.ok.inj h
      exact hlength ▸ .number hne hdigits hend hstands hread
    · cases h
  | none =>
  simp only [hnumbered] at h
  cases hnamed : (if scope = .pattern then Trigger.namedRef t else none) with
  | some e =>
    split at hnamed
    case isFalse => cases hnamed
    rename_i hscope
    obtain ⟨w, rest, -, hname, hread, hlength, -, -, hcaptured⟩ := Trigger.of_namedRef hnamed
    have hdrop : t.drop e.length = rest := by
      have hcut : t = (['\\', 'k', '<'] ++ w ++ ['>']) ++ rest := by rw [hread]; simp
      rw [hcut]
      exact List.drop_left' (by rw [hlength]; simp; omega)
    simp only [hnamed, if_pos hscope, hcaptured, hdrop] at h
    split at h
    · rename_i m hrefers
      obtain rfl := Except.ok.inj h
      exact hlength ▸ .name hname hscope hrefers hread
    · cases h
  | none =>
  simp only [hnamed] at h
  cases hpoint : Trigger.codePoint t with
  | some e =>
    obtain ⟨w, rest, -, hhex, hread, hlength, -, htext, hcaptured⟩ := Trigger.of_codePoint hpoint
    simp only [hpoint, htext, hcaptured] at h
    split at h
    · cases h
    split at h
    · rename_i hsmall
      obtain rfl := Except.ok.inj h
      exact hlength ▸ .unit hhex hsmall hread
    split at h
    · rename_i hunicode
      obtain rfl := Except.ok.inj h
      exact hlength ▸ .point hhex hunicode hread
    · cases h
  | none =>
  simp only [hpoint] at h
  cases hrefuse : Trigger.refuse t with
  | some e =>
    obtain ⟨c, cs, rfl, -, rfl⟩ := Trigger.of_refuse hrefuse
    simp only [hrefuse] at h
    split at h
    · rename_i hB
      obtain rfl : c = 'B' := List.singleton_inj.1 hB.1
      obtain rfl := Except.ok.inj h
      exact .inside hB.2 rfl
    · cases h
  | none =>
    simp only [hrefuse] at h
    obtain rfl := Except.ok.inj h
    refine .untaken hnumbered (fun hscope => ?_) hpoint hrefuse
    rwa [if_pos hscope] at hnamed

/-! ## 3. Handlers -/

/-- A handler's answer and what the reader makes of the same match. -/
def Agrees (ledger : Ledger) (answer : Answer) (n : Nat) : Except Error (Text × Ledger) → Prop
  | .ok (text, ledger') => ∃ piece : Segment, answer = .ok (some (piece, n)) ∧ piece.text = text ∧
      piece.enter ledger = ledger' ∧ ∀ scope, piece.scopeAfter scope = scope
  | .error e => answer = .error e

theorem agrees_write (ledger : Ledger) (e : Extent) (t : Text) :
    Agrees ledger (write e t) e.length (.ok (t, ledger)) :=
  ⟨.written t, rfl, rfl, rfl, fun _ => rfl⟩

variable {r : Reader} {p : Place} {scope : Scope} {ledger : Ledger}

/-- The first match of a built-in token, and what the reader makes of the text. -/
def Handled (r : Reader) (p : Place) (scope : Scope) (ledger : Ledger) (answer : Answer) : Prop :=
  ∀ call setting, setting.features.namespacing = r.namespacing →
    match firstFound? Builtin.table scope r.flags p.ahead with
    | some (s, e) => s.reparse = false ∧ 0 < e.length ∧
        Agrees ledger answer e.length
          (s.handler ⟨e.captures p, scope, r.flags, call, setting⟩ ledger)
    | none => answer = .ok none

theorem handled_of_found {s : TokenSpec} {e : Extent} {answer : Answer}
    (hfound : firstFound? Builtin.table scope r.flags p.ahead = some (s, e))
    (hreparse : s.reparse = false) (hpos : 0 < e.length)
    (hagrees : ∀ call setting, setting.features.namespacing = r.namespacing →
      Agrees ledger answer e.length
        (s.handler ⟨e.captures p, scope, r.flags, call, setting⟩ ledger)) :
    Handled r p scope ledger answer := by
  intro call setting hsetting
  rw [hfound]
  exact ⟨hreparse, hpos, hagrees call setting hsetting⟩

theorem handled_of_none (hfound : firstFound? Builtin.table scope r.flags p.ahead = none) :
    Handled r p scope ledger (.ok none) := by
  intro call setting _
  rw [hfound]

theorem handled_escape {cs : Text} (h : p.ahead = '\\' :: cs) :
    Handled r p scope ledger (r.escape scope ledger p.ahead) := by
  have hblank : Trigger.blank ('\\' :: cs) = none := rfl
  unfold escape
  cases hnumbered : Trigger.numbered p.ahead with
  | some e =>
    obtain ⟨w, rest, -, -, -, -, hlength, -⟩ := Trigger.of_numbered hnumbered
    refine handled_of_found (s := Builtin.specs[8]) (e := e) ?_ rfl (by omega) fun call setting _ => ?_
    · rw [h] at hnumbered ⊢
      cases scope <;>
        simp [Builtin.table, firstFound?, Builtin.specs, Builtin.finders, TokenSpec.applies,
          TokenScope.admits, hnumbered]
    · show Agrees _ _ _ (Builtin.numberedReference _ _)
      simp only [Builtin.numberedReference, Extent.text_captures, Extent.textOf_captures]
      show Agrees _ _ _ (if numberStands scope ledger.groupCount (e.captured p.ahead) then _ else _)
      by_cases hstands : numberStands scope ledger.groupCount (e.captured p.ahead)
      · rw [if_pos hstands, if_pos hstands]
        exact agrees_write _ _ _
      · rw [if_neg hstands, if_neg hstands]
        rfl
  | none =>
  cases hnamed : (if scope = .pattern then Trigger.namedRef p.ahead else none) with
  | some e =>
    split at hnamed
    · rename_i hscope
      subst hscope
      obtain ⟨w, rest, -, -, -, hlength, -⟩ := Trigger.of_namedRef hnamed
      refine handled_of_found (s := Builtin.specs[7]) (e := e) ?_ rfl (by omega) fun call setting _ => ?_
      · rw [h] at hnumbered hnamed ⊢
        simp [Builtin.table, firstFound?, Builtin.specs, Builtin.finders, TokenSpec.applies,
          TokenScope.admits, hnumbered, hnamed]
      · show Agrees _ _ _ (Builtin.namedReference _ _)
        simp only [Builtin.namedReference, Extent.text_captures, Extent.textOf_captures,
          Extent.stop_captures]
        cases Builtin.referredGroup? ledger (e.captured p.ahead) with
        | some n => exact agrees_write _ _ _
        | none => rfl
    · cases hnamed
  | none =>
  cases hpoint : Trigger.codePoint p.ahead with
  | some e =>
    obtain ⟨w, rest, -, -, -, hlength, -⟩ := Trigger.of_codePoint hpoint
    refine handled_of_found (s := Builtin.specs[1]) (e := e) ?_ rfl (by omega) fun call setting _ => ?_
    · rw [h] at hnumbered hnamed hpoint ⊢
      cases scope <;>
        simp_all [Builtin.table, firstFound?, Builtin.specs, Builtin.finders, TokenSpec.applies,
          TokenScope.admits]
    · show Agrees _ _ _ (Builtin.codePoint _ _)
      simp only [Builtin.codePoint, Extent.text_captures, Extent.textOf_captures]
      by_cases hlarge : readDigits 16 (e.captured p.ahead) > 0x10FFFF
      · rw [if_pos hlarge, if_pos hlarge]
        rfl
      rw [if_neg hlarge, if_neg hlarge]
      by_cases hsmall : readDigits 16 (e.captured p.ahead) ≤ 0xFFFF
      · rw [if_pos hsmall, if_pos hsmall]
        exact agrees_write _ _ _
      rw [if_neg hsmall, if_neg hsmall]
      by_cases hu : r.flags.contains 'u' = true
      · rw [if_pos hu, if_pos hu]
        exact agrees_write _ _ _
      · rw [if_neg hu, if_neg hu]
        rfl
  | none =>
  cases hrefuse : Trigger.refuse p.ahead with
  | some e =>
    obtain ⟨c, ds, hcs, -, he⟩ := Trigger.of_refuse hrefuse
    refine handled_of_found (s := Builtin.specs[0]) (e := e) ?_ rfl (by rw [he]; decide)
      fun call setting _ => ?_
    · rw [h] at hnumbered hnamed hpoint hrefuse ⊢
      cases scope <;>
        simp_all [Builtin.table, firstFound?, Builtin.specs, Builtin.finders, TokenSpec.applies,
          TokenScope.admits]
    · show Agrees _ _ _ (Builtin.refuseEscape _ _)
      simp only [Builtin.refuseEscape, Extent.text_captures, Extent.textOf_captures]
      by_cases hB : e.captured p.ahead = ['B'] ∧ scope = .pattern
      · rw [if_pos hB, if_pos hB]
        exact agrees_write _ _ _
      · rw [if_neg hB, if_neg hB]
        rfl
  | none =>
    refine handled_of_none ?_
    rw [h] at hnumbered hnamed hpoint hrefuse ⊢
    cases scope <;>
      simp_all [Builtin.table, firstFound?, Builtin.specs, Builtin.finders, TokenSpec.applies,
        TokenScope.admits]

theorem handled_parenthesis {cs : Text} (h : p.ahead = '(' :: cs) :
    Handled r p .pattern ledger (r.parenthesis ledger p.behind p.ahead) := by
  have hblank : Trigger.blank ('(' :: cs) = none := rfl
  unfold parenthesis
  cases hplain : Trigger.openPlain p.ahead with
  | some e =>
    obtain ⟨ds, -, -, he⟩ := Trigger.of_openPlain hplain
    refine handled_of_found (s := Builtin.specs[10]) (e := e) ?_ rfl (by rw [he]; decide)
      fun call setting _ => ?_
    · rw [h] at hplain ⊢
      simp [Builtin.table, firstFound?, Builtin.specs, Builtin.finders, TokenSpec.applies,
        TokenScope.admits, hplain]
    · show Agrees _ _ _ (Builtin.openPlain _ _)
      simp only [Builtin.openPlain]
      by_cases hn : r.flags.contains 'n' = true
      · rw [if_pos hn, if_pos hn]
        exact agrees_write _ _ _
      · rw [if_neg hn, if_neg hn]
        exact ⟨.opens none, rfl, rfl, rfl, fun _ => rfl⟩
  | none =>
  cases hnamed : Trigger.openNamed p.ahead with
  | some e =>
    obtain ⟨before, w, rest, -, -, -, -, hlength, -⟩ := Trigger.of_openNamed hnamed
    refine handled_of_found (s := Builtin.specs[9]) (e := e) ?_ rfl (by omega)
      fun call setting hsetting => ?_
    · rw [h] at hplain hnamed ⊢
      simp [Builtin.table, firstFound?, Builtin.specs, Builtin.finders, TokenSpec.applies,
        TokenScope.admits, hplain, hnamed]
    · show Agrees _ _ _ (Builtin.openNamed _ _)
      simp only [Builtin.openNamed, Extent.text_captures, Extent.textOf_captures, hsetting]
      by_cases hdigits : (e.captured p.ahead).all Char.isDigit = true
      · rw [if_pos hdigits, if_pos hdigits]
        rfl
      rw [if_neg hdigits, if_neg hdigits]
      by_cases hguarded : (!r.namespacing && Builtin.guardedNames.contains (e.captured p.ahead)) = true
      · rw [if_pos hguarded, if_pos hguarded]
        rfl
      rw [if_neg hguarded, if_neg hguarded]
      by_cases htwice : (ledger.index? (e.captured p.ahead)).isSome = true
      · rw [if_pos htwice, if_pos htwice]
        rfl
      · rw [if_neg htwice, if_neg htwice]
        exact ⟨.opens (some _), rfl, rfl, rfl, fun _ => rfl⟩
  | none =>
  cases hcomment : Trigger.comment p.ahead with
  | some e =>
    obtain ⟨w, rest, -, -, he⟩ := Trigger.of_comment hcomment
    refine handled_of_found (s := Builtin.specs[4]) (e := e) ?_ rfl (by rw [he]; exact Nat.succ_pos _)
      fun call setting _ => ?_
    · rw [h] at hplain hnamed hcomment ⊢
      simp [Builtin.table, firstFound?, Builtin.specs, Builtin.finders, TokenSpec.applies,
        TokenScope.admits, hplain, hnamed, hcomment, hblank]
    · show Agrees _ _ _ (.ok (separator _ (e.captures p).whole.stop.ahead _, ledger))
      rw [Extent.stop_captures]
      exact agrees_write _ _ _
  | none =>
  cases hopen : Trigger.openComment p.ahead with
  | some e =>
    obtain ⟨ds, -, he⟩ := Trigger.of_openComment hopen
    refine handled_of_found (s := Builtin.specs[3]) (e := e) ?_ rfl (by rw [he]; decide)
      fun call setting _ => ?_
    · rw [h] at hplain hnamed hcomment hopen ⊢
      simp [Builtin.table, firstFound?, Builtin.specs, Builtin.finders, TokenSpec.applies,
        TokenScope.admits, hplain, hnamed, hcomment, hopen, hblank]
    · rfl
  | none =>
    refine handled_of_none ?_
    rw [h] at hplain hnamed hcomment hopen ⊢
    simp [Builtin.table, firstFound?, Builtin.specs, Builtin.finders, TokenSpec.applies,
      TokenScope.admits, hplain, hnamed, hcomment, hopen, hblank]

theorem handled_bareClass {cs : Text} (h : p.ahead = '[' :: cs) :
    Handled r p .pattern ledger (bareClass p.ahead) := by
  have hblank : Trigger.blank ('[' :: cs) = none := rfl
  unfold bareClass
  cases hbare : Trigger.bareClass p.ahead with
  | some e =>
    have hpos : 0 < e.length := by
      rcases Trigger.of_bareClass hbare with ⟨ds, -, he⟩ | ⟨ds, -, he⟩ <;> rw [he] <;> decide
    refine handled_of_found (s := Builtin.specs[2]) (e := e) ?_ rfl hpos fun call setting _ => ?_
    · rw [h] at hbare ⊢
      simp [Builtin.table, firstFound?, Builtin.specs, Builtin.finders, TokenSpec.applies,
        TokenScope.admits, hbare, hblank]
    · show Agrees _ _ _ (Builtin.bareClass _ _)
      simp only [Builtin.bareClass, Extent.textOf_captures]
      by_cases hempty : e.captured p.ahead = []
      · rw [if_pos hempty, if_pos hempty]
        exact agrees_write _ _ _
      · rw [if_neg hempty, if_neg hempty]
        exact agrees_write _ _ _
  | none =>
    refine handled_of_none ?_
    rw [h] at hbare ⊢
    simp [Builtin.table, firstFound?, Builtin.specs, Builtin.finders, TokenSpec.applies,
      TokenScope.admits, hbare, hblank]

theorem handled_dot {cs : Text} (h : p.ahead = '.' :: cs) :
    Handled r p .pattern ledger (r.dot p.ahead) := by
  have hblank : Trigger.blank ('.' :: cs) = none := rfl
  have hdot : Trigger.dot p.ahead = some ⟨1, none⟩ := by rw [h]; rfl
  unfold dot
  by_cases hs : r.flags.contains 's' = true
  · rw [if_pos hs, hdot]
    refine handled_of_found (s := Builtin.specs[6]) (e := ⟨1, none⟩) ?_ rfl Nat.one_pos
      fun call setting _ => agrees_write _ _ _
    rw [h] at hdot ⊢
    have hmem : 's' ∈ r.flags := by simpa using hs
    simp [Builtin.table, firstFound?, Builtin.specs, Builtin.finders, TokenSpec.applies,
      TokenScope.admits, hdot, hmem]
  · rw [if_neg hs]
    refine handled_of_none ?_
    rw [h]
    have hmem : 's' ∉ r.flags := by simpa using hs
    simp [Builtin.table, firstFound?, Builtin.specs, Builtin.finders, TokenSpec.applies,
      TokenScope.admits, hblank, hmem]

theorem handled_blank (hescape : p.ahead.head? ≠ some '\\') (hparen : p.ahead.head? ≠ some '(')
    (hclass : p.ahead.head? ≠ some '[') (hdot : p.ahead.head? ≠ some '.') :
    Handled r p .pattern ledger (r.blank p.behind p.ahead) := by
  unfold blank
  by_cases hx : r.flags.contains 'x' = true
  · have hmem : 'x' ∈ r.flags := by simpa using hx
    rw [if_pos hx]
    cases hblank : Trigger.blank p.ahead with
    | some e =>
      refine handled_of_found (s := Builtin.specs[5]) (e := e) ?_ rfl (Trigger.of_blank hblank).1
        fun call setting _ => ?_
      · simp [Builtin.table, firstFound?, Builtin.specs, Builtin.finders, TokenSpec.applies,
          TokenScope.admits, hblank, hmem, hescape.symm, hparen.symm, hdot.symm]
      · show Agrees _ _ _ (.ok (separator _ (e.captures p).whole.stop.ahead _, ledger))
        rw [Extent.stop_captures]
        exact agrees_write _ _ _
    | none =>
      refine handled_of_none ?_
      simp [Builtin.table, firstFound?, Builtin.specs, Builtin.finders, TokenSpec.applies,
        TokenScope.admits, hblank, hescape.symm, hparen.symm, hclass.symm, hdot.symm]
  · have hmem : 'x' ∉ r.flags := by simpa using hx
    rw [if_neg hx]
    refine handled_of_none ?_
    simp [Builtin.table, firstFound?, Builtin.specs, Builtin.finders, TokenSpec.applies,
      TokenScope.admits, hmem, hescape.symm, hparen.symm, hclass.symm, hdot.symm]

/-- **What the reader makes of a text is what the built-in tokens make of it.** -/
theorem handled_token? (r : Reader) (p : Place) (scope : Scope) (ledger : Ledger) :
    Handled r p scope ledger (r.token? scope ledger p.behind p.ahead) := by
  unfold token?
  by_cases hescape : p.ahead.head? = some '\\'
  · obtain ⟨cs, hcs⟩ := List.head?_eq_some_iff.1 hescape
    rw [if_pos hescape]
    exact handled_escape hcs
  rw [if_neg hescape]
  cases scope with
  | charClass =>
    refine handled_of_none ?_
    simp [Builtin.table, firstFound?, Builtin.specs, Builtin.finders, TokenSpec.applies,
      TokenScope.admits, Ne.symm hescape]
  | pattern =>
    simp only
    by_cases hparen : p.ahead.head? = some '('
    · obtain ⟨cs, hcs⟩ := List.head?_eq_some_iff.1 hparen
      rw [if_pos hparen]
      exact handled_parenthesis hcs
    rw [if_neg hparen]
    by_cases hclass : p.ahead.head? = some '['
    · obtain ⟨cs, hcs⟩ := List.head?_eq_some_iff.1 hclass
      rw [if_pos hclass]
      exact handled_bareClass hcs
    rw [if_neg hclass]
    by_cases hdot : p.ahead.head? = some '.'
    · obtain ⟨cs, hcs⟩ := List.head?_eq_some_iff.1 hdot
      rw [if_pos hdot]
      exact handled_dot hcs
    · rw [if_neg hdot]
      exact handled_blank hescape hparen hclass hdot

/-! ## 4. Runs -/

theorem readFrom_skip (r : Reader) (scope : Scope) (ledger : Ledger) : ∀ (k : Nat) (p : Place),
    r.readFrom k scope ledger p.behind p.ahead =
      r.readFrom 0 scope ledger (p.advance k).behind (p.advance k).ahead
  | 0, _ => rfl
  | k + 1, p => by
      cases hp : p.next? with
      | none =>
        have hend : p.ahead = [] := by simpa [Place.atEnd] using (Place.next?_eq_none_iff p).1 hp
        simp only [Place.advance, hp, hend]
        rfl
      | some next =>
        obtain ⟨c, q⟩ := next
        obtain ⟨hahead, hbehind, -⟩ := Place.next?_eq_some hp
        simp only [Place.advance, hp]
        rw [hahead, ← readFrom_skip r scope ledger k q, hbehind]
        rfl

/-- The setting of a run with the built-in tokens. -/
structure Sets (r : Reader) (s : RunSetting) : Prop where
  tokens : s.tokens = Dialect.initial.tokens
  flags : s.flags = r.flags

/-- The run after a piece of `n` characters. -/
def after (x : Run) (piece : Segment) (n : Nat) (memory : Memory) : Run where
  place := x.place.advance n
  scope := piece.scopeAfter x.scope
  rounds := 0
  output := piece.text :: x.output
  ledger := piece.enter x.ledger
  features := x.features
  memory := memory

variable {s : RunSetting}

/-- A step of a run takes the piece that the reader finds. -/
theorem step_segment (hs : r.Sets s) {x : Run} (hx : x.features.namespacing = r.namespacing)
    (hend : x.place.ahead ≠ []) :
    match r.segment x.scope x.ledger x.place.behind x.place.ahead with
    | .ok (piece, n) => 0 < n ∧ ∃ memory, x.step s = .running (after x piece n memory)
    | .error e => ∃ memory, x.step s = .failed e memory := by
  have hatEnd : x.place.atEnd = false := by simpa [Place.atEnd] using hend
  have hfirst := firstToken?_works Dialect.initial_tokens x.place x.scope r.flags
  have hhandled := handled_token? r x.place x.scope x.ledger
  unfold segment Run.step
  rw [hs.tokens, hs.flags]
  simp only [hatEnd, and_false, if_false, Bool.false_eq_true]
  cases hfound : firstFound? Builtin.table x.scope r.flags x.place.ahead with
  | none =>
    have hnone := hhandled 0 ⟨x.features, x.memory.properties⟩ hx
    rw [hfound] at hfirst hnone
    simp only at hfirst hnone
    rw [hnone, hfirst]
    obtain ⟨c, cs, hcs⟩ := List.exists_cons_of_ne_nil hend
    refine ⟨by rw [hcs]; exact verbatimLength_pos _ _ _, x.memory, rfl⟩
  | some f =>
    obtain ⟨spec, e⟩ := f
    rw [hfound] at hfirst
    obtain ⟨token, htoken, hhandler, hreparse⟩ := hfirst
    have hagrees := hhandled (x.memory.tally.count token.serial).1
      ⟨x.features, x.memory.properties⟩ hx
    rw [hfound] at hagrees
    obtain ⟨hfinal, hpos, hagrees⟩ := hagrees
    have hswitch := Dialect.switch_of_mem_initial (mem_of_firstToken? htoken).1
    rw [htoken]
    simp only [hhandler]
    cases hanswer : spec.handler ⟨e.captures x.place, x.scope, r.flags,
        (x.memory.tally.count token.serial).1, ⟨x.features, x.memory.properties⟩⟩ x.ledger with
    | error err =>
      rw [hanswer] at hagrees
      rw [hagrees]
      exact ⟨_, rfl⟩
    | ok written =>
      obtain ⟨text, ledger'⟩ := written
      rw [hanswer] at hagrees
      obtain ⟨piece, hpiece, htext, henter, hscope⟩ := hagrees
      rw [hpiece]
      refine ⟨hpos, ?_⟩
      have hlength : 0 < x.place.ahead.length := List.length_pos_iff.2 hend
      have hnonempty : (e.captures x.place).whole.isEmpty = false := by
        have hindex := Extent.index_advance_min e.length x.place
        simp only [Span.isEmpty, Extent.captures, Extent.found, hindex]
        rw [beq_eq_false_iff_ne]
        omega
      simp only [Run.accept, hreparse, hfinal, Bool.false_eq_true, if_false, hnonempty, Run.write,
        after, htext, henter, hscope, hswitch]
      exact ⟨_, rfl⟩

/-- **A run with the built-in tokens writes what the reader reads.** -/
theorem steps_read (hs : r.Sets s) : ∀ (limit : Nat) (x : Run),
    x.features.namespacing = r.namespacing → x.rounds = 0 → x.place.ahead.length < limit →
    match r.readFrom 0 x.scope x.ledger x.place.behind x.place.ahead with
    | .ok pieces => ∃ y, x.steps s limit = .finished y ∧
        y.output = (pieces.map Segment.text).reverse ++ x.output ∧
        y.ledger = pieces.foldl Segment.enter x.ledger
    | .error e => ∃ memory, x.steps s limit = .failed e memory
  | 0, _, _, _, h => absurd h (Nat.not_lt_zero _)
  | limit + 1, x, hx, hrounds, h => by
      cases hahead : x.place.ahead with
      | nil =>
        have hstep : x.step s = .finished x := by
          unfold Run.step
          rw [if_pos ⟨hrounds, by simp [Place.atEnd, hahead]⟩]
        refine ⟨x, ?_, rfl, rfl⟩
        unfold Run.steps
        rw [hstep]
      | cons c cs =>
        have hstep := step_segment hs hx (by rw [hahead]; exact List.cons_ne_nil c cs)
        rw [hahead] at hstep
        unfold readFrom Run.steps
        cases hsegment : r.segment x.scope x.ledger x.place.behind (c :: cs) with
        | error e =>
          rw [hsegment] at hstep
          obtain ⟨memory, hmemory⟩ := hstep
          rw [hmemory]
          exact ⟨memory, rfl⟩
        | ok found =>
          obtain ⟨piece, n⟩ := found
          rw [hsegment] at hstep
          obtain ⟨hpos, memory, hmemory⟩ := hstep
          rw [hmemory]
          obtain ⟨k, rfl⟩ := Nat.exists_eq_add_of_lt hpos
          have hlength : 0 < x.place.ahead.length := by
            rw [hahead]
            exact Nat.succ_pos _
          have hshort : (after x piece (0 + k + 1) memory).place.ahead.length < limit := by
            simp only [after, Place.ahead_advance, List.length_drop]
            omega
          have ih := steps_read hs limit (after x piece (0 + k + 1) memory) hx rfl hshort
          have hskip := readFrom_skip r (piece.scopeAfter x.scope) (piece.enter x.ledger)
            (0 + k + 1) x.place
          simp only [after] at ih
          rw [← hskip, hahead] at ih
          simp only [Nat.add_sub_cancel]
          have hunfold : r.readFrom (0 + k + 1) (piece.scopeAfter x.scope) (piece.enter x.ledger)
              x.place.behind (c :: cs) = r.readFrom (0 + k) (piece.scopeAfter x.scope)
                (piece.enter x.ledger) (c :: x.place.behind) cs := rfl
          rw [hunfold] at ih
          cases hread : r.readFrom (0 + k) (piece.scopeAfter x.scope) (piece.enter x.ledger)
              (c :: x.place.behind) cs with
          | error e =>
            rw [hread] at ih
            exact ih
          | ok pieces =>
            rw [hread] at ih
            obtain ⟨y, hy, houtput, hledger⟩ := ih
            refine ⟨y, hy, ?_, hledger⟩
            rw [houtput]
            simp

/-- A piece takes a character at least. -/
theorem segment_pos {behind t : Text} {piece : Segment} {n : Nat}
    (h : r.segment scope ledger behind t = .ok (piece, n)) (ht : t ≠ []) : 0 < n := by
  have hstep := step_segment (r := r) (s := ⟨Dialect.initial.tokens, r.flags⟩)
    (x := ⟨.between behind t, scope, 0, [], ledger, ⟨false, r.namespacing⟩, ⟨#[], .empty⟩⟩)
    ⟨rfl, rfl⟩ rfl ht
  change (match r.segment scope ledger behind t with | .ok (_, _) => _ | .error _ => _) at hstep
  rw [h] at hstep
  exact hstep.1

/-- How a text is read, piece by piece. -/
inductive Reads (r : Reader) : Scope → Ledger → (behind : Text) → Text → List Segment → Prop where
  | nil {scope : Scope} {ledger : Ledger} {behind : Text} : Reads r scope ledger behind [] []
  | cons {scope : Scope} {ledger : Ledger} {behind t : Text} {piece : Segment} {n : Nat}
      {pieces : List Segment} (nonempty : t ≠ []) (pos : 0 < n)
      (first : r.segment scope ledger behind t = .ok (piece, n))
      (rest : Reads r (piece.scopeAfter scope) (piece.enter ledger) ((t.take n).reverse ++ behind)
        (t.drop n) pieces) : Reads r scope ledger behind t (piece :: pieces)

theorem reads_of_readFrom (r : Reader) : ∀ (limit : Nat) (scope : Scope) (ledger : Ledger)
    (behind t : Text) (pieces : List Segment), t.length ≤ limit →
    r.readFrom 0 scope ledger behind t = .ok pieces → r.Reads scope ledger behind t pieces
  | _, _, _, _, [], pieces, _, h => by
      cases h
      exact .nil
  | 0, _, _, _, _ :: _, _, hlimit, _ => absurd hlimit (Nat.not_succ_le_zero _)
  | limit + 1, scope, ledger, behind, c :: cs, pieces, hlimit, h => by
      unfold readFrom at h
      cases hsegment : r.segment scope ledger behind (c :: cs) with
      | error e => rw [hsegment] at h; cases h
      | ok found =>
        obtain ⟨piece, n⟩ := found
        have hpos := segment_pos hsegment (List.cons_ne_nil c cs)
        rw [hsegment] at h
        obtain ⟨k, rfl⟩ := Nat.exists_eq_add_of_lt hpos
        have hskip := readFrom_skip r (piece.scopeAfter scope) (piece.enter ledger) (0 + k + 1)
          (.between behind (c :: cs))
        rw [Place.behind_advance, Place.ahead_advance] at hskip
        simp only at h
        cases hread : r.readFrom (0 + k + 1 - 1) (piece.scopeAfter scope) (piece.enter ledger)
            (c :: behind) cs with
        | error e => rw [hread] at h; cases h
        | ok rest =>
          rw [hread] at h
          cases h
          refine .cons (List.cons_ne_nil c cs) hpos hsegment ?_
          refine reads_of_readFrom r limit _ _ _ _ rest ?_ (hskip.symm.trans hread)
          simp only [List.length_drop]
          simp only [List.length_cons] at hlimit ⊢
          omega

theorem reads_of_read {r : Reader} {t : Text} {pieces : List Segment}
    (h : r.read t = .ok pieces) : r.Reads .pattern .empty [] t pieces :=
  reads_of_readFrom r t.length _ _ _ _ _ (Nat.le_refl _) h

/-- The names that groups were written with, in the order in which the groups open. -/
def names (pieces : List Segment) : List (Option Text) :=
  pieces.filterMap fun
    | .opens name => some name
    | _ => none

/-- What is written for the pieces of a pattern. -/
def render (pieces : List Segment) : Text := pieces.flatMap Segment.text

theorem names_foldl_enter : ∀ (pieces : List Segment) (ledger : Ledger),
    (pieces.foldl Segment.enter ledger).names.toList = ledger.names.toList ++ names pieces
  | [], ledger => by simp [names]
  | piece :: pieces, ledger => by
      rw [List.foldl_cons, names_foldl_enter pieces]
      cases piece <;> simp [Segment.enter, Ledger.push, names]

/-- The native flags of an expansion. -/
def nativeFlags (flags : Text) : NativeFlags :=
  let f := NativeFlags.ofText flags
  { f with unicode := f.unicode || flags.contains 'A' }

/-- **The expansion of a pattern with the built-in tokens.** -/
theorem expand_initial (features : Features) (prepared : Prepared) (memory : Memory) :
    (expand Dialect.initial.tokens features prepared memory).1 =
      ((⟨prepared.flags, features.namespacing⟩ : Reader).read prepared.pattern).map fun pieces =>
        { pattern := mergeEmptyGroups (render pieces)
          flags := nativeFlags prepared.flags
          names := if (names pieces).any Option.isSome then some (names pieces) else none } := by
  have h := steps_read (r := ⟨prepared.flags, features.namespacing⟩)
    (s := ⟨Dialect.initial.tokens, prepared.flags⟩) ⟨rfl, rfl⟩ (prepared.pattern.length + 1)
    (.initial prepared.pattern features memory) rfl rfl (Nat.lt_succ_self _)
  unfold expand read
  change (match Reader.readFrom ⟨prepared.flags, features.namespacing⟩ 0 .pattern .empty []
    prepared.pattern with | .ok pieces => _ | .error e => _) at h
  cases hread : Reader.readFrom ⟨prepared.flags, features.namespacing⟩ 0 .pattern .empty []
      prepared.pattern with
  | error e =>
    rw [hread] at h
    obtain ⟨m, hm⟩ := h
    rw [Run.finish?_of_failed hm]
    rfl
  | ok pieces =>
    rw [hread] at h
    obtain ⟨y, hy, houtput, hledger⟩ := h
    rw [Run.finish?_of_finished hy]
    have hnames : y.ledger.names.toList = names pieces := by
      rw [hledger, names_foldl_enter]
      rfl
    simp only [Except.map, Run.expansion, houtput, Run.initial, List.append_nil,
      List.reverse_reverse, Ledger.groupNames?, Ledger.hasNamed, hnames, ← Array.any_toList,
      render, nativeFlags, List.flatMap]

end Reader

end ExtensibleRegex
