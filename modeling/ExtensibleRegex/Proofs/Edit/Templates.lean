import ExtensibleRegex.Edit.Template
import ExtensibleRegex.Proofs.Native.Fragments
import ExtensibleRegex.Proofs.Native.Spans
import ExtensibleRegex.Proofs.Results
import ExtensibleRegex.Proofs.Text.Digits
import Mathlib.Data.List.TakeWhile
import Mathlib.Tactic

/-!
# The grammar of templates

A template is read by a scanner that decides at each dollar how much of the text behind it belongs to
its token. This file says what it accepts without saying how it reads, and what a token stands for by
the text that was searched and the offsets of the match:

* `GroupText` cuts what a group stands for out of the text, `Refers` says what group a name between
  brackets is for, `IsToken` what can stand behind a dollar and which text it stands for, and `Expands`
  derives a text from a template, character by character and token by token;
* behind a dollar the scanner takes one token, no more and no less (`token_of_isToken`,
  `isToken_of_token`);
* so a template expands to a text if and only if the text derives from it, and a text whose dollars are
  written twice expands to the text (`expand_grammar`).
-/

namespace ExtensibleRegex

namespace Template

/-! ## 1. The grammar -/

/-- What a group of a match stands for: what the text holds between the offsets of the match for
group 0, and between those of the group for another one; and nothing for a group that took no part. -/
inductive GroupText (text : Text) (c : Captures) : Nat → Text → Prop
  | whole {value : Text}
      (held : slice? text c.whole.start.offset c.whole.stop.offset = some value) :
      GroupText text c 0 value
  | set {i : Nat} {s : Span} (took_part : c.groups[i]? = some (some s)) {value : Text}
      (held : slice? text s.start.offset s.stop.offset = some value) : GroupText text c (i + 1) value
  | unset {i : Nat} (no_part : ∀ s, c.groups[i]? ≠ some (some s)) : GroupText text c (i + 1) []

/-- The group that a name between brackets is for, out of `count` groups: the one with that number, if
there are that many, and else the first one with that name. -/
inductive Refers (names : Option GroupNames) (count : Nat) (name : Text) : Nat → Prop
  | number (isDigit : ∀ d ∈ name, d.isDigit = true) (le : Nat.ofDigitChars 10 name 0 ≤ count) :
      Refers names count name (Nat.ofDigitChars 10 name 0)
  | named (other : ¬((∀ d ∈ name, d.isDigit = true) ∧ Nat.ofDigitChars 10 name 0 ≤ count))
      {listed : GroupNames} (has_names : names = some listed) {i : Nat}
      (at_index : listed[i]? = some (some name)) (first : ∀ j < i, listed[j]? ≠ some (some name)) :
      Refers names count name (i + 1)

/-- The two kinds of brackets around a name. -/
def IsBrackets (opening closing : Char) : Prop :=
  opening = '{' ∧ closing = '}' ∨ opening = '<' ∧ closing = '>'

/-- A dollar before `written` begins a token that ends before the text `next`, and the token stands for
`value`, for the match `c` of a regex with the names `names` in `text`. -/
inductive IsToken (text : Text) (names : Option GroupNames) (c : Captures) :
    (written next value : Text) → Prop
  | dollar (next : Text) : IsToken text names c ['$'] next ['$']
  | whole (next : Text) {value : Text}
      (held : slice? text c.whole.start.offset c.whole.stop.offset = some value) :
      IsToken text names c ['&'] next value
  | before (next : Text) {value : Text} (held : slice? text 0 c.whole.start.offset = some value) :
      IsToken text names c ['`'] next value
  | after (next : Text) {value : Text} (held : sliceFrom? text c.whole.stop.offset = some value) :
      IsToken text names c ['\''] next value
  /-- One digit or two, and two wherever two digits stand. -/
  | number {digits next : Text} (isDigit : ∀ d ∈ digits, d.isDigit = true)
      (length : digits.length = 2 ∨ digits.length = 1 ∧ next.head?.any Char.isDigit = false)
      (le : Nat.ofDigitChars 10 digits 0 ≤ c.groups.length) {value : Text}
      (held : GroupText text c (Nat.ofDigitChars 10 digits 0) value) :
      IsToken text names c digits next value
  | bracketed {opening closing : Char} (brackets : IsBrackets opening closing) {name : Text}
      (ne_nil : name ≠ []) (nameChars : ∀ d ∈ name, d.isAlphanum = true ∨ d = '_' ∨ d = '$')
      (next : Text) {n : Nat} (refers : Refers names c.groups.length name n) {value : Text}
      (held : GroupText text c n value) :
      IsToken text names c (opening :: (name ++ [closing])) next value

/-- A template, read from left to right, consists of characters other than a dollar and of tokens, and
possibly a lone dollar at its very end; the output is what they stand for, one after another. -/
inductive Expands (text : Text) (names : Option GroupNames) (c : Captures) :
    (template output : Text) → Prop
  | nil : Expands text names c [] []
  | lone : Expands text names c ['$'] ['$']
  | verbatim {x : Char} (ne : x ≠ '$') {template output : Text}
      (rest : Expands text names c template output) :
      Expands text names c (x :: template) (x :: output)
  | token {written template value output : Text} (first : IsToken text names c written template value)
      (rest : Expands text names c template output) :
      Expands text names c ('$' :: (written ++ template)) (value ++ output)

/-- A text with every dollar written twice. -/
def doubled (t : Text) : Text := t.flatMap fun x => if x = '$' then ['$', '$'] else [x]

variable {text : Text} {c : Captures}

/-! ## 2. What a group stands for -/

theorem groupText_group_iff (h : ∀ s, some s ∈ c.groups → s.LiesIn text) {i : Nat} {value : Text} :
    GroupText text c (i + 1) value ↔ c.textOf (i + 1) = value := by
  have hget : c.get? (i + 1) = c.groups[i]?.join := rfl
  unfold Captures.textOf
  rw [hget]
  constructor
  · rintro (_ | ⟨htook, hheld⟩ | hno)
    · rw [htook]
      rw [(h _ (List.mem_of_getElem? htook)).slice?] at hheld
      exact Option.some.inj hheld
    · have hnone : c.groups[i]?.join = none :=
        Option.eq_none_iff_forall_ne_some.2 fun s hs => hno s (Option.join_eq_some_iff.1 hs)
      rw [hnone]
  · rintro rfl
    cases hs : c.groups[i]?.join with
    | none =>
      refine .unset fun s htook => ?_
      rw [htook] at hs
      cases hs
    | some s =>
      have htook := Option.join_eq_some_iff.1 hs
      exact .set htook (h s (List.mem_of_getElem? htook)).slice?

/-- **By its offsets, a group stands for its text.** -/
theorem groupText_iff (h : c.LiesIn text) : ∀ {n : Nat} {value : Text},
    GroupText text c n value ↔ c.textOf n = value
  | 0, value => by
      have hwhole : GroupText text c 0 value ↔
          slice? text c.whole.start.offset c.whole.stop.offset = some value :=
        ⟨fun | .whole held => held, .whole⟩
      rw [hwhole, h.whole.slice?, Option.some_inj]
      rfl
  | _ + 1, _ => groupText_group_iff h.groups

/-! ## 3. Names between brackets -/

theorem isNameChar_iff {d : Char} : isNameChar d = true ↔ d.isAlphanum = true ∨ d = '_' ∨ d = '$' := by
  rw [isNameChar, Bool.or_eq_true, Bool.or_eq_true, beq_iff_eq, beq_iff_eq, or_assoc]

theorem index?_eq_some_iff {names : GroupNames} {name : Text} {n : Nat} :
    names.index? name = some n ↔
      ∃ i, n = i + 1 ∧ names[i]? = some (some name) ∧ ∀ j < i, names[j]? ≠ some (some name) := by
  have hget {j : Nat} (hj : j < names.length) :
      (names[j] == some name) = true ↔ names[j]? = some (some name) := by
    rw [List.getElem?_eq_getElem hj, beq_iff_eq, Option.some_inj]
  unfold GroupNames.index?
  rw [Option.map_eq_some_iff]
  constructor
  · rintro ⟨i, hi, rfl⟩
    obtain ⟨hlt, hat, hfirst⟩ := List.findIdx?_eq_some_iff_getElem.1 hi
    refine ⟨i, rfl, (hget hlt).1 hat, fun j hj h => ?_⟩
    exact hfirst j hj ((hget (hj.trans hlt)).2 h)
  · rintro ⟨i, rfl, hat, hfirst⟩
    obtain ⟨hlt, -⟩ := List.getElem?_eq_some_iff.1 hat
    refine ⟨i, List.findIdx?_eq_some_iff_getElem.2 ⟨hlt, (hget hlt).2 hat, fun j hj h => ?_⟩, rfl⟩
    exact hfirst j hj ((hget (hj.trans hlt)).1 h)

/-- **A name between brackets is looked up as a number first.** -/
theorem resolve?_eq_some_iff {name : Text} {n : Nat} :
    resolve? c name = some n ↔ Refers c.names c.groups.length name n := by
  have hnumber : (name.all Char.isDigit && readDigits 10 name ≤ c.groups.length) = true ↔
      (∀ d ∈ name, d.isDigit = true) ∧ Nat.ofDigitChars 10 name 0 ≤ c.groups.length := by
    rw [Bool.and_eq_true, List.all_eq_true, decide_eq_true_eq]
    exact and_congr_right fun hdigits => by rw [readDigits_eq_ofDigitChars hdigits]
  unfold resolve?
  split
  · rename_i h
    obtain ⟨hdigits, hle⟩ := hnumber.1 h
    rw [readDigits_eq_ofDigitChars hdigits]
    constructor
    · rintro ⟨⟩
      exact .number hdigits hle
    · rintro (_ | ⟨other⟩)
      · rfl
      · exact absurd ⟨hdigits, hle⟩ other
  · rename_i h
    have hother := mt hnumber.2 h
    rw [Captures.indexOf?, Option.bind_eq_some_iff]
    constructor
    · rintro ⟨listed, hnames, hindex⟩
      obtain ⟨i, rfl, hat, hfirst⟩ := index?_eq_some_iff.1 hindex
      exact .named hother hnames hat hfirst
    · rintro (⟨isDigit, le⟩ | ⟨-, hnames, hat, hfirst⟩)
      · exact absurd ⟨isDigit, le⟩ hother
      · exact ⟨_, hnames, index?_eq_some_iff.2 ⟨_, rfl, hat, hfirst⟩⟩

/-- A name between brackets at the start of a text, up to the first bracket that closes it. -/
theorem bracketed?_eq_some_iff {rest : Text} {p : Piece} :
    bracketed? rest = some p ↔ ∃ opening closing name next, IsBrackets opening closing ∧ name ≠ [] ∧
      (∀ d ∈ name, isNameChar d = true) ∧ rest = opening :: (name ++ closing :: next) ∧
      p = .bracketed name (opening :: (name ++ [closing])) := by
  -- one kind of brackets
  have hread (opening closing : Char) (hclosing : isNameChar closing = false) (body : Text) :
      ((if body.takeWhile isNameChar ≠ [] ∧
          (body.drop (body.takeWhile isNameChar).length).head? = some closing then
        some (Piece.bracketed (body.takeWhile isNameChar)
          (opening :: body.takeWhile isNameChar ++ [closing])) else none) = some p) ↔
      ∃ name next, name ≠ [] ∧ (∀ d ∈ name, isNameChar d = true) ∧ body = name ++ closing :: next ∧
        p = .bracketed name (opening :: (name ++ [closing])) := by
    constructor
    · intro h
      split at h
      · rename_i hcond
        obtain ⟨next, hnext⟩ := List.head?_eq_some_iff.1 hcond.2
        refine ⟨_, next, hcond.1, List.all_eq_true.1 List.all_takeWhile, ?_, (Option.some.inj h).symm⟩
        rw [← hnext]
        exact Native.takeWhile_append_drop isNameChar body
      · cases h
    · rintro ⟨name, next, hne, hname, rfl, rfl⟩
      have htake : (name ++ closing :: next).takeWhile isNameChar = name := by
        rw [List.takeWhile_append_of_pos hname, List.takeWhile_cons_of_neg (by simp [hclosing]),
          List.append_nil]
      rw [htake, List.drop_left, if_pos ⟨hne, rfl⟩]
      rfl
  constructor
  · intro h
    unfold bracketed? at h
    simp only at h
    split at h
    · obtain ⟨name, next, hne, hname, rfl, rfl⟩ := (hread '{' '}' rfl _).1 h
      exact ⟨_, _, name, next, .inl ⟨rfl, rfl⟩, hne, hname, rfl, rfl⟩
    · obtain ⟨name, next, hne, hname, rfl, rfl⟩ := (hread '<' '>' rfl _).1 h
      exact ⟨_, _, name, next, .inr ⟨rfl, rfl⟩, hne, hname, rfl, rfl⟩
    · cases h
  · rintro ⟨opening, closing, name, next, hbrackets, hne, hname, rfl, rfl⟩
    rcases hbrackets with ⟨rfl, rfl⟩ | ⟨rfl, rfl⟩
    · exact (hread '{' '}' rfl _).2 ⟨name, next, hne, hname, rfl, rfl⟩
    · exact (hread '<' '>' rfl _).2 ⟨name, next, hne, hname, rfl, rfl⟩

theorem bracketed?_of_ne {x : Char} (hbrace : x ≠ '{') (hangle : x ≠ '<') (rest : Text) :
    bracketed? (x :: rest) = none := by
  rw [Option.eq_none_iff_forall_ne_some]
  intro p h
  obtain ⟨opening, closing, name, next, hbrackets, -, -, hrest, -⟩ := bracketed?_eq_some_iff.1 h
  obtain ⟨rfl, -⟩ := List.cons.inj hrest
  rcases hbrackets with ⟨h, -⟩ | ⟨h, -⟩
  · exact hbrace h
  · exact hangle h

/-! ## 4. One token -/

/-- The digits behind a dollar: the first two characters, or the first one if no digit follows. -/
def leadingDigits (rest : Text) : Text := (rest.take 2).takeWhile Char.isDigit

theorem leadingDigits_append {digits next : Text} (hdigits : ∀ d ∈ digits, d.isDigit = true)
    (hlength : digits.length = 2 ∨ digits.length = 1 ∧ next.head?.any Char.isDigit = false) :
    leadingDigits (digits ++ next) = digits := by
  unfold leadingDigits
  rcases hlength with htwo | ⟨hone, hnext⟩
  · rw [← htwo, List.take_left, List.takeWhile_eq_self_iff.2 hdigits]
  · obtain ⟨d, rfl⟩ := List.length_eq_one_iff.1 hone
    have hd := hdigits d List.mem_cons_self
    cases next with
    | nil => simp [hd]
    | cons e next =>
      have he : e.isDigit = false := hnext
      simp [hd, he]

theorem exists_of_leadingDigits {d : Char} (hd : d.isDigit = true) (ds : Text) :
    ∃ next, d :: ds = leadingDigits (d :: ds) ++ next ∧
      (∀ e ∈ leadingDigits (d :: ds), e.isDigit = true) ∧
      ((leadingDigits (d :: ds)).length = 2 ∨
        (leadingDigits (d :: ds)).length = 1 ∧ next.head?.any Char.isDigit = false) := by
  unfold leadingDigits
  cases ds with
  | nil => exact ⟨[], by simp [hd]⟩
  | cons e es =>
    by_cases he : e.isDigit = true
    · exact ⟨es, by simp [hd, he]⟩
    · exact ⟨e :: es, by simp [hd, he]⟩

theorem ne_of_isDigit {d x : Char} (hd : d.isDigit = true) (hx : x.isDigit = false) : d ≠ x := by
  rintro rfl
  rw [hd] at hx
  cases hx

theorem token_of_isDigit {d : Char} (hd : d.isDigit = true) (ds : Text) : token (d :: ds) =
    (.number (leadingDigits (d :: ds)), (leadingDigits (d :: ds)).length) := by
  have hne (x : Char) (hx : x.isDigit = false) := ne_of_isDigit hd hx
  have hnone := bracketed?_of_ne (hne '{' rfl) (hne '<' rfl) ds
  simp [token, hnone, hne '$' rfl, hne '&' rfl, hne '`' rfl, hne '\'' rfl, hd, leadingDigits]

theorem token_of_bracketed {rest name written : Text}
    (h : bracketed? rest = some (.bracketed name written)) :
    token rest = (.bracketed name written, written.length) := by
  unfold token
  rw [h]

/-- **The scanner takes a token as a whole.** -/
theorem token_of_isToken (h : c.LiesIn text) {written next value : Text}
    (htoken : IsToken text c.names c written next value) :
    ∃ p, token (written ++ next) = (p, written.length) ∧ p.expand c = .ok value := by
  cases htoken with
  | dollar => exact ⟨.dollar, rfl, rfl⟩
  | whole _ held =>
    rw [h.whole.slice?, Option.some_inj] at held
    exact ⟨.whole, rfl, congrArg Except.ok held⟩
  | before _ held =>
    rw [h.whole.slice?_before, Option.some_inj] at held
    exact ⟨.before, rfl, congrArg Except.ok held⟩
  | after _ held =>
    rw [h.whole.sliceFrom?_after, Option.some_inj] at held
    exact ⟨.after, rfl, congrArg Except.ok held⟩
  | number isDigit length le held =>
    rw [← readDigits_eq_ofDigitChars isDigit] at le held
    refine ⟨.number written, ?_, ?_⟩
    · obtain ⟨d, ds, rfl⟩ : ∃ d ds, written = d :: ds :=
        List.exists_cons_of_ne_nil fun hnil => by subst hnil; simp at length
      have hleading := leadingDigits_append isDigit length
      rw [List.cons_append] at hleading ⊢
      rw [token_of_isDigit (isDigit d List.mem_cons_self), hleading]
    · simp only [Piece.expand, if_pos le, (groupText_iff h).1 held]
  | @bracketed opening closing brackets name ne_nil nameChars _ n refers _ held =>
    have hbracketed : bracketed? (opening :: (name ++ [closing]) ++ next) =
        some (.bracketed name (opening :: (name ++ [closing]))) :=
      bracketed?_eq_some_iff.2 ⟨opening, closing, name, next, brackets, ne_nil,
        fun d hd => isNameChar_iff.2 (nameChars d hd), by simp, rfl⟩
    refine ⟨_, token_of_bracketed hbracketed, ?_⟩
    simp only [Piece.expand, resolve?_eq_some_iff.2 refers, (groupText_iff h).1 held]

/-- A token is cut off the front of a text: it takes `n` characters and stands for `value`. -/
def Taken (text : Text) (c : Captures) (rest : Text) (n : Nat) (value : Text) : Prop :=
  ∃ written next, rest = written ++ next ∧ n = written.length ∧
    IsToken text c.names c written next value

theorem Taken.single {x : Char} {rest value : Text} (h : IsToken text c.names c [x] rest value) :
    Taken text c (x :: rest) 1 value := ⟨[x], rest, rfl, rfl, h⟩

/-- **What the scanner takes is a token**, if the text behind the dollar goes on and there is a text for
the piece that was read. -/
theorem isToken_of_token (h : c.LiesIn text) {rest value : Text} (hne : rest ≠ [])
    (hexpand : (token rest).1.expand c = .ok value) : Taken text c rest (token rest).2 value := by
  cases hb : bracketed? rest with
  | some p =>
    obtain ⟨opening, closing, name, next, hbrackets, hname, hchars, rfl, rfl⟩ :=
      bracketed?_eq_some_iff.1 hb
    rw [token_of_bracketed hb] at hexpand ⊢
    simp only [Piece.expand] at hexpand
    split at hexpand
    · rename_i n hn
      cases hexpand
      exact ⟨opening :: (name ++ [closing]), next, by simp, rfl,
        .bracketed hbrackets hname (fun d hd => isNameChar_iff.1 (hchars d hd)) next
          (resolve?_eq_some_iff.1 hn) ((groupText_iff h).2 rfl)⟩
    · cases hexpand
  | none =>
    obtain ⟨x, xs, rfl⟩ := List.exists_cons_of_ne_nil hne
    by_cases hd : x.isDigit = true
    · rw [token_of_isDigit hd] at hexpand ⊢
      obtain ⟨next, hnext, hdigits, hlength⟩ := exists_of_leadingDigits hd xs
      simp only [Piece.expand] at hexpand
      split at hexpand
      · rename_i hle
        cases hexpand
        rw [readDigits_eq_ofDigitChars hdigits] at hle ⊢
        exact ⟨_, next, hnext, rfl, .number hdigits hlength hle ((groupText_iff h).2 rfl)⟩
      · cases hexpand
    · unfold token at hexpand ⊢
      simp only [hb] at hexpand ⊢
      split at hexpand
      · rename_i heq; cases heq
      · rename_i heq; cases heq; cases hexpand; exact .single (.dollar _)
      · rename_i heq; cases heq; cases hexpand; exact .single (.whole _ h.whole.slice?)
      · rename_i heq; cases heq; cases hexpand; exact .single (.before _ h.whole.slice?_before)
      · rename_i heq; cases heq; cases hexpand; exact .single (.after _ h.whole.sliceFrom?_after)
      · rename_i heq
        obtain ⟨rfl, -⟩ := List.cons.inj heq
        rw [if_neg hd] at hexpand
        cases hexpand

/-! ## 5. Whole templates -/

theorem readFrom_skip : ∀ (skip : Nat) (t : Text), readFrom skip t = read (t.drop skip)
  | 0, _ => rfl
  | _ + 1, [] => rfl
  | skip + 1, _ :: t => readFrom_skip skip t

theorem read_verbatim {x : Char} (hx : x ≠ '$') (t : Text) :
    read (x :: t) = .verbatim x :: read t := by
  simp [read, readFrom, hx]

theorem read_dollar (rest : Text) :
    read ('$' :: rest) = (token rest).1 :: read (rest.drop (token rest).2) := by
  rw [← readFrom_skip]
  rfl

/-- A template is expanded piece by piece. -/
theorem expand_of_read {t : Text} {p : Piece} {rest : Text} (h : read t = p :: read rest) {out : Text} :
    expand t c = .ok out ↔
      ∃ value text, p.expand c = .ok value ∧ expand rest c = .ok text ∧ out = value ++ text := by
  have hexpand (t' out' : Text) : expand t' c = .ok out' ↔
      ∃ texts, (read t').mapM (Piece.expand c) = .ok texts ∧ texts.flatten = out' := by
    unfold expand
    rw [bind_eq_ok]
    exact exists_congr fun texts => and_congr_right fun _ => by simp [pure, Except.pure]
  simp only [hexpand, h, List.mapM_cons, bind_eq_ok]
  constructor
  · rintro ⟨_, ⟨value, hvalue, texts, htexts, hall⟩, rfl⟩
    cases hall
    exact ⟨value, texts.flatten, hvalue, ⟨texts, htexts, rfl⟩, List.flatten_cons⟩
  · rintro ⟨value, _, hvalue, ⟨texts, htexts, rfl⟩, rfl⟩
    exact ⟨value :: texts, ⟨value, hvalue, texts, htexts, rfl⟩, List.flatten_cons⟩

/-- What derives from a template is what it expands to. -/
theorem Expands.expand_eq (h : c.LiesIn text) {t out : Text} (hexpands : Expands text c.names c t out) :
    expand t c = .ok out := by
  induction hexpands with
  | nil => rfl
  | lone => rfl
  | verbatim ne rest ih => exact (expand_of_read (read_verbatim ne _)).2 ⟨_, _, rfl, ih, rfl⟩
  | @token written next value output first rest ih =>
    obtain ⟨p, htoken, hp⟩ := token_of_isToken h first
    have hread := read_dollar (written ++ next)
    rw [htoken, List.drop_left] at hread
    exact (expand_of_read hread).2 ⟨value, output, hp, ih, rfl⟩

/-- What a template expands to derives from it. The induction is on the length: what is left behind a
token is shorter. -/
theorem expands_of_expand (h : c.LiesIn text) : ∀ {t out : Text}, expand t c = .ok out →
    Expands text c.names c t out
  | [], out, hexpand => by
      cases hexpand
      exact .nil
  | x :: rest, out, hexpand => by
      by_cases hx : x = '$'
      · subst hx
        obtain ⟨value, output, hvalue, houtput, rfl⟩ := (expand_of_read (read_dollar rest)).1 hexpand
        by_cases hne : rest = []
        · subst hne
          cases hvalue
          cases houtput
          exact .lone
        · obtain ⟨written, next, rfl, hlength, htoken⟩ := isToken_of_token h hne hvalue
          rw [hlength, List.drop_left] at houtput
          have hshorter : next.length < ('$' :: (written ++ next)).length := by
            rw [List.length_cons, List.length_append]
            omega
          exact .token htoken (expands_of_expand h houtput)
      · obtain ⟨value, output, hvalue, houtput, rfl⟩ :=
          (expand_of_read (read_verbatim hx rest)).1 hexpand
        cases hvalue
        exact .verbatim hx (expands_of_expand h houtput)
termination_by t => t.length

/-- A text with its dollars written twice is a template for the text. -/
theorem expands_doubled {names : Option GroupNames} : ∀ t : Text, Expands text names c (doubled t) t
  | [] => .nil
  | x :: t => by
      have hcons : doubled (x :: t) = (if x = '$' then ['$', '$'] else [x]) ++ doubled t :=
        List.flatMap_cons
      rw [hcons]
      by_cases hx : x = '$'
      · subst hx
        exact .token (.dollar (doubled t)) (expands_doubled t)
      · rw [if_neg hx]
        exact .verbatim hx (expands_doubled t)

/-- **A template expands to a text** if and only if the text derives from it, for every match of every
regex and every template. So every text is what some template expands to: the text with its dollars
written twice. -/
theorem expand_grammar {re : Regex} {p : Place} {sticky : Bool} {c : Captures}
    (h : re.searchAt? p sticky = some c) :
    (∀ t out, expand t c = .ok out ↔ Expands p.text re.names c t out) ∧
      ∀ t, expand (doubled t) c = .ok t := by
  have hlies := Regex.liesIn_of_searchAt? h
  have hnames : c.names = re.names := by
    obtain ⟨_, -, rfl⟩ := Option.map_eq_some_iff.1 h
    rfl
  rw [← hnames]
  exact ⟨fun _ _ => ⟨expands_of_expand hlies, Expands.expand_eq hlies⟩,
    fun t => (expands_doubled t).expand_eq hlies⟩

theorem expand_grammar_unset_group : ∃ re : Regex, ∃ c,
    Regex.native "(b)(c)?".toList [] = .ok re ∧
      { re with names := some [some ['n'], none] }.searchAt? (.first "aéb!".toList) false = some c ∧
      Expands "aéb!".toList (some [some ['n'], none]) c "$`-$<n>$2-$'$".toList "aé-b-!$".toList := by
  refine ⟨_, ?c, rfl, ?search, ((expand_grammar ?search).1 _ _).1 ?expand⟩
  case search => rfl
  case expand => rfl

end Template

end ExtensibleRegex
