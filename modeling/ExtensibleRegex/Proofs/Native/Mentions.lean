import ExtensibleRegex.Proofs.Native.Marks
import ExtensibleRegex.Proofs.Native.Releasing
import ExtensibleRegex.Proofs.Native.Words
import Mathlib.Tactic

/-!
# Where groups and numbers are written

The numbering of groups shows in a native pattern at two kinds of places: where a group opens, and
where a number refers to one. This file finds them in the text, and rewrites them there.

* `mentions` lists those places of a text; in a well-formed pattern they are those of the lexemes
  (`mentions_lexAll?`).
* A pattern can be given by `Chunk`s: texts that mention nothing, parentheses of groups, and numbers.
  `Fit` says that the chunks are those of the text that they are written as.
* When groups are given up, the parentheses of these are exchanged and all numbers are set anew, and
  the lexemes change in the same way (`lexAll?_released`).
-/

namespace ExtensibleRegex.Native

variable {strict named : Bool}

/-! ## 1. Mentions -/

/-- A place where the numbering of groups shows. -/
inductive Mention where
  /-- A capturing group opens, with or without a name. -/
  | opens (named : Bool)
  /-- A number after a backslash. -/
  | number (digits : Text)
  deriving DecidableEq, Repr

/-- What is mentioned where a text begins. -/
def mention? : Text → Option Mention
  | '(' :: t => if opensCapture t then some (.opens (t.head? == some '?')) else none
  | '\\' :: d :: t =>
    if d.isDigit && d != '0' then some (.number (d :: t.takeWhile Char.isDigit)) else none
  | _ => none

/-- What is mentioned from a spot on. -/
def mentions (s : Spot) (t : Text) : List Mention := (landmarks s t).filterMap mention?

/-- What a lexeme mentions. -/
def Lexeme.mention? : Lexeme → Option Mention
  | .opening (.capture name) => some (.opens name.isSome)
  | .decimal digits => some (.number digits)
  | _ => none

theorem scans_mentions : Scans mentions := by
  intro s c t h
  unfold mentions
  rw [scans_landmarks s c t h]

theorem mention?_of_not_landmark {c : Char} {t : Text} (h : isLandmark (c :: t) = false) :
    mention? (c :: t) = none := by
  unfold mention?
  split
  · rename_i heq
    cases heq
    simp [isLandmark] at h
  · rename_i d u heq
    cases heq
    have hu : d = 'u' := by simpa [isLandmark] using h
    rw [if_neg (by rw [hu]; decide)]
  · rfl

theorem mentions_cons (c : Char) (t : Text) : mentions .outside (c :: t) =
    (mention? (c :: t)).toList ++ mentions (Spot.outside.next c) t := by
  unfold mentions
  rw [landmarks_cons]
  cases hmark : isLandmark (c :: t) with
  | false =>
    rw [mention?_of_not_landmark hmark, if_neg (by simp)]
    rfl
  | true =>
    rw [if_pos ⟨rfl, rfl⟩, List.filterMap_append]
    cases hmention : mention? (c :: t) <;> simp [hmention]

/-- What a parenthesis mentions is the group that it opens. -/
theorem mention?_opening {cs : Text} {r : Opening × Nat} (h : opening? cs = some r) :
    mention? ('(' :: cs) = Lexeme.mention? (.opening r.1) := by
  have hmark := firstMark_opening? h
  unfold firstMark at hmark
  unfold mention?
  cases hopens : opensCapture cs with
  | true =>
    simp only [hopens, Bool.and_true, decide_true, if_true] at hmark ⊢
    cases hkind : r.1 with
    | capture name =>
      rw [hkind] at hmark
      have hname : (cs.head? == some '?') = name.isSome := by simpa [captureNames] using hmark
      rw [hname]
      rfl
    | plain add remove => simp [hkind, captureNames] at hmark
    | look behind negated => simp [hkind, captureNames] at hmark
  | false =>
    simp only [hopens, Bool.and_false, Bool.false_eq_true, if_false] at hmark ⊢
    cases hkind : r.1 with
    | capture name => simp [hkind, captureNames] at hmark
    | plain add remove => rfl
    | look behind negated => rfl

/-- What a backslash mentions is the number after it. -/
theorem mention?_escape {cs : Text} {r : Lexeme × Nat} (h : escape? strict named cs = some r) :
    mention? ('\\' :: cs) = r.1.mention? := by
  cases cs with
  | nil => cases h
  | cons d ds =>
    by_cases hd : d.isDigit = true ∧ d ≠ '0'
    · rw [escape?_of_isDigit hd.1 hd.2] at h
      cases h
      simp [mention?, Lexeme.mention?, hd.1, hd.2]
    · have hnone : mention? ('\\' :: d :: ds) = none := by
        simp only [mention?]
        rw [if_neg (by simpa using hd)]
      have hescape := isEscape_escape? h
      obtain ⟨l, n⟩ := r
      rw [hnone]
      cases l with
      | decimal digits =>
        obtain ⟨d', ds', heq, hdigit, hzero⟩ := escape?_eq_decimal h
        cases heq
        exact absurd ⟨hdigit, hzero⟩ hd
      | opening kind => cases hescape
      | _ => rfl

theorem mention?_quantifier {min : Nat} {max : Option Nat} {cs : Text} {n : Nat} {r : Lexeme × Nat}
    (h : quantifier? min max cs n = some r) : r.1.mention? = none := by
  unfold quantifier? at h
  split at h
  · split at h <;> cases h <;> rfl
  · cases h

/-- A lexeme mentions what its first character does. -/
theorem mention?_lexeme {c : Char} {cs : Text} {r : Lexeme × Nat}
    (h : lexeme? strict named c cs = some r) : mention? (c :: cs) = r.1.mention? := by
  have hother (hparen : c ≠ '(') (hescape : c ≠ '\\') (hr : r.1.mention? = none) :
      mention? (c :: cs) = r.1.mention? := by
    rw [hr]
    unfold mention?
    split
    · rename_i heq
      exact absurd (List.cons.inj heq).1 hparen
    · rename_i heq
      exact absurd (List.cons.inj heq).1 hescape
    · rfl
  unfold lexeme? at h
  split at h
  case h_6 =>
    obtain ⟨x, hx, rfl⟩ := Option.map_eq_some_iff.1 h
    exact mention?_opening hx
  case h_7 =>
    obtain ⟨negated, body, a, sets, -, -, -, rfl⟩ := class?_eq_some_iff.1 h
    exact hother (by decide) (by decide) rfl
  case h_8 => exact hother (by decide) (by decide) (mention?_quantifier h)
  case h_9 => exact hother (by decide) (by decide) (mention?_quantifier h)
  case h_10 => exact hother (by decide) (by decide) (mention?_quantifier h)
  case h_11 =>
    split at h
    · exact hother (by decide) (by decide) (mention?_quantifier h)
    · split at h <;> cases h
      exact hother (by decide) (by decide) rfl
  case h_12 =>
    split at h <;> cases h
    exact hother (by decide) (by decide) rfl
  case h_13 =>
    split at h <;> cases h
    exact hother (by decide) (by decide) rfl
  case h_14 => exact mention?_escape h
  case h_15 h1 h2 h3 h4 h5 h6 h7 h8 h9 h10 h11 h12 h13 h14 =>
    cases h
    exact hother h6 h14 rfl
  all_goals
    cases h
    exact hother (by decide) (by decide) rfl

/-- **The mentions of a text are those of its lexemes.** -/
theorem mentions_lexAll? : ∀ (skip : Nat) (cs : Text) (read ls : List Lexeme),
    lexAll? strict named skip cs read = some ls →
    ls.filterMap Lexeme.mention? =
      read.reverse.filterMap Lexeme.mention? ++ mentions .outside (cs.drop skip)
  | _, [], read, ls, h => by
      simp only [lexAll?, Option.some.injEq] at h
      simp [← h, mentions, landmarks]
  | skip + 1, _ :: cs, read, ls, h => by
      simp only [lexAll?] at h
      exact mentions_lexAll? skip cs read ls h
  | 0, c :: cs, read, ls, h => by
      simp only [lexAll?] at h
      cases hl : lexeme? strict named c cs with
      | none => rw [hl] at h; cases h
      | some r =>
        rw [hl] at h
        have ih := mentions_lexAll? r.2 cs (r.1 :: read) ls h
        rw [ih, List.drop_zero, mentions_cons, mention?_lexeme hl, scans_mentions.lexeme? hl,
          List.reverse_cons, List.filterMap_append, List.append_assoc]
        cases hmention : r.1.mention? <;> simp [hmention]

/-! ## 2. Chunks -/

/-- A part of a native pattern. -/
inductive Chunk where
  /-- A text that mentions nothing. -/
  | still (t : Text)
  /-- The parenthesis of a capturing group. -/
  | group
  /-- The number of a group after a backslash. -/
  | reference (n : Nat)
  deriving DecidableEq, Repr

namespace Chunk

/-- What a chunk is written as. -/
def text : Chunk → Text
  | still t => t
  | group => ['(']
  | reference n => '\\' :: decimalText n

/-- How many groups a chunk opens. -/
def groups : Chunk → Nat
  | group => 1
  | _ => 0

/-- What a chunk is written as when groups are given up, behind `opened` groups. -/
def released (keep : Nat → Bool) (opened : Nat) : Chunk → Text
  | still t => t
  | group => if keep (opened + 1) = true then ['('] else ['(', '?', ':']
  | reference n => '\\' :: decimalText (rank keep n)

end Chunk

/-- Chunks written one after another. -/
def written (cs : List Chunk) : Text := cs.flatMap Chunk.text

/-- Chunks written one after another when groups are given up. -/
def writtenReleased (keep : Nat → Bool) : (opened : Nat) → List Chunk → Text
  | _, [] => []
  | opened, c :: cs => c.released keep opened ++ writtenReleased keep (opened + c.groups) cs

theorem written_cons (c : Chunk) (cs : List Chunk) : written (c :: cs) = c.text ++ written cs := rfl

/-- Chunks that are those of the text that they are written as, from a spot on. -/
def Fit : Spot → List Chunk → Prop
  | _, [] => True
  | s, .still t :: cs =>
    mentions s (t ++ written cs) = mentions (s.after t) (written cs) ∧ Fit (s.after t) cs
  | s, .group :: cs => s = .outside ∧ (written cs).head? ≠ some '?' ∧ Fit .outside cs
  | s, .reference n :: cs =>
    s = .outside ∧ 0 < n ∧ (written cs).head?.any Char.isDigit = false ∧ Fit .outside cs

section Released

variable {keep : Nat → Bool}

theorem head?_writtenReleased : ∀ (opened : Nat) (cs : List Chunk),
    (writtenReleased keep opened cs).head? = (written cs).head?
  | _, [] => rfl
  | opened, .still [] :: cs => head?_writtenReleased opened cs
  | _, .still (_ :: _) :: _ => rfl
  | opened, .group :: cs => by
      show ((if keep (opened + 1) = true then ['('] else ['(', '?', ':']) ++ _).head? = some '('
      split <;> rfl
  | _, .reference _ :: _ => rfl

/-- Lexemes that mention nothing stay as they are. -/
theorem releasedFrom_append {ls : List Lexeme} (h : ls.filterMap Lexeme.mention? = [])
    (opened : Nat) (ms : List Lexeme) :
    releasedFrom keep opened (ls ++ ms) = ls ++ releasedFrom keep opened ms := by
  induction ls with
  | nil => rfl
  | cons l ls ih =>
    have hl : l.mention? = none := List.filterMap_eq_nil_iff.1 h l List.mem_cons_self
    have hls : ls.filterMap Lexeme.mention? = [] :=
      List.filterMap_eq_nil_iff.2 fun m hm =>
        List.filterMap_eq_nil_iff.1 h m (List.mem_cons_of_mem l hm)
    have hsame : l.released keep opened = l ∧ captureNames [l] = [] := by
      cases l with
      | decimal digits => cases hl
      | opening kind =>
        cases kind with
        | capture name => cases hl
        | _ => exact ⟨rfl, rfl⟩
      | _ => exact ⟨rfl, rfl⟩
    rw [List.cons_append, releasedFrom, hsame.1, hsame.2]
    exact congrArg (l :: ·) (ih hls)

/-- Groups without names are given up or stay without names. -/
theorem none_of_releasedFrom : ∀ {opened : Nat} {ls : List Lexeme},
    (∀ name ∈ captureNames ls, name = none) →
    ∀ name ∈ captureNames (releasedFrom keep opened ls), name = none
  | _, [], _, _, hname => absurd hname List.not_mem_nil
  | opened, l :: ls, h, name, hname => by
      rw [captureNames_cons] at h
      rw [releasedFrom, captureNames_cons] at hname
      rcases List.mem_append.1 hname with hfirst | hrest
      · have hl : name ∈ captureNames [l] := by
          cases l with
          | opening kind =>
            cases kind with
            | capture other =>
              simp only [Lexeme.released, Opening.released] at hfirst
              by_cases hkeep : keep (opened + 1) = true
              · rwa [if_pos hkeep] at hfirst
              · rw [if_neg hkeep] at hfirst
                cases hfirst
            | _ => exact hfirst
          | _ => exact hfirst
        exact h name (List.mem_append_left _ hl)
      · exact none_of_releasedFrom (fun other hother => h other (List.mem_append_right _ hother)) name
          hrest

/-- The lexemes before a landmark mention nothing, if the text before it does not. -/
theorem exists_still {x T : Text} {ls : List Lexeme} (hx : Spot.outside.after x = .outside)
    (hT : Inert T) (hmark : isLandmark T = true)
    (hstill : mentions .outside (x ++ T) = mentions .outside T)
    (h : lexAll? strict named 0 (x ++ T) [] = some ls) :
    ∃ before after, ls = before ++ after ∧ before.filterMap Lexeme.mention? = [] ∧
      lexAll? strict named 0 x [] = some before ∧ lexAll? strict named 0 T [] = some after := by
  have hmentions := mentions_lexAll? 0 _ _ _ h
  rw [lexAll?_split hx hT hmark] at h
  obtain ⟨before, hbefore, h⟩ := Option.bind_eq_some_iff.1 h
  rw [lexAll?_read, List.reverse_reverse] at h
  obtain ⟨after, hafter, rfl⟩ := Option.map_eq_some_iff.1 h
  refine ⟨before, after, rfl, ?_, hbefore, hafter⟩
  have hrest := mentions_lexAll? 0 _ _ _ hafter
  rw [List.filterMap_append, List.drop_zero, hstill, hrest, List.drop_zero] at hmentions
  simpa using hmentions

/-- What stands before a landmark is cut alike before another one. -/
theorem lexAll?_before {x T : Text} {before after : List Lexeme} (hT : Inert T)
    (hbefore : lexAll? strict named 0 x [] = some before)
    (hafter : lexAll? strict named 0 T [] = some after) :
    lexAll? strict named 0 (x ++ T) [] = some (before ++ after) := by
  rw [lexAll?_append hT 0 x [] before (Nat.zero_le _) hbefore, lexAll?_read, hafter,
    List.reverse_reverse]
  rfl

theorem lexAll?_cons {c : Char} {w T : Text} {l : Lexeme} (h : lexeme? strict named c (w ++ T) =
    some (l, w.length)) : lexAll? strict named 0 (c :: w ++ T) [] =
      (lexAll? strict named 0 T []).map (l :: ·) := by
  rw [List.cons_append]
  simp only [lexAll?, h]
  rw [lexAll?_skip, List.drop_left, lexAll?_read]
  rfl

theorem lexAll?_capture {T : Text} (h : T.head? ≠ some '?') :
    lexAll? strict named 0 ('(' :: T) [] =
      (lexAll? strict named 0 T []).map (.opening (.capture none) :: ·) := by
  refine lexAll?_cons (w := []) ?_
  show (opening? T).map _ = _
  rw [opening?_of_ne h]
  rfl

theorem lexAll?_plain (T : Text) : lexAll? strict named 0 ('(' :: '?' :: ':' :: T) [] =
    (lexAll? strict named 0 T []).map (.opening (.plain [] []) :: ·) := by
  refine lexAll?_cons (w := ['?', ':']) ?_
  show lexeme? strict named '(' ('?' :: ':' :: T) = _
  simp only [lexeme?, opening?_modifiers (c := ':') (by decide) (by decide) (by decide)]
  rfl

theorem lexAll?_number {n : Nat} (hn : 0 < n) {T : Text} (h : T.head?.any Char.isDigit = false) :
    lexAll? strict named 0 ('\\' :: decimalText n ++ T) [] =
      (lexAll? strict named 0 T []).map (.decimal (decimalText n) :: ·) := by
  refine lexAll?_cons ?_
  obtain ⟨d, ds, hds⟩ := List.exists_cons_of_ne_nil (decimalText_ne_nil n)
  have hdigits (c : Char) (hc : c ∈ d :: ds) : c.isDigit = true :=
    isDigit_of_mem_decimalText (hds ▸ hc)
  have hzero : d ≠ '0' := by
    intro hd
    have hhead := head?_decimalText hn
    rw [hds, hd] at hhead
    exact hhead rfl
  have htake : (ds ++ T).takeWhile Char.isDigit = ds := by
    rw [List.takeWhile_append_of_pos fun c hc => hdigits c (List.mem_cons_of_mem d hc)]
    cases T with
    | nil => simp
    | cons c T => simp [show c.isDigit = false from h]
  show escape? strict named (decimalText n ++ T) = _
  rw [hds, List.cons_append, escape?_of_isDigit (hdigits d List.mem_cons_self) hzero, htake]
  rfl

theorem inert_number (n : Nat) (T : Text) :
    Inert ('\\' :: decimalText n ++ T) ∧ isLandmark ('\\' :: decimalText n ++ T) = true := by
  obtain ⟨d, ds, hds⟩ := List.exists_cons_of_ne_nil (decimalText_ne_nil n)
  have hd : d ≠ 'u' := by
    rintro rfl
    have hdigit : ('u' : Char).isDigit = true :=
      isDigit_of_mem_decimalText (n := n) (hds ▸ List.mem_cons_self)
    cases hdigit
  rw [hds]
  exact ⟨⟨by decide, fun _ hu => hd (Option.some.inj hu)⟩, by simp [isLandmark, hd]⟩

theorem inert_paren (T : Text) : Inert ('(' :: T) ∧ isLandmark ('(' :: T) = true :=
  ⟨⟨by decide, fun h => absurd h (by decide)⟩, rfl⟩

/-- **The lexemes of a pattern change with its text when groups are given up**: the chunks `cs` stand
after a text `x` that mentions nothing. -/
theorem lexAll?_releasedFrom : ∀ {cs : List Chunk} {x : Text} {s : Spot} (opened : Nat)
    {ls : List Lexeme}, Spot.outside.after x = s →
    mentions .outside (x ++ written cs) = mentions s (written cs) → Fit s cs →
    (∀ n, .reference n ∈ cs → keep n = true) →
    lexAll? strict named 0 (x ++ written cs) [] = some ls →
    lexAll? strict named 0 (x ++ writtenReleased keep opened cs) [] = some (releasedFrom keep opened ls)
  | [], x, s, opened, ls, hx, hstill, _, _, h => by
      have hnone : ls.filterMap Lexeme.mention? = [] := by
        rw [mentions_lexAll? 0 _ _ _ h]
        exact hstill
      have hsame : releasedFrom keep opened (ls ++ []) = ls ++ releasedFrom keep opened [] :=
        releasedFrom_append hnone opened []
      rw [List.append_nil] at hsame
      rw [hsame]
      exact h.trans (by rw [releasedFrom, List.append_nil])
  | .still t :: cs, x, s, opened, ls, hx, hstill, hfit, hkept, h => by
      have hrest (n : Nat) (hn : .reference n ∈ cs) : keep n = true :=
        hkept n (List.mem_cons_of_mem _ hn)
      have hspot : Spot.outside.after (x ++ t) = s.after t := by rw [Spot.after_append, hx]
      rw [written_cons] at hstill h
      have hnext : mentions .outside ((x ++ t) ++ written cs) = mentions (s.after t) (written cs) := by
        rw [List.append_assoc]
        exact hstill.trans hfit.1
      have hlexed : lexAll? strict named 0 ((x ++ t) ++ written cs) [] = some ls := by
        rw [List.append_assoc]
        exact h
      have ih := lexAll?_releasedFrom opened hspot hnext hfit.2 hrest hlexed
      rw [List.append_assoc] at ih
      exact ih
  | .group :: cs, x, s, opened, ls, hx, hstill, hfit, hkept, h => by
      obtain ⟨rfl, hhead, hfit⟩ := hfit
      obtain ⟨before, after, rfl, hbefore, hxlexed, hlexed⟩ :=
        exists_still hx (inert_paren _).1 (inert_paren _).2 hstill h
      have hopens : lexAll? strict named 0 ('(' :: written cs) [] = some after := hlexed
      rw [lexAll?_capture hhead] at hopens
      obtain ⟨rest, hrest, rfl⟩ := Option.map_eq_some_iff.1 hopens
      have ih := lexAll?_releasedFrom (x := []) (opened + 1) rfl rfl hfit
        (fun n hn => hkept n (List.mem_cons_of_mem _ hn)) hrest
      rw [List.nil_append] at ih
      rw [releasedFrom_append hbefore]
      show lexAll? strict named 0 (x ++ (Chunk.released keep opened .group ++
        writtenReleased keep (opened + 1) cs)) [] = _
      have hgroups : opened + (captureNames [Lexeme.opening (.capture none)]).length = opened + 1 := rfl
      by_cases hkeep : keep (opened + 1) = true
      · have hafter : lexAll? strict named 0 ('(' :: writtenReleased keep (opened + 1) cs) [] =
            some (.opening (.capture none) :: releasedFrom keep (opened + 1) rest) := by
          rw [lexAll?_capture (by rw [head?_writtenReleased]; exact hhead), ih]
          rfl
        simp only [releasedFrom, Lexeme.released, Opening.released, Chunk.released, hkeep, if_true,
          hgroups]
        exact lexAll?_before (inert_paren _).1 hxlexed hafter
      · have hafter : lexAll? strict named 0 ('(' :: '?' :: ':' :: writtenReleased keep (opened + 1) cs)
            [] = some (.opening (.plain [] []) :: releasedFrom keep (opened + 1) rest) := by
          rw [lexAll?_plain, ih]
          rfl
        simp only [releasedFrom, Lexeme.released, Opening.released, Chunk.released, hkeep, if_false,
          Bool.false_eq_true, hgroups]
        exact lexAll?_before (inert_paren _).1 hxlexed hafter
  | .reference n :: cs, x, s, opened, ls, hx, hstill, hfit, hkept, h => by
      obtain ⟨rfl, hpos, hhead, hfit⟩ := hfit
      obtain ⟨before, after, rfl, hbefore, hxlexed, hlexed⟩ :=
        exists_still hx (inert_number n _).1 (inert_number n _).2 hstill h
      have hnumber : lexAll? strict named 0 ('\\' :: decimalText n ++ written cs) [] = some after := hlexed
      rw [lexAll?_number hpos hhead] at hnumber
      obtain ⟨rest, hrest, rfl⟩ := Option.map_eq_some_iff.1 hnumber
      have ih := lexAll?_releasedFrom (x := []) opened rfl rfl hfit
        (fun m hm => hkept m (List.mem_cons_of_mem _ hm)) hrest
      rw [List.nil_append] at ih
      have hafter : lexAll? strict named 0 ('\\' :: decimalText (rank keep n) ++
          writtenReleased keep opened cs) [] =
            some (.decimal (decimalText (rank keep n)) :: releasedFrom keep opened rest) := by
        rw [lexAll?_number (rank_pos hpos (hkept n List.mem_cons_self))
          (by rw [head?_writtenReleased]; exact hhead), ih]
        rfl
      rw [releasedFrom_append hbefore]
      simp only [releasedFrom, Lexeme.released, readDigits_decimalText]
      exact lexAll?_before (inert_number _ _).1 hxlexed hafter

end Released

/-! ## 3. The numbering of chunks -/

/-- What a chunk mentions. -/
def Chunk.mention? : Chunk → Option Mention
  | still _ => none
  | group => some (.opens false)
  | reference n => some (.number (decimalText n))

/-- How many groups chunks open. -/
def groupCount (cs : List Chunk) : Nat := (cs.map Chunk.groups).sum

/-- Whether a mention is that of a group, and then whether it has a name. -/
def Mention.group? : Mention → Option Bool
  | opens named => some named
  | number _ => none

/-- **The mentions of a text are those of its chunks.** -/
theorem mentions_written : ∀ {cs : List Chunk} {s : Spot}, Fit s cs →
    mentions s (written cs) = cs.filterMap Chunk.mention?
  | [], _, _ => rfl
  | .still t :: cs, s, hfit => hfit.1.trans (mentions_written hfit.2)
  | .group :: cs, s, hfit => by
      obtain ⟨rfl, hhead, hfit⟩ := hfit
      have hopens : opensCapture (written cs) = true := by
        cases hcs : written cs with
        | nil => rfl
        | cons c t =>
          have hc : c ≠ '?' := fun hc => hhead (by rw [hcs, hc]; rfl)
          simp [opensCapture, hc]
      have hnamed : ((written cs).head? == some '?') = false := by simpa using hhead
      have hmention : mention? ('(' :: written cs) = some (.opens false) := by
        simp only [mention?, hopens, if_true, hnamed]
      show mentions .outside ('(' :: written cs) = .opens false :: cs.filterMap Chunk.mention?
      rw [mentions_cons, hmention, ← mentions_written hfit]
      rfl
  | .reference n :: cs, s, hfit => by
      obtain ⟨rfl, hpos, hhead, hfit⟩ := hfit
      obtain ⟨d, ds, hds⟩ := List.exists_cons_of_ne_nil (decimalText_ne_nil n)
      have hdigits (c : Char) (hc : c ∈ d :: ds) : c.isDigit = true :=
        isDigit_of_mem_decimalText (hds ▸ hc)
      have hzero : d ≠ '0' := by
        intro hd
        have hfirst := head?_decimalText hpos
        rw [hds, hd] at hfirst
        exact hfirst rfl
      have htake : (ds ++ written cs).takeWhile Char.isDigit = ds := by
        rw [List.takeWhile_append_of_pos fun c hc => hdigits c (List.mem_cons_of_mem d hc)]
        cases hcs : written cs with
        | nil => simp
        | cons c t => simp [show c.isDigit = false by simpa [hcs] using hhead]
      have hmention : mention? ('\\' :: d :: (ds ++ written cs)) = some (.number (d :: ds)) := by
        simp [mention?, hdigits d List.mem_cons_self, hzero, htake]
      have hpassed : mentions ⟨false, true⟩ (d :: (ds ++ written cs)) = mentions .outside (written cs) :=
        ((scans_mentions.passes false).escaped d _).trans ((scans_mentions.passes false).append _
          fun c hc => isQuiet_of_isDigit (hdigits c (List.mem_cons_of_mem d hc)))
      show mentions .outside ('\\' :: (decimalText n ++ written cs)) =
        .number (decimalText n) :: cs.filterMap Chunk.mention?
      rw [hds, List.cons_append, mentions_cons, hmention, ← mentions_written hfit]
      exact congrArg (_ :: ·) hpassed

theorem isSome_captureNames : ∀ ls : List Lexeme,
    (captureNames ls).map Option.isSome = (ls.filterMap Lexeme.mention?).filterMap Mention.group?
  | [] => rfl
  | l :: ls => by
      rw [captureNames_cons, List.map_append, isSome_captureNames ls]
      cases l with
      | opening kind => cases kind <;> rfl
      | _ => rfl

theorem filterMap_group? : ∀ cs : List Chunk,
    (cs.filterMap Chunk.mention?).filterMap Mention.group? = List.replicate (groupCount cs) false
  | [] => rfl
  | .still _ :: cs => by
      rw [show groupCount (.still _ :: cs) = groupCount cs from Nat.zero_add _, ← filterMap_group? cs]
      rfl
  | .group :: cs => by
      rw [show groupCount (.group :: cs) = groupCount cs + 1 from Nat.add_comm _ _,
        List.replicate_succ, ← filterMap_group? cs]
      rfl
  | .reference _ :: cs => by
      rw [show groupCount (.reference _ :: cs) = groupCount cs from Nat.zero_add _,
        ← filterMap_group? cs]
      rfl

section Lexemes

variable {cs : List Chunk} (hfit : Fit .outside cs) {ls : List Lexeme}
  (h : lexAll? strict named 0 (written cs) [] = some ls)

include hfit h

/-- The groups of a pattern are those of its chunks, without names. -/
theorem captureNames_written : captureNames ls = List.replicate (groupCount cs) none := by
  have hmentions := mentions_lexAll? 0 _ _ _ h
  have hsome := isSome_captureNames ls
  rw [hmentions, List.drop_zero, mentions_written hfit] at hsome
  have hfalse : (captureNames ls).map Option.isSome = List.replicate (groupCount cs) false :=
    hsome.trans (filterMap_group? cs)
  rw [List.eq_replicate_iff]
  constructor
  · have hlength := congrArg List.length hfalse
    rwa [List.length_map, List.length_replicate] at hlength
  · intro name hname
    have hmem : name.isSome ∈ (captureNames ls).map Option.isSome := List.mem_map_of_mem hname
    rw [hfalse] at hmem
    have hnone := List.eq_of_mem_replicate hmem
    cases name with
    | none => rfl
    | some n => cases hnone

/-- The numbers of a pattern are those of its chunks. -/
theorem exists_reference {digits : Text} (hl : .decimal digits ∈ ls) :
    ∃ n, .reference n ∈ cs ∧ digits = decimalText n := by
  have hmentions := mentions_lexAll? 0 _ _ _ h
  rw [List.drop_zero, mentions_written hfit] at hmentions
  have hmem : Mention.number digits ∈ ls.filterMap Lexeme.mention? :=
    List.mem_filterMap.2 ⟨_, hl, rfl⟩
  rw [hmentions] at hmem
  obtain ⟨c, hc, hmention⟩ := List.mem_filterMap.1 hmem
  cases c with
  | still t => cases hmention
  | group => cases hmention
  | reference n => exact ⟨n, hc, (Mention.number.inj (Option.some.inj hmention)).symm⟩

end Lexemes

/-- Without names for groups, a pattern is cut once. -/
theorem lexemes?_of_unnamed {source : Text} {ls : List Lexeme}
    (h : lexAll? strict strict 0 source [] = some ls) (hnames : ∀ name ∈ captureNames ls, name = none) :
    lexemes? strict source = some ls := by
  have hany : (captureNames ls).any Option.isSome = false := by
    rw [List.any_eq_false]
    intro name hname
    rw [hnames name hname]
    exact Bool.false_ne_true
  unfold lexemes?
  rw [h]
  simp only [hany, Bool.and_false, Bool.false_eq_true, if_false]

/-- The lexemes of a pattern that is given by chunks. -/
theorem exists_lexAll? {cs : List Chunk} (hfit : Fit .outside cs) {ls : List Lexeme}
    (h : lexemes? strict (written cs) = some ls) :
    lexAll? strict strict 0 (written cs) [] = some ls := by
  cases hms : lexAll? strict strict 0 (written cs) [] with
  | none =>
    unfold lexemes? at h
    rw [hms] at h
    cases h
  | some ms =>
    have hnames : ∀ name ∈ captureNames ms, name = none := by
      rw [captureNames_written hfit hms]
      exact fun name hname => List.eq_of_mem_replicate hname
    rw [← lexemes?_of_unnamed hms hnames]
    exact h

/-- **The lexemes of a pattern that is given by chunks**, before and after groups are given up to which
none of its numbers refers. -/
theorem exists_lexemes {keep : Nat → Bool} {mode : Mode} {cs : List Chunk} {p : Program}
    (hfit : Fit .outside cs) (hkept : ∀ n, .reference n ∈ cs → n ≤ groupCount cs ∧ keep n = true)
    (h : Program.ofSource? (written cs) mode = some p) : ∃ ls,
      lexAll? mode.unicode mode.unicode 0 (written cs) [] = some ls ∧
      lexAll? mode.unicode mode.unicode 0 (writtenReleased keep 0 cs) [] =
        some (releasedFrom keep 0 ls) ∧
      (∀ name ∈ captureNames ls, name = none) ∧
      ∀ l ∈ ls, l.Refers keep (captureNames ls).length := by
  obtain ⟨ls, q, hq, -⟩ := Program.ofSource?_eq_some_iff.1 h
  have hlexed := exists_lexAll? hfit hq.lexed
  have hnames := captureNames_written hfit hlexed
  have hnone : ∀ name ∈ captureNames ls, name = none := by
    intro name hname
    rw [hnames] at hname
    exact List.eq_of_mem_replicate hname
  have hreleased := lexAll?_releasedFrom (x := []) 0 rfl rfl hfit (fun n hn => (hkept n hn).2) hlexed
  refine ⟨ls, hlexed, hreleased, hnone, fun l hl => ⟨?_, ?_⟩⟩
  · exact Progress.ne_namedRef_of_readAll? hnone hq.read l hl
  · rintro digits rfl
    obtain ⟨n, hn, rfl⟩ := exists_reference hfit hlexed hl
    rw [readDigits_decimalText, hnames, List.length_replicate]
    exact hkept n hn

/-- **Such a pattern ends at the same places** when those groups are given up. -/
theorem Program.ends_writtenReleased {keep : Nat → Bool} {mode : Mode} {cs : List Chunk}
    {p p' : Program} (hfit : Fit .outside cs)
    (hkept : ∀ n, .reference n ∈ cs → n ≤ groupCount cs ∧ keep n = true)
    (h : Program.ofSource? (written cs) mode = some p)
    (h' : Program.ofSource? (writtenReleased keep 0 cs) mode = some p') (place : Place) :
    p'.node.ends place = p.node.ends place := by
  obtain ⟨ls, hlexed, hreleased, hnone, hrefers⟩ := exists_lexemes hfit hkept h
  exact ends_released h (lexemes?_of_unnamed hlexed hnone) h'
    (lexemes?_of_unnamed hreleased (none_of_releasedFrom hnone)) hrefers place

end ExtensibleRegex.Native
