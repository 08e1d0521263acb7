import ExtensibleRegex.Combine.Build
import ExtensibleRegex.Proofs.Combine.Calls
import Mathlib.Tactic

/-!
# Outlines of patterns that are put together

A build sees the native patterns that it puts together as pieces. Their outline lists the groups that
they open, the references and the subpatterns that stand in them (`outline`).

* `exists_calls` says that a native pattern with whole classes, without names for groups, is a text with
  calls.
* `legible_of_calls` says what the pieces of such a text are, with the names of subpatterns or without.
* `outline_mentions` says that the outline of such pieces shows where the text opens groups and refers to
  them.
-/

namespace ExtensibleRegex

open Native

/-! ## 1. Calls of native patterns -/

namespace Call

/-- A call without names. -/
def Unnamed : Call → Prop
  | opens none => True
  | number _ => True
  | _ => False

/-- Where a call shows in a native pattern. -/
def mention? : Call → Option Mention
  | opens none => some (.opens false)
  | number n => some (.number (decimalText n))
  | _ => none

end Call

section Calls

variable {scope : Scope} {t next : Text} {cs : List Call}

theorem calls_classBody {body : Text} (h : ClassBody body) (hnext : Calls .pattern next cs) :
    Calls .charClass (body ++ next) cs := by
  induction h with
  | close => exact .close hnext
  | escape c _ ih => exact .escape nofun nofun ih
  | other hclose hescape _ ih => exact .inner hescape hclose ih

/-- A class ends where it is left. -/
theorem exists_classBody (h : Calls .charClass t cs) :
    ∃ body next, t = body ++ next ∧ ClassBody body ∧ Calls .pattern next cs := by
  generalize hscope : Scope.charClass = scope at h
  induction h with
  | nil => cases hscope
  | @plain scope c t cs hplain rest ih =>
    subst hscope
    obtain ⟨body, next, rfl, hbody, hnext⟩ := ih rfl
    obtain ⟨hescape, -, hclose, -⟩ : c ≠ '\\' ∧ c ≠ '[' ∧ c ≠ ']' ∧ c ≠ '(' := by
      simpa [isPlain, and_assoc] using hplain
    exact ⟨c :: body, next, rfl, .other hclose hescape hbody, hnext⟩
  | @close scope t cs rest ih => exact ⟨[']'], t, rfl, .close, rest⟩
  | set rest ih => cases hscope
  | @inner c t cs hescape hclose rest ih =>
    obtain ⟨body, next, rfl, hbody, hnext⟩ := ih rfl
    exact ⟨c :: body, next, rfl, .other hclose hescape hbody, hnext⟩
  | @escape scope c t cs digit unnamed rest ih =>
    subst hscope
    obtain ⟨body, next, rfl, hbody, hnext⟩ := ih rfl
    exact ⟨'\\' :: c :: body, next, rfl, .escape c hbody, hnext⟩
  | number pos head rest ih => cases hscope
  | name ne_nil isNameChar not_digits head rest ih => cases hscope
  | capture head rest ih => cases hscope
  | named ne_nil isNameChar head rest ih => cases hscope
  | group opens rest ih => cases hscope

theorem calls_trail {w : Text} (h : Trail w) (hnext : Calls .pattern next cs) :
    Calls .pattern (w ++ next) cs := by
  rcases h with hplain | ⟨high, low, rfl, -, -, hhigh, hlow⟩
  · exact hnext.append hplain
  · have hescape : Calls .pattern ('\\' :: 'u' :: (low ++ next)) cs :=
      .escape (fun _ hu => absurd hu (by decide)) (fun _ hu => absurd hu (by decide))
        (hnext.append fun d hd => isPlain_of_isHexDigit (hlow d hd))
    rw [List.append_assoc]
    exact hescape.append fun d hd => isPlain_of_isHexDigit (hhigh d hd)

/-- A word has its calls before the text in which it stands. -/
theorem Form.calls {w : Word} (h : Form next w) (hname : ¬['\\', 'k', '<'] <:+: w.text ++ next)
    (hnext : Calls .pattern next cs) :
    ∃ ds, (∀ call ∈ ds, call.Unnamed) ∧ Calls .pattern (w.text ++ next) (ds ++ cs) := by
  cases h with
  | capture head => exact ⟨[.opens none], by simp [Call.Unnamed], .capture head hnext⟩
  | @number digits ne_nil isDigit not_zero head =>
    have hpos := readDigits_pos isDigit ne_nil not_zero
    have htext : (numberWord digits).text = numberReference (readDigits 10 digits) := by
      unfold numberReference
      rw [decimalText_readDigits digits isDigit ne_nil not_zero]
      rfl
    rw [htext]
    exact ⟨[.number (readDigits 10 digits)], by simp [Call.Unnamed], .number hpos head hnext⟩
  | @plain c cs l still first plain =>
    refine ⟨[], nofun, ?_⟩
    rcases first with hfirst | rfl
    · exact .plain hfirst (hnext.append plain)
    · exact .close (hnext.append plain)
  | opens hopens => exact ⟨[], nofun, .group hopens (.plain rfl (hnext.append hopens.plain))⟩
  | @escape c cs l still digit trail kept =>
    refine ⟨[], nofun, .escape (fun _ => digit) ?_ (calls_trail trail hnext)⟩
    rintro - rfl hless
    obtain ⟨rest, hrest⟩ := List.head?_eq_some_iff.1 hless
    refine hname ⟨[], rest, ?_⟩
    exact congrArg (fun u => '\\' :: 'k' :: u) hrest.symm
  | lone still next_eq head =>
    subst next_eq
    have hrest := hnext.of_append (w := ['c']) (List.all_eq_true.1 rfl)
    exact ⟨[], nofun, .escape (fun _ hc => absurd hc (by decide)) (fun _ hc => absurd hc (by decide))
      hrest⟩
  | set still closes => exact ⟨[], nofun, .set (calls_classBody closes hnext)⟩

theorem calls_of_fits : ∀ {ws : List Word}, Fits ws →
    (∀ w ∈ ws, ∀ name, w.lexeme ≠ .opening (.capture (some name))) →
    ¬['\\', 'k', '<'] <:+: write ws → ∃ cs, (∀ call ∈ cs, call.Unnamed) ∧ Calls .pattern (write ws) cs
  | [], _, _, _ => ⟨[], nofun, .nil⟩
  | w :: ws, hfits, hunnamed, hname => by
      have hrest : ¬['\\', 'k', '<'] <:+: write ws := fun hin =>
        hname (hin.trans (List.suffix_append w.text (write ws)).isInfix)
      obtain ⟨cs, hcs, hcalls⟩ := calls_of_fits hfits.2
        (fun v hv => hunnamed v (List.mem_cons_of_mem w hv)) hrest
      obtain ⟨ds, hds, hfirst⟩ := (Form.of_fits hfits.1 (hunnamed w List.mem_cons_self)).calls hname
        hcalls
      refine ⟨ds ++ cs, fun call hcall => ?_, hfirst⟩
      exact (List.mem_append.1 hcall).elim (hds call) (hcs call)

/-- **A native pattern is a text with calls**, if its lexemes name no group and nothing looks like a
reference by name. -/
theorem exists_calls {ls : List Lexeme} (h : lexAll? false false 0 t [] = some ls)
    (hnone : ∀ name ∈ captureNames ls, name = none) (hname : ¬['\\', 'k', '<'] <:+: t) :
    ∃ cs, (∀ call ∈ cs, call.Unnamed) ∧ Calls .pattern t cs := by
  rw [lexAll?_eq_words] at h
  obtain ⟨ws, hws, hls⟩ := Option.map_eq_some_iff.1 h
  obtain rfl : ws.map Word.lexeme = ls := hls
  obtain ⟨hfits, rfl⟩ := words?_eq_some_iff.1 hws
  refine calls_of_fits hfits (fun w hw name hl => ?_) hname
  have hmem : some name ∈ captureNames (ws.map Word.lexeme) :=
    List.mem_filterMap.2 ⟨_, List.mem_map_of_mem hw, by rw [hl]⟩
  cases hnone _ hmem

theorem Opens.opensCapture {kind : Opening} {w : Text} (h : Opens kind w) (t : Text) :
    opensCapture ('?' :: (w ++ t)) = false := by
  rcases h.form with hlook | hmodes
  · simp only [List.mem_cons, List.not_mem_nil, or_false] at hlook
    rcases hlook with rfl | rfl | rfl | rfl <;> rfl
  · obtain ⟨d, w, rfl⟩ := List.exists_cons_of_ne_nil h.ne_nil
    refine opensCapture_question fun hless => ?_
    obtain rfl : d = '<' := Option.some.inj hless
    exact absurd (hmodes _ List.mem_cons_self) (by decide)

/-- **Where a text shows its calls.** -/
theorem Calls.mentions (h : Calls scope t cs) (hunnamed : ∀ call ∈ cs, call.Unnamed) :
    mentions scope.spot t = cs.filterMap Call.mention? := by
  induction h with
  | nil => rfl
  | @plain scope c t cs hplain rest ih =>
    rw [← ih hunnamed, Scope.spot_eq]
    exact silent_plain _ (w := [c]) (by simpa using hplain) t
  | @close scope t cs rest ih =>
    have hnone : Native.mention? (']' :: t) = none := mention?_other (by decide) (by decide) t
    rw [← ih hunnamed, Scope.spot_eq, mentions_of_none hnone]
    cases scope <;> rfl
  | @set t cs rest ih =>
    have hnone : Native.mention? ('[' :: t) = none := mention?_other (by decide) (by decide) t
    rw [← ih hunnamed]
    exact mentions_of_none hnone false
  | @inner c t cs hescape hclose rest ih =>
    have hnext : Spot.inside.next c = .inside := by simp [Spot.next, Spot.inside, hescape, hclose]
    rw [← ih hunnamed]
    exact (scans_mentions .inside c t fun hmark => by cases hmark.1).trans (by rw [hnext]; rfl)
  | @escape scope c t cs digit unnamed rest ih =>
    rw [← ih hunnamed]
    cases scope with
    | pattern => exact silent_escape false (w := []) (digit rfl) (List.forall_mem_nil _) t
    | charClass =>
      have hfirst := scans_mentions .inside '\\' (c :: t) fun hmark => by cases hmark.1
      exact hfirst.trans ((scans_mentions.passes true).escaped c t)
  | @number n t cs pos head rest ih =>
    have hrest := ih fun call hcall => hunnamed call (List.mem_cons_of_mem _ hcall)
    show Native.mentions .outside (numberReference n ++ t) = .number (decimalText n) :: _
    rw [← hrest]
    exact mentions_reference pos head
  | @name name t cs _ _ _ _ _ ih => exact (hunnamed (.name name) List.mem_cons_self).elim
  | @capture t cs head rest ih =>
    have hrest := ih fun call hcall => hunnamed call (List.mem_cons_of_mem _ hcall)
    show Native.mentions .outside ('(' :: t) = .opens false :: _
    rw [← hrest]
    exact mentions_group head
  | @named name t cs _ _ _ _ ih => exact (hunnamed (.opens (some name)) List.mem_cons_self).elim
  | @group kind w t cs opens rest ih =>
    have hnone : Native.mention? ('(' :: '?' :: (w ++ t)) = none := mention?_paren (opens.opensCapture t)
    rw [← ih hunnamed]
    exact mentions_of_none hnone false

end Calls

/-! ## 2. Subpatterns -/

theorem of_markedName? {opening closing t : Text} {name : Text} {n : Nat}
    (h : markedName? opening closing t = some (name, n)) :
    name ≠ [] ∧ (∀ c ∈ name, isNameChar c = true) ∧ n = opening.length + name.length + closing.length ∧
      ∃ rest, t = opening ++ (name ++ (closing ++ rest)) := by
  unfold markedName? at h
  split at h
  · cases h
  rename_i body hbody
  simp only at h
  split at h
  case isFalse => cases h
  rename_i hcond
  obtain ⟨rfl, rfl⟩ := Prod.mk.inj (Option.some.inj h)
  obtain ⟨hne, hclosing⟩ := hcond
  obtain ⟨rest, hrest⟩ := List.isPrefixOf_iff_prefix.1 hclosing
  refine ⟨hne, List.all_eq_true.1 List.all_takeWhile, rfl, rest, ?_⟩
  have hsplit := takeWhile_append_drop isNameChar body
  rw [hrest, ← hsplit]
  exact (after?_eq_some_iff _ _ _).1 hbody

/-- A subpattern at the start of a text. -/
theorem of_subpatternAt? {t : Text} {p : Piece} {n : Nat} (h : subpatternAt? t = some (p, n)) :
    ∃ name rest, name ≠ [] ∧ (∀ c ∈ name, isNameChar c = true) ∧
      ((p = .subpattern name true ∧ n = name.length + 6 ∧
          t = '(' :: (['\x7b', '\x7b'] ++ name ++ ['\x7d', '\x7d', ')'] ++ rest)) ∨
        p = .subpattern name false ∧ n = name.length + 4 ∧
          t = ['\x7b', '\x7b'] ++ name ++ ['\x7d', '\x7d'] ++ rest) := by
  unfold subpatternAt? at h
  split at h
  · rename_i name m hname
    obtain ⟨rfl, rfl⟩ := Prod.mk.inj (Option.some.inj h)
    obtain ⟨hne, hchars, hn, rest, ht⟩ := of_markedName? hname
    refine ⟨name, rest, hne, hchars, .inl ⟨rfl, ?_, ?_⟩⟩
    · simp only [hn, List.length_cons, List.length_nil]
      omega
    · rw [ht]
      simp
  split at h
  · rename_i name m hname
    obtain ⟨rfl, rfl⟩ := Prod.mk.inj (Option.some.inj h)
    obtain ⟨hne, hchars, hn, rest, ht⟩ := of_markedName? hname
    refine ⟨name, rest, hne, hchars, .inr ⟨rfl, ?_, ?_⟩⟩
    · simp only [hn, List.length_cons, List.length_nil]
      omega
    · rw [ht]
      simp
  · cases h

/-! ## 3. Legible pieces -/

/-- The pieces of a text with calls. -/
inductive Legible : List Piece → List Call → Prop where
  | nil : Legible [] []
  | plain {c : Char} {ps : List Piece} {cs : List Call} (plain : isPlain c = true ∨ c = ']')
      (rest : Legible ps cs) : Legible (.verbatim [c] :: ps) cs
  | escape {c : Char} {ps : List Piece} {cs : List Call} (digit : c.isDigit = true → c = '0')
      (unnamed : c = 'k' → ps.head? ≠ some (.verbatim ['<'])) (rest : Legible ps cs) :
      Legible (.verbatim ['\\', c] :: ps) cs
  | set {body : Text} {ps : List Piece} {cs : List Call} (closes : ClassBody body)
      (rest : Legible ps cs) : Legible (.verbatim ('[' :: body) :: ps) cs
  /-- The opening of a group that does not capture. -/
  | group {kind : Opening} {w : Text} {ps : List Piece} {cs : List Call} (opens : Opens kind w)
      (rest : Legible ps cs) :
      Legible (.verbatim ['('] :: (('?' :: w).map (fun c => .verbatim [c]) ++ ps)) cs
  | capture {ps : List Piece} {cs : List Call} (head : ps.head? ≠ some (.verbatim ['?']))
      (rest : Legible ps cs) : Legible (.capture :: ps) (.opens none :: cs)
  | backref {n : Nat} {ps : List Piece} {cs : List Call} (pos : 0 < n)
      (head : ∀ d : Char, ps.head? = some (.verbatim [d]) → d.isDigit = false) (rest : Legible ps cs) :
      Legible (.backref n :: ps) (.number n :: cs)
  | subpattern {name : Text} {capturing : Bool} {ps : List Piece} {cs : List Call} (ne_nil : name ≠ [])
      (isNameChar : ∀ c ∈ name, isNameChar c = true) (rest : Legible ps cs) :
      Legible (.subpattern name capturing :: ps) (if capturing then .opens none :: cs else cs)

section Pieces

variable {sub : Bool} {c : Char} {t : Text}

/-- Without a subpattern a piece is what it is without names for them. -/
theorem pieceAt_of_none (h : sub = true → subpatternAt? (c :: t) = none) :
    pieceAt sub c t = pieceAt false c t := by
  cases sub with
  | false => rfl
  | true =>
    unfold pieceAt
    rw [if_pos rfl, h rfl]
    rfl

theorem subpatternAt?_of_ne (hparen : c ≠ '(') (hbrace : c ≠ '\x7b') : subpatternAt? (c :: t) = none := by
  cases h : subpatternAt? (c :: t) with
  | none => rfl
  | some found =>
    obtain ⟨name, rest, -, -, ⟨-, -, heq⟩ | ⟨-, -, heq⟩⟩ := of_subpatternAt? h
    · exact absurd (List.cons.inj heq).1 hparen
    · exact absurd (List.cons.inj heq).1 hbrace

theorem subpatternAt?_question (t : Text) : subpatternAt? ('(' :: '?' :: t) = none := by
  cases h : subpatternAt? ('(' :: '?' :: t) with
  | none => rfl
  | some found =>
    obtain ⟨name, rest, -, -, ⟨-, -, heq⟩ | ⟨-, -, heq⟩⟩ := of_subpatternAt? h
    · cases (List.cons.inj heq).2
    · cases heq

theorem pieces_of_none (h : sub = true → subpatternAt? (c :: t) = none) {p : Piece} {n : Nat}
    (hat : pieceAt false c t = (p, n)) : pieces (c :: t) sub = p :: pieces (t.drop n) sub :=
  pieces_cons ((pieceAt_of_none h).trans hat)

/-- Plain characters without braces are pieces of their own. -/
theorem pieces_run (sub : Bool) : ∀ {w : Text}, (∀ d ∈ w, isPlain d = true ∧ d ≠ '\x7b') → ∀ t : Text,
    pieces (w ++ t) sub = w.map (fun c => .verbatim [c]) ++ pieces t sub
  | [], _, _ => rfl
  | c :: w, h, t => by
      obtain ⟨hplain, hbrace⟩ := h c List.mem_cons_self
      have hparen : c ≠ '(' := by
        rintro rfl
        cases hplain
      rw [List.cons_append, pieces_of_none (fun _ => subpatternAt?_of_ne hparen hbrace)
        (pieceAt_plain (.inl hplain) (w ++ t)), List.drop_zero,
        pieces_run sub (fun d hd => h d (List.mem_cons_of_mem c hd)) t]
      rfl

/-- A reference is a piece, where no digit follows it. -/
theorem pieces_numberReference (sub : Bool) {n : Nat} (pos : 0 < n)
    (head : t.head?.any Char.isDigit = false) :
    pieces (numberReference n ++ t) sub = .backref n :: pieces t sub := by
  have hat := pieceAt_number (decimalText_ne_nil n)
    (fun d hd => isDigit_of_mem_decimalText hd) (head?_decimalText pos) head
  rw [readDigits_decimalText] at hat
  show pieces ('\\' :: (decimalText n ++ t)) sub = _
  rw [pieces_of_none (fun _ => subpatternAt?_of_ne (by decide) (by decide)) hat, List.drop_left]

/-- The characters that open a group which does not capture are plain, and none is a brace. -/
theorem Opens.plain_question {kind : Opening} {w : Text} (opens : Opens kind w) :
    ∀ d ∈ '?' :: w, isPlain d = true ∧ d ≠ '\x7b' := by
  intro d hd
  rcases List.mem_cons.1 hd with rfl | hd
  · decide
  refine ⟨opens.plain d hd, ?_⟩
  rintro rfl
  rcases opens.form with hlook | hmodes
  · simp only [List.mem_cons, List.not_mem_nil, or_false] at hlook
    rcases hlook with rfl | rfl | rfl | rfl <;> simp at hd
  · exact absurd (hmodes _ hd) (by decide)

/-- The opening of a group that does not capture is in pieces of one character. -/
theorem pieces_opening (sub : Bool) {kind : Opening} {w : Text} (opens : Opens kind w) (t : Text) :
    pieces ('(' :: '?' :: (w ++ t)) sub =
      .verbatim ['('] :: (('?' :: w).map (fun c => .verbatim [c]) ++ pieces t sub) := by
  rw [pieces_of_none (fun _ => subpatternAt?_question _) (pieceAt_opens rfl), List.drop_zero]
  exact congrArg _ (pieces_run sub opens.plain_question t)

/-- The first piece of a text, when it is a single character. -/
theorem head?_pieces {d : Char} (h : (pieces t sub).head? = some (.verbatim [d])) : t.head? = some d := by
  cases t with
  | nil => cases h
  | cons c t =>
    have hat : pieces (c :: t) sub = (pieceAt sub c t).1 :: pieces (t.drop (pieceAt sub c t).2) sub :=
      pieces_cons rfl
    rw [hat, List.head?_cons, Option.some.injEq] at h
    unfold pieceAt at h
    split at h
    · rename_i found hfound
      split at hfound
      · obtain ⟨name, rest, -, -, ⟨hp, -⟩ | ⟨hp, -⟩⟩ := of_subpatternAt? hfound
        · rw [hp] at h
          cases h
        · rw [hp] at h
          cases h
      · cases hfound
    split at h
    · cases h
    split at h
    · simp only at h
      split at h
      · cases h
      · exact congrArg List.head? (Piece.verbatim.inj h)
    split at h
    · split at h
      · exact congrArg List.head? (Piece.verbatim.inj h)
      · exact congrArg List.head? (Piece.verbatim.inj h)
    · exact congrArg List.head? (Piece.verbatim.inj h)

/-- The name of a subpattern in its marks is plain. -/
theorem isPlain_of_marked {name v : Text} (hname : ∀ d ∈ name, isNameChar d = true)
    (hv : ∀ d ∈ v, isPlain d = true) : ∀ d ∈ ['\x7b', '\x7b'] ++ name ++ v, isPlain d = true := by
  intro d hd
  simp only [List.mem_append, List.mem_cons, List.not_mem_nil, or_false] at hd
  rcases hd with ((rfl | rfl) | hd) | hd
  · rfl
  · rfl
  · exact isPlain_of_isNameChar (hname d hd)
  · exact hv d hd

/-- Where subpatterns have names, a text may begin with one. Its piece stands for the first character and
for plain ones behind it. -/
theorem pieces_subpattern_or (sub : Bool) (c : Char) (t : Text) :
    (sub = true → subpatternAt? (c :: t) = none) ∨
    ∃ name capturing w next, name ≠ [] ∧ (∀ d ∈ name, isNameChar d = true) ∧ t = w ++ next ∧
      (∀ d ∈ w, isPlain d = true) ∧ c = (if capturing then '(' else '\x7b') ∧
      pieces (c :: t) sub = .subpattern name capturing :: pieces next sub := by
  cases hsub : sub with
  | false => exact .inl fun h => absurd h Bool.false_ne_true
  | true =>
    cases hfound : subpatternAt? (c :: t) with
    | none => exact .inl fun _ => rfl
    | some found =>
      obtain ⟨p, n⟩ := found
      have hat : pieceAt true c t = (p, n - 1) := by
        unfold pieceAt
        rw [if_pos rfl, hfound]
      obtain ⟨name, next, hne, hchars, ⟨rfl, rfl, heq⟩ | ⟨rfl, rfl, heq⟩⟩ := of_subpatternAt? hfound
      · obtain ⟨rfl, rfl⟩ := List.cons.inj heq
        refine .inr ⟨name, true, _, next, hne, hchars, rfl,
          isPlain_of_marked hchars (List.all_eq_true.1 rfl), rfl, ?_⟩
        rw [pieces_cons hat, List.drop_left' (by simp)]
      · obtain ⟨rfl, ht⟩ := List.cons.inj heq
        have hplain := isPlain_of_marked (v := ['\x7d', '\x7d']) hchars (List.all_eq_true.1 rfl)
        refine .inr ⟨name, false, '\x7b' :: name ++ ['\x7d', '\x7d'], next, hne, hchars, ht,
          fun d hd => hplain d (List.mem_cons_of_mem _ hd), rfl, ?_⟩
        rw [pieces_cons hat, ht]
        exact congrArg _ (congrArg (pieces · true) (List.drop_left' (by simp)))

end Pieces

/-- **The pieces of a text with calls are legible**, with the names of subpatterns or without. -/
theorem legible_of_calls (sub : Bool) : ∀ (limit : Nat) {t : Text} {cs : List Call}, t.length < limit →
    Calls .pattern t cs → (∀ call ∈ cs, call.Unnamed) → Legible (pieces t sub) cs
  | 0, _, _, hlimit, _, _ => absurd hlimit (Nat.not_lt_zero _)
  | limit + 1, t, cs, hlimit, hcalls, hunnamed => by
      have hbelow {u : Text} {ds : List Call} (hu : u.length < t.length) (h : Calls .pattern u ds)
          (hds : ∀ call ∈ ds, call.Unnamed) : Legible (pieces u sub) ds :=
        legible_of_calls sub limit (by omega) h hds
      have hshorter (c : Char) (w u : Text) : u.length < (c :: (w ++ u)).length := by
        simp only [List.length_cons, List.length_append]
        omega
      have htail {call : Call} {ds : List Call} (h : ∀ d ∈ call :: ds, d.Unnamed) :
          ∀ d ∈ ds, d.Unnamed := fun d hd => h d (List.mem_cons_of_mem call hd)
      cases hcalls with
      | nil => exact .nil
      | @plain _ c t _ hplain rest =>
        rcases pieces_subpattern_or sub c t with
          hnone | ⟨name, capturing, w, next, hne, hchars, rfl, hplains, rfl, hpieces⟩
        · rw [pieces_of_none hnone (pieceAt_plain (.inl hplain) t)]
          exact .plain (.inl hplain) (hbelow (Nat.lt_succ_self _) rest hunnamed)
        · cases capturing with
          | true => cases hplain
          | false =>
            rw [hpieces]
            exact .subpattern hne hchars (hbelow (hshorter _ w next)
              (rest.of_append hplains) hunnamed)
      | @close _ t _ rest =>
        rw [pieces_of_none (fun _ => subpatternAt?_of_ne (by decide) (by decide))
          (pieceAt_plain (.inr rfl) t)]
        exact .plain (.inr rfl) (hbelow (Nat.lt_succ_self _) rest hunnamed)
      | @set t _ rest =>
        obtain ⟨body, next, rfl, hbody, hnext⟩ := exists_classBody rest
        rw [pieces_of_none (fun _ => subpatternAt?_of_ne (by decide) (by decide))
          (pieceAt_class hbody next), List.drop_left]
        exact .set hbody (hbelow (hshorter '[' body next) hnext hunnamed)
      | @escape _ c t _ digit unnamed rest =>
        rw [pieces_of_none (fun _ => subpatternAt?_of_ne (by decide) (by decide))
          (pieceAt_escape (digit rfl) t)]
        refine .escape (digit rfl) (fun hk hless => ?_)
          (hbelow (u := t) (by simp only [List.length_cons]; omega) rest hunnamed)
        exact unnamed rfl hk (head?_pieces hless)
      | @number n t ds pos head rest =>
        rw [pieces_numberReference sub pos head]
        refine .backref pos (fun d hd => ?_) (hbelow (by simp [numberReference]) rest (htail hunnamed))
        rw [head?_pieces hd] at head
        exact head
      | @name name t _ _ _ _ _ _ => exact (hunnamed (.name name) List.mem_cons_self).elim
      | @capture t ds head rest =>
        rcases pieces_subpattern_or sub '(' t with
          hnone | ⟨name, capturing, w, next, hne, hchars, rfl, hplains, hparen, hpieces⟩
        · rw [pieces_of_none hnone (pieceAt_capture head)]
          refine .capture (fun hquestion => head ?_) (hbelow (Nat.lt_succ_self _) rest (htail hunnamed))
          exact head?_pieces hquestion
        · cases capturing with
          | false => cases hparen
          | true =>
            rw [hpieces]
            exact .subpattern hne hchars (hbelow (hshorter _ w next)
              (rest.of_append hplains) (htail hunnamed))
      | @named name t _ _ _ _ _ => exact (hunnamed (.opens (some name)) List.mem_cons_self).elim
      | @group kind w t _ opens rest =>
        have hrest := rest.of_append (w := '?' :: w) fun d hd => (opens.plain_question d hd).1
        rw [pieces_opening sub opens]
        exact .group opens (hbelow (hshorter '(' ('?' :: w) t) hrest hunnamed)

/-! ## 4. Outlines -/

/-- What the pieces of a pattern say about groups, behind `opened` groups of it. A subpattern in a group
of its own opens that group, under its own name if it has none. -/
def outline (names : GroupNames) : (opened : Nat) → List Piece → List Item
  | _, [] => []
  | n, .capture :: ps => .opens (names[n]?).join :: outline names (n + 1) ps
  | n, .backref k :: ps => .refers k :: outline names n ps
  | n, .subpattern name true :: ps =>
    .opens (some ((names[n]?).join.getD name)) :: .inserts name :: outline names (n + 1) ps
  | n, .subpattern name false :: ps => .inserts name :: outline names n ps
  | n, .verbatim _ :: ps => outline names n ps

theorem outline_run (names : GroupNames) (n : Nat) (ps : List Piece) : ∀ w : Text,
    outline names n (w.map (fun c => .verbatim [c]) ++ ps) = outline names n ps
  | [] => rfl
  | _ :: w => outline_run names n ps w

/-- **An outline shows the calls of its text.** -/
theorem outline_mentions {names : GroupNames} {ps : List Piece} {cs : List Call} (h : Legible ps cs) :
    ∀ n, (outline names n ps).filterMap Item.mention? = cs.filterMap Call.mention? := by
  induction h with
  | nil => exact fun _ => rfl
  | plain _ _ ih => exact ih
  | escape _ _ _ ih => exact ih
  | set _ _ ih => exact ih
  | @group kind w ps cs _ _ ih =>
    intro n
    have hrun : outline names n (.verbatim ['('] :: (('?' :: w).map (fun c => .verbatim [c]) ++ ps)) =
        outline names n ps := outline_run names n ps ('?' :: w)
    rw [hrun]
    exact ih n
  | capture _ _ ih => exact fun n => congrArg (Mention.opens false :: ·) (ih (n + 1))
  | @backref k ps cs _ _ _ ih => exact fun n => congrArg (Mention.number (decimalText k) :: ·) (ih n)
  | @subpattern name capturing ps cs _ _ _ ih =>
    intro n
    cases capturing with
    | true => exact congrArg (Mention.opens false :: ·) (ih (n + 1))
    | false => exact ih n

end ExtensibleRegex
