import ExtensibleRegex.Proofs.Combine.Outlines
import Mathlib.Tactic

/-!
# What a build writes

A build writes its outer pattern piece by piece, and in the places of the subpatterns their pieces. Both
are written in the same way, by a `Script`: groups get names, a reference is written by name if its group
has one, and by the number that the group will have if not.

* `assemble_eq_ok` says that what is put together is what the scripts write.
* `Script.calls_bits` says that this is a text with calls, if the pieces are legible.
-/

namespace ExtensibleRegex

open Native

/-! ## 1. Scripts -/

/-- A part of what is written. -/
inductive Bit where
  | call (c : Call)
  | verbatim (t : Text)
  deriving DecidableEq, Repr

namespace Bit

def text : Bit → Text
  | call (.opens name) => openCapture name
  | call (.number n) => numberReference n
  | call (.name name) => nameReference name
  | verbatim t => t

def call? : Bit → Option Call
  | call c => some c
  | verbatim _ => none

end Bit

/-- Bits written one after another. -/
def writeBits (bs : List Bit) : Text := bs.flatMap Bit.text

/-- The calls among bits. -/
def callsOf (bs : List Bit) : List Call := bs.filterMap Bit.call?

/-- How a pattern is written. -/
structure Script where
  names : GroupNames
  /-- The number of a group, when the groups that have opened have the given ones, the last first. -/
  target : (outer : List Nat) → Nat → Nat
  /-- How many groups a subpattern has. -/
  own : Text → Nat
  /-- What is written for a subpattern behind other groups. -/
  insertion : (prior : Nat) → Text → List Bit

namespace Script

/-- A reference to a group, by its name if it has one. -/
def reference (s : Script) (outer : List Nat) (n : Nat) : Call :=
  match (s.names[n - 1]?).join with
  | some name => .name name
  | none => .number (s.target outer n)

/-- What is written for pieces, behind `groups` groups, of which those of the pattern itself have the
numbers in `outer`. -/
def bits (s : Script) : (groups : Nat) → (outer : List Nat) → List Piece → List Bit
  | _, _, [] => []
  | g, o, .capture :: ps => .call (.opens (s.names[o.length]?).join) :: s.bits (g + 1) ((g + 1) :: o) ps
  | g, o, .backref n :: ps => .call (s.reference o n) :: s.bits g o ps
  | g, o, .verbatim t :: ps => .verbatim t :: s.bits g o ps
  | g, o, .subpattern name true :: ps =>
    .call (.opens (some ((s.names[o.length]?).join.getD name))) ::
      (s.insertion (g + 1) name ++
        .verbatim [')'] :: s.bits (g + 1 + s.own name) ((g + 1) :: o) ps)
  | g, o, .subpattern name false :: ps =>
    .verbatim ['(', '?', ':'] :: (s.insertion g name ++ .verbatim [')'] :: s.bits (g + s.own name) o ps)

/-- What is written for a reference. -/
theorem text_reference (s : Script) (outer : List Nat) (n : Nat) :
    Bit.text (.call (s.reference outer n)) =
      match (s.names[n - 1]?).join with
      | some name => nameReference name
      | none => numberReference (s.target outer n) := by
  unfold reference
  cases (s.names[n - 1]?).join <;> rfl

end Script

namespace Part

/-- How many groups a part opens. -/
def groups (part : Part) : Nat := (pieces part.pattern false).count .capture

/-- How a part is written behind other groups. -/
def script (part : Part) (prior : Nat) : Script where
  names := part.names
  target _ n := n + prior
  own _ := 0
  insertion _ _ := []

/-- What is written for a part behind other groups. -/
def bits (part : Part) (prior : Nat) : List Bit :=
  (part.script prior).bits prior [] (pieces part.pattern false)

/-- How an outer pattern is written. -/
def outerScript (outer : Part) (parts : List (Text × Part)) : Script where
  names := outer.names
  target o n := (⟨0, o, []⟩ : Assembly).target n
  own name := ((parts.lookup name).map Part.groups).getD 0
  insertion prior name := ((parts.lookup name).map fun part => part.bits prior).getD []

end Part

/-! ## 2. What is put together -/

section Writing

variable {ps : List Piece} {a b : Assembly}

theorem writeBits_append (bs bs' : List Bit) : writeBits (bs ++ bs') = writeBits bs ++ writeBits bs' :=
  List.flatMap_append

theorem callsOf_append (bs bs' : List Bit) : callsOf (bs ++ bs') = callsOf bs ++ callsOf bs' :=
  List.filterMap_append

/-- Without names for subpatterns no piece stands for one. -/
theorem not_subpattern {p : Piece} : ∀ (limit : Nat) (t : Text), t.length < limit → p ∈ pieces t false →
    ∀ name capturing, p ≠ .subpattern name capturing
  | 0, _, hlimit, _ => absurd hlimit (Nat.not_lt_zero _)
  | limit + 1, [], _, h => by cases h
  | limit + 1, c :: t, hlimit, h => by
      have hcut : pieces (c :: t) false =
          (pieceAt false c t).1 :: pieces (t.drop (pieceAt false c t).2) false := pieces_cons rfl
      rw [hcut] at h
      rcases List.mem_cons.1 h with rfl | h
      · intro name capturing heq
        unfold pieceAt at heq
        simp only [Bool.false_eq_true, if_false] at heq
        split at heq
        · cases heq
        split at heq
        · split at heq <;> cases heq
        split at heq
        · split at heq <;> cases heq
        · cases heq
      · refine not_subpattern limit _ ?_ h
        rw [List.length_drop]
        exact Nat.lt_of_le_of_lt (Nat.sub_le _ _) (Nat.lt_of_succ_lt_succ hlimit)

/-- What is written for the pieces of a part. -/
theorem foldl_writeInner (part : Part) (prior : Nat) : ∀ {ps : List Piece} {a : Assembly} {o : List Nat},
    (∀ p ∈ ps, ∀ name capturing, p ≠ .subpattern name capturing) → a.groups = prior + o.length →
    ps.foldl (Assembly.writeInner part.names prior) a =
      ⟨a.groups + ps.count .capture, a.outer,
        (((part.script prior).bits a.groups o ps).map Bit.text).reverse ++ a.output⟩
  | [], a, _, _, _ => rfl
  | p :: ps, a, o, hplain, hgroups => by
      have hrest : ∀ q ∈ ps, ∀ name capturing, q ≠ .subpattern name capturing :=
        fun q hq => hplain q (List.mem_cons_of_mem p hq)
      have hindex : a.groups - prior = o.length := by omega
      rw [List.foldl_cons]
      cases p with
      | capture =>
        have ih := foldl_writeInner part prior
          (a := Assembly.writeInner part.names prior a .capture) (o := (a.groups + 1) :: o) hrest
          (by simp only [Assembly.writeInner, List.length_cons]; omega)
        rw [ih]
        simp only [Assembly.writeInner, Assembly.write, Script.bits, Part.script, hindex, Bit.text,
          List.count_cons, List.map_cons, List.reverse_cons, List.append_assoc, List.singleton_append,
          beq_self_eq_true, if_true]
        congr 1
        omega
      | backref n =>
        have hkeeps : (Assembly.writeInner part.names prior a (.backref n)) =
            ⟨a.groups, a.outer, Bit.text (.call ((part.script prior).reference o n)) :: a.output⟩ := by
          rw [Script.text_reference]
          simp only [Assembly.writeInner, Part.script]
          cases (part.names[n - 1]?).join <;> rfl
        have ih := foldl_writeInner part prior
          (a := Assembly.writeInner part.names prior a (.backref n)) (o := o) hrest
          (by rw [hkeeps]; exact hgroups)
        rw [ih, hkeeps]
        simp [Script.bits]
      | subpattern name capturing =>
        exact absurd rfl (hplain _ List.mem_cons_self name capturing)
      | verbatim t =>
        have ih := foldl_writeInner part prior
          (a := Assembly.writeInner part.names prior a (.verbatim t)) (o := o) hrest hgroups
        rw [ih]
        simp [Assembly.writeInner, Assembly.write, Script.bits, Bit.text]

/-- A part, written behind what there is. -/
theorem writePart_eq (a : Assembly) (part : Part) :
    a.writePart part = ⟨a.groups + part.groups, a.outer,
      .cons [')'] (((part.bits a.groups).map Bit.text).reverse ++ a.output)⟩ := by
  have hplain : ∀ p ∈ pieces part.pattern false, ∀ name capturing, p ≠ .subpattern name capturing :=
    fun p hp => not_subpattern _ _ (Nat.lt_succ_self _) hp
  unfold Assembly.writePart
  rw [foldl_writeInner part a.groups hplain (o := []) rfl]
  rfl

/-- What is written for the pieces of an outer pattern. -/
theorem foldlM_writeOuter {outer : Part} {parts : List (Text × Part)} : ∀ {ps : List Piece}
    {a b : Assembly}, ps.foldlM (Assembly.writeOuter parts outer.names) a = .ok b →
    b.output = (((outer.outerScript parts).bits a.groups a.outer ps).map Bit.text).reverse ++ a.output ∧
      ∀ name capturing, .subpattern name capturing ∈ ps → ∃ part, parts.lookup name = some part
  | [], a, b, h => by
      obtain rfl := Except.ok.inj h
      exact ⟨rfl, fun name capturing hmem => absurd hmem List.not_mem_nil⟩
  | p :: ps, a, b, h => by
      rw [List.foldlM_cons] at h
      obtain ⟨a', hfirst, hrest⟩ := bind_eq_ok.1 h
      have ih := foldlM_writeOuter hrest
      have hmore (hp : ∀ name capturing, .subpattern name capturing ≠ p) (name : Text) (capturing : Bool)
          (hmem : .subpattern name capturing ∈ p :: ps) : ∃ part, parts.lookup name = some part :=
        ih.2 name capturing ((List.mem_cons.1 hmem).resolve_left (hp name capturing))
      cases p with
      | capture =>
        obtain rfl := Except.ok.inj hfirst
        refine ⟨?_, hmore fun name capturing h => by cases h⟩
        rw [ih.1]
        simp [Assembly.openOuter, Script.bits, Part.outerScript, Bit.text]
      | backref n =>
        have hwritten : a' = a.write (Bit.text (.call ((outer.outerScript parts).reference a.outer n))) := by
          rw [Script.text_reference]
          simp only [Assembly.writeOuter] at hfirst
          simp only [Part.outerScript]
          cases hname : (outer.names[n - 1]?).join <;> rw [hname] at hfirst <;>
            exact (Except.ok.inj hfirst).symm
        subst hwritten
        refine ⟨?_, hmore fun name capturing h => by cases h⟩
        rw [ih.1]
        simp [Assembly.write, Script.bits]
      | verbatim t =>
        obtain rfl := Except.ok.inj hfirst
        refine ⟨?_, hmore fun name capturing h => by cases h⟩
        rw [ih.1]
        simp [Assembly.write, Script.bits, Bit.text]
      | subpattern name capturing =>
        simp only [Assembly.writeOuter] at hfirst
        cases hpart : parts.lookup name with
        | none =>
          rw [hpart] at hfirst
          cases hfirst
        | some part =>
          have hown : (outer.outerScript parts).own name = part.groups := by
            simp [Part.outerScript, hpart]
          have hinsertion (prior : Nat) :
              (outer.outerScript parts).insertion prior name = part.bits prior := by
            simp [Part.outerScript, hpart]
          rw [hpart] at hfirst
          refine ⟨?_, fun other capturing' hmem => ?_⟩
          · rw [ih.1]
            cases capturing with
            | true =>
              obtain rfl := Except.ok.inj hfirst
              rw [writePart_eq]
              simp only [Script.bits, hown, hinsertion]
              simp [Assembly.openOuter, Part.outerScript, Bit.text]
            | false =>
              obtain rfl := Except.ok.inj hfirst
              rw [writePart_eq]
              simp only [Script.bits, hown, hinsertion]
              simp [Assembly.write, Bit.text]
          · rcases List.mem_cons.1 hmem with heq | hmem
            · obtain ⟨rfl, -⟩ := Piece.subpattern.inj heq
              exact ⟨part, hpart⟩
            · exact ih.2 other capturing' hmem

/-- **What is put together** is what the script of the outer pattern writes. -/
theorem assemble_eq_ok {outer : Part} {parts : List (Text × Part)} {t : Text}
    (h : assemble outer parts = .ok t) :
    t = writeBits ((outer.outerScript parts).bits 0 [] (pieces outer.pattern true)) ∧
      ∀ name capturing, .subpattern name capturing ∈ pieces outer.pattern true →
        ∃ part, parts.lookup name = some part := by
  unfold assemble at h
  obtain ⟨a, ha, h⟩ := bind_eq_ok.1 h
  obtain rfl := Except.ok.inj h
  obtain ⟨houtput, hfound⟩ := foldlM_writeOuter ha
  refine ⟨?_, hfound⟩
  unfold Assembly.toText
  rw [houtput]
  simp [Assembly.initial, writeBits, List.flatMap]

end Writing

/-! ## 3. Calls of what is written -/

/-- A name by which a group can be called. -/
structure Callable (name : Text) : Prop where
  ne_nil : name ≠ []
  isNameChar : ∀ c ∈ name, isNameChar c = true
  not_digits : name.all Char.isDigit = false

namespace Script

/-- A script that writes texts with calls for pieces. -/
structure Sound (s : Script) (ps : List Piece) : Prop where
  callable : ∀ name, some name ∈ s.names → Callable name
  target_pos : ∀ o n, (∀ m ∈ o, 0 < m) → 0 < n → 0 < s.target o n
  insertion : ∀ name capturing, .subpattern name capturing ∈ ps → ∀ prior rest ms,
    Calls .pattern (')' :: rest) ms →
      Calls .pattern (writeBits (s.insertion prior name) ++ ')' :: rest)
        (callsOf (s.insertion prior name) ++ ms) ∧
      (writeBits (s.insertion prior name) ++ ')' :: rest).head? ≠ some '?'

section Writing

variable {s : Script} {ps : List Piece} {cs ms : List Call} {rest : Text} {g : Nat} {o : List Nat}

theorem Sound.tail {p : Piece} (h : s.Sound (p :: ps)) : s.Sound ps where
  callable := h.callable
  target_pos := h.target_pos
  insertion name capturing hmem := h.insertion name capturing (List.mem_cons_of_mem p hmem)

theorem Sound.name? (h : s.Sound ps) {n : Nat} {name : Text} (hn : (s.names[n]?).join = some name) :
    Callable name :=
  h.callable name (List.mem_of_getElem? (Option.join_eq_some_iff.1 hn))

/-- Single characters are written as they are. -/
theorem bits_run (g : Nat) (o : List Nat) (ps : List Piece) : ∀ w : Text,
    s.bits g o (w.map (fun c => .verbatim [c]) ++ ps) =
      w.map (fun c => .verbatim [c]) ++ s.bits g o ps
  | [] => rfl
  | c :: w => congrArg (Bit.verbatim [c] :: ·) (bits_run g o ps w)

theorem writeBits_run (bs : List Bit) : ∀ w : Text,
    writeBits (w.map (fun c => .verbatim [c]) ++ bs) = w ++ writeBits bs
  | [] => rfl
  | c :: w => congrArg (c :: ·) (writeBits_run bs w)

theorem callsOf_run (bs : List Bit) : ∀ w : Text,
    callsOf (w.map (fun c => .verbatim [c]) ++ bs) = callsOf bs
  | [] => rfl
  | _ :: w => callsOf_run bs w

theorem text_call (call : Call) : ∃ c t, Bit.text (.call call) = c :: t ∧ c ∈ ['\\', '[', '('] := by
  cases call with
  | opens name => cases name <;> exact ⟨'(', _, rfl, by decide⟩
  | number n => exact ⟨'\\', _, rfl, by decide⟩
  | name name => exact ⟨'\\', _, rfl, by decide⟩

/-- What is written begins as the pieces do, or with a mark, if it ends or goes on with a closing
parenthesis. -/
theorem head?_bits (h : Legible ps cs) (hend : ∀ c, rest.head? = some c → c = ')') {c : Char}
    (hc : (writeBits (s.bits g o ps) ++ rest).head? = some c) :
    ps.head? = some (.verbatim [c]) ∨ c ∈ ['\\', '[', '(', ')'] := by
  have hcall {call : Call} {bs : List Bit} (hd : (writeBits (.call call :: bs) ++ rest).head? = some c) :
      c ∈ ['\\', '[', '(', ')'] := by
    obtain ⟨d, t, htext, hmark⟩ := text_call call
    have htext' : writeBits (.call call :: bs) ++ rest = d :: (t ++ writeBits bs ++ rest) := by
      show Bit.text (.call call) ++ writeBits bs ++ rest = _
      rw [htext]
      rfl
    rw [htext'] at hd
    obtain rfl := Option.some.inj hd
    exact List.mem_append_left [')'] hmark
  have hverbatim {d : Char} {t : Text} {bs : List Bit}
      (hd : (writeBits (.verbatim (d :: t) :: bs) ++ rest).head? = some c) : d = c := Option.some.inj hd
  cases h with
  | nil =>
    obtain rfl := hend c hc
    exact .inr (by decide)
  | plain _ _ =>
    obtain rfl := hverbatim hc
    exact .inl rfl
  | escape _ _ _ =>
    obtain rfl := hverbatim hc
    exact .inr (by decide)
  | set _ _ =>
    obtain rfl := hverbatim hc
    exact .inr (by decide)
  | group _ _ =>
    obtain rfl := hverbatim hc
    exact .inl rfl
  | capture _ _ => exact .inr (hcall hc)
  | backref _ _ _ => exact .inr (hcall hc)
  | @subpattern name capturing _ _ _ _ _ =>
    cases capturing with
    | true => exact .inr (hcall hc)
    | false =>
      obtain rfl := hverbatim hc
      exact .inr (by decide)

/-- What is inserted stands before the parenthesis that closes its group. -/
theorem writeBits_enclosed (is bs : List Bit) (rest : Text) :
    writeBits (is ++ .verbatim [')'] :: bs) ++ rest =
      writeBits is ++ ')' :: (writeBits bs ++ rest) := by
  rw [writeBits_append, List.append_assoc]
  rfl

theorem callsOf_enclosed (is bs : List Bit) (ms : List Call) :
    callsOf (is ++ .verbatim [')'] :: bs) ++ ms = callsOf is ++ (callsOf bs ++ ms) := by
  rw [callsOf_append, List.append_assoc]
  rfl

theorem opens_plain : Opens (.plain [] []) [':'] where
  kind_ne _ := nofun
  plain := List.all_eq_true.1 rfl
  opening _ := rfl

/-- The opening of a group, before a text with calls. -/
theorem calls_opens {name : Option Text} {t : Text} (hname : ∀ n, name = some n → n ≠ [] ∧
    ∀ c ∈ n, isNameChar c = true) (ht : t.head? ≠ some '?') (h : Calls .pattern t ms) :
    Calls .pattern (openCapture name ++ t) (.opens name :: ms) := by
  cases name with
  | none => exact .capture ht h
  | some n => exact .named (hname n rfl).1 (hname n rfl).2 ht h

/-- **What a script writes is a text with calls**, before a text with calls that begins with a closing
parenthesis, or at the end. -/
theorem calls_bits (h : Legible ps cs) : ∀ (g : Nat) (o : List Nat), s.Sound ps → (∀ m ∈ o, 0 < m) →
    (∀ c, rest.head? = some c → c = ')') → Calls .pattern rest ms →
    Calls .pattern (writeBits (s.bits g o ps) ++ rest) (callsOf (s.bits g o ps) ++ ms) := by
  induction h with
  | nil => exact fun _ _ _ _ _ hrest => hrest
  | @plain c ps cs plain _ ih =>
    intro g o hs ho hend hrest
    have ih := ih g o hs.tail ho hend hrest
    rcases plain with plain | rfl
    · exact .plain plain ih
    · exact .close ih
  | @escape c ps cs digit unnamed hps ih =>
    intro g o hs ho hend hrest
    refine .escape (fun _ => digit) (fun _ hk hless => ?_) (ih g o hs.tail ho hend hrest)
    rcases head?_bits hps hend hless with hd | hd
    · exact unnamed hk hd
    · exact absurd hd (by decide)
  | @set body ps cs closes _ ih =>
    intro g o hs ho hend hrest
    have hwritten : writeBits (s.bits g o (.verbatim ('[' :: body) :: ps)) ++ rest =
        '[' :: (body ++ (writeBits (s.bits g o ps) ++ rest)) := by
      show '[' :: body ++ writeBits (s.bits g o ps) ++ rest = _
      simp
    rw [hwritten]
    exact .set (calls_classBody closes (ih g o hs.tail ho hend hrest))
  | @group kind w ps cs opens _ ih =>
    intro g o hs ho hend hrest
    have hbits : s.bits g o (.verbatim ['('] :: (('?' :: w).map (fun c => .verbatim [c]) ++ ps)) =
        ('(' :: '?' :: w).map (fun c => .verbatim [c]) ++ s.bits g o ps :=
      bits_run g o ps ('(' :: '?' :: w)
    have hsound : s.Sound ps := by
      refine ⟨hs.callable, hs.target_pos, fun name capturing hmem => hs.insertion name capturing ?_⟩
      exact List.mem_cons_of_mem _ (List.mem_append_right _ hmem)
    have ih := ih g o hsound ho hend hrest
    rw [hbits, writeBits_run, callsOf_run, List.append_assoc]
    exact .group opens (.plain rfl (ih.append opens.plain))
  | @capture ps cs head hps ih =>
    intro g o hs ho hend hrest
    have ih := ih (g + 1) ((g + 1) :: o) hs.tail (List.forall_mem_cons.2 ⟨Nat.succ_pos g, ho⟩) hend hrest
    have hwritten : writeBits (s.bits g o (.capture :: ps)) ++ rest =
        openCapture (s.names[o.length]?).join ++
          (writeBits (s.bits (g + 1) ((g + 1) :: o) ps) ++ rest) :=
      List.append_assoc _ _ _
    rw [hwritten]
    refine calls_opens (fun n hn => ?_) (fun hquestion => ?_) ih
    · exact ⟨(hs.name? hn).ne_nil, (hs.name? hn).isNameChar⟩
    · rcases head?_bits hps hend hquestion with hd | hd
      · exact head hd
      · exact absurd hd (by decide)
  | @backref n ps cs pos head hps ih =>
    intro g o hs ho hend hrest
    have ih := ih g o hs.tail ho hend hrest
    have hnext : (writeBits (s.bits g o ps) ++ rest).head?.any Char.isDigit = false := by
      cases hhead : (writeBits (s.bits g o ps) ++ rest).head? with
      | none => rfl
      | some c =>
        rcases head?_bits hps hend hhead with hd | hd
        · exact head c hd
        · simp only [List.mem_cons, List.not_mem_nil, or_false] at hd
          rcases hd with rfl | rfl | rfl | rfl <;> rfl
    have hwritten : writeBits (s.bits g o (.backref n :: ps)) ++ rest =
        Bit.text (.call (s.reference o n)) ++ (writeBits (s.bits g o ps) ++ rest) :=
      List.append_assoc _ _ _
    have hcalls : callsOf (s.bits g o (.backref n :: ps)) ++ ms =
        s.reference o n :: (callsOf (s.bits g o ps) ++ ms) := rfl
    rw [hwritten, hcalls]
    unfold reference
    cases hname : (s.names[n - 1]?).join with
    | none => exact .number (hs.target_pos o n ho pos) hnext ih
    | some name =>
      have hcallable := hs.name? hname
      exact .name hcallable.ne_nil hcallable.isNameChar hcallable.not_digits hnext ih
  | @subpattern name capturing ps cs ne_nil isNameChar hps ih =>
    intro g o hs ho hend hrest
    cases capturing with
    | true =>
      have ih := ih (g + 1 + s.own name) ((g + 1) :: o) hs.tail
        (List.forall_mem_cons.2 ⟨Nat.succ_pos g, ho⟩) hend hrest
      obtain ⟨hinserted, hhead⟩ :=
        hs.insertion name true List.mem_cons_self (g + 1) _ _ (.plain rfl ih)
      rw [← writeBits_enclosed] at hinserted hhead
      rw [← callsOf_enclosed] at hinserted
      have hwritten : writeBits (s.bits g o (.subpattern name true :: ps)) ++ rest =
          openCapture (some ((s.names[o.length]?).join.getD name)) ++
            (writeBits (s.insertion (g + 1) name ++ .verbatim [')'] ::
              s.bits (g + 1 + s.own name) ((g + 1) :: o) ps) ++ rest) :=
        List.append_assoc _ _ _
      rw [hwritten]
      refine calls_opens (fun n hn => ?_) hhead hinserted
      obtain rfl := Option.some.inj hn
      cases hlabel : (s.names[o.length]?).join with
      | none => exact ⟨ne_nil, isNameChar⟩
      | some label => exact ⟨(hs.name? hlabel).ne_nil, (hs.name? hlabel).isNameChar⟩
    | false =>
      have ih := ih (g + s.own name) o hs.tail ho hend hrest
      obtain ⟨hinserted, -⟩ := hs.insertion name false List.mem_cons_self g _ _ (.plain rfl ih)
      rw [← writeBits_enclosed, ← callsOf_enclosed] at hinserted
      exact .group (w := [':']) opens_plain (.plain rfl (.plain rfl hinserted))

end Writing

end Script

end ExtensibleRegex
