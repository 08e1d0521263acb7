import ExtensibleRegex.Proofs.Native.Characters
import ExtensibleRegex.Proofs.Text.Bytes
import Mathlib.Tactic

/-!
# Stretches of a text

Two places of a text and what is read between them (`Place.Stretch`). Stretches compose, a place and
what is read from it determine where the stretch ends, and the empty one leads nowhere. By its offsets,
a stretch is cut out of the text (`Stretch.slice?`), and so is the text of a span that lies in it
(`Span.LiesIn`). Spans that follow each other without a gap (`Tiles`) hold together what is read from the
first place to the last one (`Tiles.stretch`).
-/

namespace ExtensibleRegex

/-! ## 1. From one place to another -/

namespace Place

/-- From the place `p`, the text `w` is read up to the place `q`. -/
structure Stretch (p : Place) (w : Text) (q : Place) : Prop where
  ahead : p.ahead = w ++ q.ahead
  behind : q.behind = w.reverse ++ p.behind

variable {p q r : Place} {v w : Text}

/-- The texts on its two sides make a place. -/
theorem eq_of_sides (hbehind : p.behind = q.behind) (hahead : p.ahead = q.ahead) : p = q := by
  rcases p with ⟨b, a, i, o, hi, ho⟩
  rcases q with ⟨b', a', i', o', hi', ho'⟩
  simp only at hbehind hahead hi ho hi' ho'
  subst hbehind hahead hi ho hi' ho'
  rfl

namespace Stretch

theorem refl (p : Place) : p.Stretch [] p := ⟨rfl, rfl⟩

theorem trans (h : p.Stretch v q) (h' : q.Stretch w r) : p.Stretch (v ++ w) r where
  ahead := by rw [h.ahead, h'.ahead, List.append_assoc]
  behind := by rw [h'.behind, h.behind, List.reverse_append, List.append_assoc]

theorem eq_of_nil (h : p.Stretch [] q) : p = q := eq_of_sides h.behind.symm h.ahead

theorem text_eq (h : p.Stretch w q) : q.text = p.text := by
  rw [Place.text_eq, Place.text_eq, h.behind, h.ahead, List.reverse_append, List.reverse_reverse,
    List.append_assoc]

theorem index_eq (h : p.Stretch w q) : q.index = p.index + w.length := by
  rw [q.index_eq, p.index_eq, h.behind, List.length_append, List.length_reverse, Nat.add_comm]

/-- The text of a span is what is read between its ends. -/
theorem text_span (h : p.Stretch w q) : Span.text ⟨p, q⟩ = w := by
  show p.ahead.take (q.index - p.index) = w
  rw [h.index_eq, Nat.add_sub_cancel_left, h.ahead, List.take_left]

theorem index_lt_iff (h : p.Stretch w q) : p.index < q.index ↔ w ≠ [] := by
  rw [h.index_eq, ← List.length_pos_iff]
  omega

theorem isEmpty_span (h : p.Stretch w q) : Span.isEmpty ⟨p, q⟩ = w.isEmpty := by
  show (p.index == q.index) = w.isEmpty
  rw [h.index_eq]
  cases w with
  | nil => exact beq_self_eq_true _
  | cons c w =>
    rw [List.length_cons]
    exact beq_false_of_ne (by omega)

end Stretch

theorem stretch_next {c : Char} (h : p.next? = some (c, q)) : p.Stretch [c] q :=
  ⟨(next?_eq_some h).1, (next?_eq_some h).2.1⟩

theorem stretch_prev {c : Char} (h : p.prev? = some (c, q)) : q.Stretch [c] p := by
  rcases p with ⟨_ | ⟨d, behind⟩, ahead, _, _, _, _⟩
  · cases h
  · cases h
    exact ⟨rfl, rfl⟩

theorem stretch_advance (n : Nat) (p : Place) : p.Stretch (p.ahead.take n) (p.advance n) :=
  ⟨by rw [ahead_advance, List.take_append_drop], behind_advance n⟩

theorem Stretch.eq_advance (h : p.Stretch w q) : q = p.advance w.length :=
  eq_of_sides (by rw [behind_advance, h.ahead, List.take_left, h.behind])
    (by rw [ahead_advance, h.ahead, List.drop_left])

/-- What is left of a text leads to its end. -/
theorem stretch_to_end (p : Place) :
    p.Stretch p.ahead ((first p.text).advance p.text.length) where
  ahead := by
    show p.ahead = p.ahead ++ ((first p.text).advance p.text.length).ahead
    rw [ahead_advance, show (first p.text).ahead = p.text from rfl, List.drop_length, List.append_nil]
  behind := by
    rw [behind_advance]
    show (p.text.take p.text.length).reverse ++ [] = _
    rw [List.take_length, List.append_nil, Place.text_eq, List.reverse_append, List.reverse_reverse]

/-- Where a scan goes on after a span lies behind the span, and further than its start. -/
theorem Stretch.resume (h : p.Stretch w q) (hnext : Span.resume? ⟨p, q⟩ = some r) :
    ∃ v, q.Stretch v r ∧ w ++ v ≠ [] := by
  unfold Span.resume? at hnext
  rw [h.isEmpty_span] at hnext
  cases w with
  | nil =>
    obtain ⟨⟨c, r'⟩, hr, rfl⟩ := Option.map_eq_some_iff.1 hnext
    exact ⟨[c], stretch_next hr, List.cons_ne_nil c []⟩
  | cons c w =>
    cases hnext
    exact ⟨[], .refl q, by simp⟩

end Place

namespace Span

/-- Behind a span that is not empty, a scan goes on at its end. -/
theorem resume?_of_not_empty {s : Span} (h : s.isEmpty = false) : s.resume? = some s.stop := by
  rw [resume?, h]
  rfl

/-- At an empty span, a scan goes on behind the next character. -/
theorem resume?_refl (p : Place) : resume? ⟨p, p⟩ = p.next?.map Prod.snd :=
  if_pos (beq_self_eq_true p.index)

end Span

/-! ## 2. By offsets -/

namespace Place

variable {p q : Place} {w : Text}

theorem Stretch.offset_eq (h : p.Stretch w q) : q.offset = p.offset + byteLength w := by
  rw [q.offset_eq, p.offset_eq, h.behind, byteLength_append, byteLength_reverse, Nat.add_comm]

/-- What a text holds from the offset of a place on lies ahead of it. -/
theorem sliceFrom?_offset (p : Place) : sliceFrom? p.text p.offset = some p.ahead := by
  have hcut := cutAt?_append p.behind.reverse p.ahead
  rw [← text_eq, byteLength_reverse, ← p.offset_eq] at hcut
  rw [sliceFrom?, hcut]
  rfl

/-- A text in three parts, before, in and after a stretch. -/
theorem Stretch.cutRange? (h : p.Stretch w q) :
    cutRange? p.text p.offset q.offset = some (p.behind.reverse, w, q.ahead) := by
  have hcut := cutRange?_append p.behind.reverse w q.ahead
  rw [List.append_assoc, byteLength_append, byteLength_reverse, ← p.offset_eq, ← h.offset_eq] at hcut
  rw [Place.text_eq p, h.ahead]
  exact hcut

theorem Stretch.slice? (h : p.Stretch w q) : slice? p.text p.offset q.offset = some w := by
  rw [ExtensibleRegex.slice?, h.cutRange?]
  rfl

/-- What stands in place of a stretch is ahead of the place where it started. -/
theorem Stretch.replaceRange? (h : p.Stretch w q) (new : Text) :
    replaceRange? p.text p.offset q.offset new = some (p.withAhead (new ++ q.ahead)).text := by
  rw [ExtensibleRegex.replaceRange?, h.cutRange?, text_withAhead, ← List.append_assoc]
  rfl

/-- **A stretch is a range between boundaries of characters.** -/
theorem Stretch.isRange (h : p.Stretch w q) : IsRange p.text p.offset q.offset :=
  isRange_iff.2 (by rw [h.slice?]; rfl)

/-- What a text holds up to the offset of a place lies behind it. -/
theorem slice?_offset (p : Place) : slice? p.text 0 p.offset = some p.behind.reverse := by
  have hcut := cutRange?_append [] p.behind.reverse p.ahead
  rw [List.nil_append, ← text_eq, byteLength_reverse, ← p.offset_eq] at hcut
  rw [slice?, show cutRange? p.text 0 p.offset = _ from hcut]
  rfl

end Place

namespace Span

/-- A span lies in a text: it is what is read from one place of the text to another one. -/
structure LiesIn (s : Span) (text : Text) : Prop where
  subject : s.start.text = text
  stretch : ∃ w, s.start.Stretch w s.stop

variable {s : Span} {text : Text}

/-- The text of a span is what the text holds between its offsets. -/
theorem LiesIn.slice? (h : s.LiesIn text) : slice? text s.start.offset s.stop.offset = some s.text := by
  obtain ⟨rfl, w, hw⟩ := h
  have htext : s.text = w := hw.text_span
  rw [hw.slice?, htext]

theorem LiesIn.slice?_before (h : s.LiesIn text) :
    ExtensibleRegex.slice? text 0 s.start.offset = some s.before := by
  obtain ⟨rfl, -⟩ := h
  exact s.start.slice?_offset

theorem LiesIn.sliceFrom?_after (h : s.LiesIn text) : sliceFrom? text s.stop.offset = some s.after := by
  obtain ⟨rfl, w, hw⟩ := h
  rw [← hw.text_eq]
  exact s.stop.sliceFrom?_offset

end Span

/-! ## 3. One span after another -/

/-- Spans that lead from one place to another, each beginning where the one before it ends. -/
def Tiles : Place → List Span → Place → Prop
  | p, [], q => p = q
  | p, s :: ss, q => s.start = p ∧ (∃ w, s.start.Stretch w s.stop) ∧ Tiles s.stop ss q

theorem tiles_append : ∀ {p q r : Place} {ss ss' : List Span}, Tiles p ss q → Tiles q ss' r →
    Tiles p (ss ++ ss') r
  | _, _, _, [], _, h, h' => h ▸ h'
  | _, _, _, _ :: _, _, ⟨hstart, hstretch, h⟩, h' => ⟨hstart, hstretch, tiles_append h h'⟩

/-- **Tiles cover what they lead over**: their texts make up the text that is read. -/
theorem Tiles.stretch : ∀ {p q : Place} {ss : List Span}, Tiles p ss q →
    p.Stretch (ss.flatMap Span.text) q
  | _, _, [], h => h ▸ .refl _
  | _, _, s :: ss, ⟨hstart, ⟨w, hw⟩, h⟩ => by
      subst hstart
      have htext : s.text = w := hw.text_span
      rw [List.flatMap_cons, htext]
      exact hw.trans h.stretch

end ExtensibleRegex
