import ExtensibleRegex.Proofs.Expansion.Groups
import Mathlib.Tactic

/-!
# Reading the front of a pattern

`Reader.read` says what becomes of a whole pattern. To compare patterns that begin alike, the reading
of a front is needed, with the text that follows present, since tokens look ahead:

* a `Cut` lists pieces together with the text that each was read from;
* `Passes` says that a cut is how its text is read before a given text, and `Passes.readFrom` that
  reading then goes on behind it;
* `Passes.after` says that a cut leads to a spot that fits the scope in which it ends.
-/

namespace ExtensibleRegex

open Native

namespace Reader

/-! ## 1. Cuts -/

/-- Pieces, each with the text that it was read from. -/
abbrev Cut := List (Text × Segment)

/-- The text that the pieces of a cut were read from. -/
def source (cut : Cut) : Text := cut.flatMap Prod.fst

/-- What is written for the pieces of a cut. -/
def written (cut : Cut) : Text := render (cut.map Prod.snd)

/-- The scope after a cut. -/
def scopeBehind (scope : Scope) (cut : Cut) : Scope := cut.foldl (fun s x => x.2.scopeAfter s) scope

/-- The groups opened after a cut. -/
def ledgerBehind (ledger : Ledger) (cut : Cut) : Ledger := cut.foldl (fun l x => x.2.enter l) ledger

theorem source_cons (w : Text) (piece : Segment) (cut : Cut) :
    source ((w, piece) :: cut) = w ++ source cut := rfl

theorem written_cons (w : Text) (piece : Segment) (cut : Cut) :
    written ((w, piece) :: cut) = piece.text ++ written cut := rfl

/-- Pieces are read one after another, before a text. -/
def Passes (r : Reader) (next : Text) : Scope → Ledger → (behind : Text) → Cut → Prop
  | _, _, _, [] => True
  | scope, ledger, behind, (w, piece) :: cut =>
    w ≠ [] ∧ r.segment scope ledger behind (w ++ (source cut ++ next)) = .ok (piece, w.length) ∧
      Passes r next (piece.scopeAfter scope) (piece.enter ledger) (w.reverse ++ behind) cut

instance decidablePasses (r : Reader) (next : Text) : ∀ (scope : Scope) (ledger : Ledger)
    (behind : Text) (cut : Cut), Decidable (r.Passes next scope ledger behind cut)
  | _, _, _, [] => inferInstanceAs (Decidable True)
  | scope, ledger, behind, (w, piece) :: cut =>
    have := decidablePasses r next (piece.scopeAfter scope) (piece.enter ledger)
      (w.reverse ++ behind) cut
    inferInstanceAs (Decidable (_ ∧ _ ∧ _))

variable {r : Reader} {next : Text}

theorem source_append (a b : Cut) : source (a ++ b) = source a ++ source b := List.flatMap_append

theorem written_append (a b : Cut) : written (a ++ b) = written a ++ written b := by
  simp [written, render]

theorem passes_cons {scope : Scope} {ledger : Ledger} {behind w : Text} {piece : Segment} {cut : Cut} :
    r.Passes next scope ledger behind ((w, piece) :: cut) ↔
      w ≠ [] ∧ r.segment scope ledger behind (w ++ (source cut ++ next)) = .ok (piece, w.length) ∧
        r.Passes next (piece.scopeAfter scope) (piece.enter ledger) (w.reverse ++ behind) cut :=
  Iff.rfl

theorem Passes.eq_nil {scope : Scope} {ledger : Ledger} {behind : Text} : ∀ {cut : Cut},
    r.Passes next scope ledger behind cut → source cut = [] → cut = []
  | [], _, _ => rfl
  | (w, piece) :: cut, h, hsource => by
      rw [source_cons, List.append_eq_nil_iff] at hsource
      exact absurd hsource.1 h.1

/-- A cut in two parts, the first of which is read before the text of the second. -/
theorem passes_append {b : Cut} : ∀ {a : Cut} {scope : Scope} {ledger : Ledger} {behind : Text},
    r.Passes next scope ledger behind (a ++ b) ↔
      r.Passes (source b ++ next) scope ledger behind a ∧
        r.Passes next (scopeBehind scope a) (ledgerBehind ledger a) ((source a).reverse ++ behind) b
  | [], _, _, _ => (and_iff_right trivial).symm
  | (w, piece) :: a, scope, ledger, behind => by
      have ih : r.Passes next (piece.scopeAfter scope) (piece.enter ledger) (w.reverse ++ behind)
          (a ++ b) ↔ _ := passes_append
      have hsource : source (a ++ b) ++ next = source a ++ (source b ++ next) := by
        rw [source_append, List.append_assoc]
      have hbehind : (source a).reverse ++ (w.reverse ++ behind) =
          (source ((w, piece) :: a)).reverse ++ behind := by
        rw [source_cons, List.reverse_append, List.append_assoc]
      rw [hbehind] at ih
      rw [List.cons_append, passes_cons, passes_cons, hsource, ih, and_assoc, and_assoc]
      rfl

/-! ## 2. Reading on -/

/-- The characters of the piece read last are passed over. -/
theorem readFrom_append (r : Reader) (scope : Scope) (ledger : Ledger) (t : Text) :
    ∀ (w behind : Text), r.readFrom w.length scope ledger behind (w ++ t) =
      r.readFrom 0 scope ledger (w.reverse ++ behind) t
  | [], _ => rfl
  | c :: w, behind => by
      have ih := readFrom_append r scope ledger t w (c :: behind)
      rw [List.reverse_cons, List.append_assoc]
      exact ih

/-- Behind the first piece of a text reading goes on. -/
theorem readFrom_segment {scope : Scope} {ledger : Ledger} {behind w t : Text} {piece : Segment}
    (hne : w ≠ []) (h : r.segment scope ledger behind (w ++ t) = .ok (piece, w.length)) :
    r.readFrom 0 scope ledger behind (w ++ t) =
      (r.readFrom 0 (piece.scopeAfter scope) (piece.enter ledger) (w.reverse ++ behind) t).map
        (piece :: ·) := by
  obtain ⟨c, w, rfl⟩ := List.exists_cons_of_ne_nil hne
  have hskip := readFrom_append r (piece.scopeAfter scope) (piece.enter ledger) t w (c :: behind)
  rw [List.cons_append] at h ⊢
  conv_lhs => unfold readFrom
  rw [h]
  simp only [List.length_cons, Nat.add_sub_cancel]
  rw [hskip, List.reverse_cons, List.append_assoc]
  rfl

/-- **Behind a cut reading goes on with what follows.** -/
theorem Passes.readFrom : ∀ {cut : Cut} {scope : Scope} {ledger : Ledger} {behind : Text},
    r.Passes next scope ledger behind cut →
    r.readFrom 0 scope ledger behind (source cut ++ next) =
      (r.readFrom 0 (scopeBehind scope cut) (ledgerBehind ledger cut)
        ((source cut).reverse ++ behind) next).map (cut.map Prod.snd ++ ·)
  | [], scope, ledger, behind, _ => by
      show r.readFrom 0 scope ledger behind next = (r.readFrom 0 scope ledger behind next).map _
      cases r.readFrom 0 scope ledger behind next <;> rfl
  | (w, piece) :: cut, scope, ledger, behind, h => by
      obtain ⟨hne, hsegment, hrest⟩ := h
      have hbehind : (source cut).reverse ++ (w.reverse ++ behind) =
          (source ((w, piece) :: cut)).reverse ++ behind := by
        rw [source_cons, List.reverse_append, List.append_assoc]
      have hscope : scopeBehind scope ((w, piece) :: cut) =
          scopeBehind (piece.scopeAfter scope) cut := rfl
      have hledger : ledgerBehind ledger ((w, piece) :: cut) =
          ledgerBehind (piece.enter ledger) cut := rfl
      rw [hscope, hledger, ← hbehind, source_cons, List.append_assoc, readFrom_segment hne hsegment,
        hrest.readFrom]
      generalize r.readFrom 0 (scopeBehind (piece.scopeAfter scope) cut)
        (ledgerBehind (piece.enter ledger) cut) _ next = rest
      cases rest <;> rfl

/-- A whole pattern that is cut is read as the pieces of the cut. -/
theorem Passes.read {cut : Cut} (h : r.Passes [] .pattern .empty [] cut) :
    r.read (source cut) = .ok (cut.map Prod.snd) := by
  have hread := h.readFrom
  rw [List.append_nil] at hread
  exact hread.trans (by simp [Reader.readFrom, Except.map])

/-! ## 3. Spots -/

/-- **What is written for a piece leads to the spot of the scope after it**, but for a backslash at
the end of a pattern. -/
theorem after_segment {scope : Scope} {ledger : Ledger} {behind t : Text} {piece : Segment} {n : Nat}
    (h : r.segment scope ledger behind t = .ok (piece, n)) (hne : t ≠ []) (hend : t ≠ ['\\']) :
    scope.spot.after piece.text = (piece.scopeAfter scope).spot := by
  rcases segment_eq_ok h with htoken | ⟨-, rfl, -⟩
  · rcases unmarked_of_token? htoken with ⟨⟨name, rfl⟩, rfl⟩ | ⟨w, rfl, hpassed⟩
    · rfl
    · cases scope with
      | pattern => exact hpassed.after
      | charClass => exact hpassed.after
  · obtain ⟨c, cs, rfl⟩ := List.exists_cons_of_ne_nil hne
    exact after_copied scope c cs hend

/-- The pieces of a cut lead to the spot of the scope in which it ends. -/
theorem Passes.after (hnext : next ≠ []) :
    ∀ {cut : Cut} {scope : Scope} {ledger : Ledger} {behind : Text},
    r.Passes next scope ledger behind cut →
    scope.spot.after (written cut) = (scopeBehind scope cut).spot
  | [], _, _, _, _ => rfl
  | (w, piece) :: cut, scope, ledger, behind, h => by
      obtain ⟨hne, hsegment, hrest⟩ := h
      have hend : w ++ (source cut ++ next) ≠ ['\\'] := by
        intro heq
        have hlen := congrArg List.length heq
        have hw := List.length_pos_iff.2 hne
        have hn := List.length_pos_iff.2 hnext
        simp only [List.length_append, List.length_singleton] at hlen
        omega
      have hfirst := after_segment hsegment (by simp [hne]) hend
      rw [written_cons, Spot.after_append, hfirst, hrest.after hnext]
      rfl

end Reader

end ExtensibleRegex
