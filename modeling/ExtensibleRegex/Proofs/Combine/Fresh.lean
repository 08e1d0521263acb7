import ExtensibleRegex.Combine.Union
import ExtensibleRegex.Proofs.Dialect.Fresh
import Mathlib.Tactic

/-!
# Unions in fresh contexts

In a fresh context a union is a matter of texts: each part is expanded by the reader and written again
(`writtenPart`), and the regex of what is written is that of a new context (`freshUnion`). So the
answer does not depend on the context, which stays fresh (`Fresh.answer_union`).
-/

namespace ExtensibleRegex

namespace Context

/-- What is written for a part behind `prior` groups, and how many groups there are then. -/
def writtenPart (prior : Nat) : Needle → Except Error (Text × Nat)
  | .literal t => return (escape t, prior)
  | .regex re => do
    let t ← Reader.expansion re.nativeSource (if re.engine.mode.unicode then ['u'] else [])
    let (written, own) := renumber (re.names.getD []) prior 0 (pieces t.pattern false)
    return (written, prior + own)

/-- What is written for a regex that is expanded once more. -/
theorem writtenPart_of_expansion {re : Regex} {t : Expansion}
    (h : Reader.expansion re.nativeSource (if re.engine.mode.unicode then ['u'] else []) = .ok t)
    (prior : Nat) : writtenPart prior (.regex re) =
      .ok ((renumber (re.names.getD []) prior 0 (pieces t.pattern false)).1,
        prior + (renumber (re.names.getD []) prior 0 (pieces t.pattern false)).2) := by
  show Reader.expansion re.nativeSource (if re.engine.mode.unicode then ['u'] else []) >>= _ = _
  rw [h]
  rfl

/-- What is written for parts. -/
def writtenParts : (prior : Nat) → List Needle → Except Error (List Text)
  | _, [] => return []
  | prior, part :: parts => do
    let (written, prior) ← writtenPart prior part
    let rest ← writtenParts prior parts
    return written :: rest

theorem writtenParts_cons {prior n : Nat} {part : Needle} {parts : List Needle} {first : Text}
    {rest : List Text} (hfirst : writtenPart prior part = .ok (first, n))
    (hrest : writtenParts n parts = .ok rest) :
    writtenParts prior (part :: parts) = .ok (first :: rest) := by
  show writtenPart prior part >>= _ = _
  rw [hfirst]
  show writtenParts n parts >>= _ = _
  rw [hrest]
  rfl

/-- The union that a fresh context makes of parts. -/
def freshUnion (parts : List Needle) (flags : Text) (conjunction : Conjunction) :
    Except Error Regex := do
  if parts.isEmpty then throw .nothingToMerge
  let written ← writtenParts 0 parts
  freshRegex (conjunction.separator.intercalate written) flags

theorem freshUnion_of_written {parts : List Needle} {written : List Text}
    (h : writtenParts 0 parts = .ok written) (hne : parts ≠ []) (flags : Text)
    (conjunction : Conjunction) : freshUnion parts flags conjunction =
      freshRegex (conjunction.separator.intercalate written) flags := by
  obtain ⟨part, parts, rfl⟩ := List.exists_cons_of_ne_nil hne
  show writtenParts 0 (part :: parts) >>= _ = _
  rw [h]
  rfl

variable {c : Context}

theorem Fresh.answer_unionPart (h : c.Fresh) (prior : Nat) (part : Needle) :
    (answer (unionPart prior part) c).1 = writtenPart prior part ∧
      (answer (unionPart prior part) c).2.Fresh := by
  refine ⟨?_, h.after (keeps_unionPart prior part)⟩
  cases part with
  | literal t => rfl
  | regex re =>
    show (answer (expand re.nativeSource (if re.engine.mode.unicode then ['u'] else []) >>= fun t =>
      pure ((renumber (re.names.getD []) prior 0 (pieces t.pattern false)).1,
        prior + (renumber (re.names.getD []) prior 0 (pieces t.pattern false)).2)) c).1 = _
    rw [answer_bind_fst, h.answer_expand]
    rfl

theorem Fresh.answer_unionParts : ∀ {c : Context}, c.Fresh → ∀ (prior : Nat) (parts : List Needle),
    (answer (unionParts prior parts) c).1 = writtenParts prior parts ∧
      (answer (unionParts prior parts) c).2.Fresh
  | _, h, _, [] => ⟨rfl, h⟩
  | c, h, prior, part :: parts => by
      refine ⟨?_, h.after (keeps_unionParts prior (part :: parts))⟩
      obtain ⟨hpart, hfresh⟩ := h.answer_unionPart prior part
      unfold unionParts writtenParts
      rw [answer_bind_fst, hpart]
      refine congrArg (writtenPart prior part >>= ·) (funext fun first => ?_)
      show (answer (unionParts first.2 parts >>= fun rest => pure (first.1 :: rest)) _).1 = _
      rw [answer_bind_fst, (Fresh.answer_unionParts hfresh first.2 parts).1]
      rfl

/-- **A union in a fresh context** depends on its parts only. -/
theorem Fresh.answer_union (h : c.Fresh) (parts : List Needle) (flags : Text)
    (conjunction : Conjunction) :
    (answer (union parts flags conjunction) c).1 = freshUnion parts flags conjunction ∧
      (answer (union parts flags conjunction) c).2.Fresh := by
  refine ⟨?_, h.after (keeps_union parts flags conjunction)⟩
  cases parts with
  | nil => rfl
  | cons part parts =>
    obtain ⟨hparts, hfresh⟩ := h.answer_unionParts 0 (part :: parts)
    show (answer (unionParts 0 (part :: parts) >>= fun written =>
        regex (conjunction.separator.intercalate written) flags) c).1 =
      writtenParts 0 (part :: parts) >>= fun written =>
        freshRegex (conjunction.separator.intercalate written) flags
    rw [answer_bind_fst, hparts]
    exact congrArg (writtenParts 0 (part :: parts) >>= ·)
      (funext fun written => (hfresh.answer_freshRegex _ flags).1)

end Context

end ExtensibleRegex
