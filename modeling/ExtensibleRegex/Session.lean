import ExtensibleRegex.Balanced
import ExtensibleRegex.Combine.Build
import ExtensibleRegex.Edit.Chain
import ExtensibleRegex.Edit.Recipe
import ExtensibleRegex.Edit.Split
import ExtensibleRegex.Regex.Held
import ExtensibleRegex.Token.Recipe

/-!
# Sessions

A session holds several contexts by name, and regexes with a cursor each. A regex can be stored
under a name, and one that a context shares is the same for all who ask for it, its cursor
included. So regexes are held in one list, and who has a regex has its number in the list.

What happens in a session is a `SessionM`: it may change the session and may fail, and a failure keeps
the changes made before it.
-/

namespace ExtensibleRegex

/-- Contexts and regexes in use. -/
structure Session where
  contexts : List (Text × Context)
  live : Array Live
  /-- The numbers of the regexes stored under names. -/
  stored : List (Text × Nat)

/-- What happens in a session. -/
abbrev SessionM (α : Type) := ExceptT Error (StateM Session) α

namespace Session

/-- The session in which nothing has happened. -/
def initial : Session := ⟨[], #[], []⟩

/-! ## 1. Contexts -/

/-- The context with a name, a fresh one if it is not in use yet. -/
def context (s : Session) (name : Text) : Context := (s.contexts.lookup name).getD .initial

/-- Exchanges the context with a name. -/
def withContext (s : Session) (name : Text) (c : Context) : Session :=
  { s with contexts := (name, c) :: s.contexts.filter fun e => e.1 != name }

/-- Does a task in the context with a name. -/
def inContext {α : Type} (name : Text) (task : ContextM α) : SessionM α := do
  let s ← get
  let (result, c) := task.run.run (s.context name)
  set (s.withContext name c)
  result

/-! ## 2. Regexes -/

/-- Takes in a regex, with its cursor at the given offset, and answers its number. -/
def takeIn (re : Regex) (cursor : Nat) : SessionM Nat := do
  let s ← get
  set { s with live := s.live.push ⟨re, cursor⟩ }
  return s.live.size

/-- The regex with a number. -/
def live? (s : Session) (id : Nat) : Option Live := s.live[id]?

/-- Sets the cursor of a regex. -/
def setCursor (id cursor : Nat) : SessionM Unit :=
  modify fun s => { s with live := s.live.modify id fun l => { l with cursor } }

/-- Stores a regex under a name. -/
def store (name : Text) (id : Nat) : SessionM Unit :=
  modify fun s => { s with stored := (name, id) :: s.stored }

/-- The number of the regex stored under a name. -/
def stored? (s : Session) (name : Text) : Option Nat := s.stored.lookup name

/-- The regex that a context shares for a pattern and flags. -/
def share (name pattern flags : Text) : SessionM Nat := do
  match ((← get).context name).shared.lookup (pattern, flags) with
  | some id => return id
  | none =>
    let re ← inContext name (Context.regex pattern flags)
    let id ← takeIn re 0
    modify fun s =>
      let c := s.context name
      s.withContext name { c with shared := ((pattern, flags), id) :: c.shared }
    return id

/-- Does something with a regex and its cursor, and keeps the cursor that results. -/
def follow {α : Type} (l : Live) (id : Nat) (f : Regex → Nat → α × Nat) : SessionM α := do
  let (result, cursor) := f l.regex l.cursor
  setCursor id cursor
  return result

/-- Sets the cursors of the global ones among some regexes back to the start. -/
def rewind (s : Session) (ids : List Nat) : Session :=
  ids.foldl (fun s id => { s with live := s.live.modify id fun l =>
    if l.regex.global then { l with cursor := 0 } else l }) s

end Session

end ExtensibleRegex
