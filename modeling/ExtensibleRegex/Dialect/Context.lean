import ExtensibleRegex.Dialect.Basic

/-!
# Contexts

A context is a dialect in use: beside the dialect it keeps the expansions made so far, the
regexes that are shared, and how often each handler has been called. Every registration that can
change an expansion drops the kept ones.

What uses a context is a `ContextM`: it may change the context and may fail, and a failure keeps the
changes made before it. A registration makes its changes one after the other.
-/

namespace ExtensibleRegex

/-- A dialect in use. -/
structure Context where
  dialect : Dialect
  /-- The expansions kept, by pattern and full flags. -/
  kept : List ((Text × Text) × Expansion)
  /-- The shared regexes, by pattern and flags, as numbers that their owner gave them. -/
  shared : List ((Text × Text) × Nat)
  tally : Tally

/-- What uses a context. -/
abbrev ContextM (α : Type) := ExceptT Error (StateM Context) α

namespace Context

/-- A fresh context. -/
def initial : Context := ⟨.initial, [], [], #[]⟩

/-! ## 1. Registrations -/

/-- Drops the expansions kept. -/
def forgetPatterns (c : Context) : Context := { c with kept := [] }

/-- Drops the shared regexes. -/
def forgetRegexes (c : Context) : Context := { c with shared := [] }

/-- Exchanges the dialect. -/
def withDialect (c : Context) (d : Dialect) : Context := { c with dialect := d }

/-- Takes over what calls of handlers have left. -/
def withMemory (c : Context) (m : Memory) : Context :=
  { c with tally := m.tally, dialect := { c.dialect with properties := m.properties } }

/-- Enters a flag, and tells whether it is new. -/
def enterFlag (flag : Text) : ContextM Bool := do
  let (new, flags) ← (← get).dialect.flags.register flag
  modify fun c => c.withDialect { c.dialect with flags }
  return new

/-- Makes a flag known. -/
def registerFlag (flag : Text) : ContextM Unit := do
  let new ← enterFlag flag
  if new then modify forgetPatterns

/-- Enters a token, which goes before those already there, and the flags that it makes known. The
flags and the trigger have all been checked before the first of them is entered. -/
def enterToken (s : TokenSpec) : ContextM Unit := do
  let () ← (s.flags.forM fun c => do let _ ← KnownFlags.singleFlag [c] : Except Error Unit)
  let token ← Token.ofSpec s (← get).dialect.tokens.length
  s.flags.forM fun c => do let _ ← enterFlag [c]
  modify fun c => c.withDialect { c.dialect with tokens := token :: c.dialect.tokens }

/-- Adds a token. -/
def addToken (s : TokenSpec) : ContextM Unit := do
  enterToken s
  modify forgetPatterns

/-- Switches features on. -/
def install (c : Context) (f : Features) : Context :=
  (c.withDialect (c.dialect.install f)).forgetPatterns

/-- Switches features off. -/
def uninstall (c : Context) (f : Features) : Context :=
  (c.withDialect (c.dialect.uninstall f)).forgetPatterns

/-- Makes property escapes known, unless they are. -/
def enableProperties : ContextM Unit := do
  if (← get).dialect.knowsProperties then return
  addToken propertySpec
  modify fun c => c.withDialect { c.dialect with knowsProperties := true }

/-- Enters a property in the table. -/
def enterProperty (p : UnicodeProperty) : ContextM Unit :=
  modify fun c => c.withDialect { c.dialect with properties := c.dialect.properties.insert p }

/-- Adds properties, one by one, once all of them have been found in order. -/
def addProperties (ps : List UnicodeProperty) : ContextM Unit := do
  let () ← (ps.forM UnicodeProperty.check : Except Error Unit)
  enableProperties
  ps.forM enterProperty
  modify forgetPatterns

/-! ## 2. Expansion -/

/-- Expands a pattern with its full flags, and keeps the expansion. -/
def expand (pattern flags : Text) : ContextM Expansion := do
  let c ← get
  let flags := c.dialect.fullFlags flags
  match c.kept.lookup (pattern, flags) with
  | some t => return t
  | none =>
    let (result, memory) := c.dialect.expand pattern flags c.tally
    modify fun c => c.withMemory memory
    let t ← result
    modify fun c => { c with kept := ((pattern, flags), t) :: c.kept }
    return t

/-- The regex of a pattern. -/
def regex (pattern flags : Text) : ContextM Regex := do
  let d := (← get).dialect
  let t ← expand pattern flags
  let engine ← Native.Engine.ofSource t.pattern t.flags.mode
  return { engine
           global := t.flags.global
           sticky := t.flags.sticky
           names := t.names
           source := some pattern
           flags := some (orderFlags (d.fullFlags flags))
           namespaced := d.features.namespacing }

end Context

/-! ## 3. Building flag texts -/

/-- A flag text with one flag moved to the end, or taken out. -/
def setFlag (flags : Text) (flag : Char) (on : Bool) : Text :=
  let others := flags.filter (· != flag)
  if on then others ++ [flag] else others

/-- A flag text with the given flags moved to the end. -/
def addFlags (flags added : Text) : Text := added.foldl (fun fs c => setFlag fs c true) flags

end ExtensibleRegex
