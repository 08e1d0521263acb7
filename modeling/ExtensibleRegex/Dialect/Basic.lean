import ExtensibleRegex.Property.Escape
import ExtensibleRegex.Token.Builtin
import ExtensibleRegex.Expansion.Basic

/-!
# Dialects

A dialect is what shapes expansion: the flags it knows, its tokens, its features and its Unicode
properties. Each registration answers a new dialect or fails, and one that fails answers none, so
nothing of it can remain. `Dialect.expand` says what a pattern means in a dialect; the caches of
a `Context` only save repeating it.
-/

namespace ExtensibleRegex

/-- What shapes the expansion of patterns. -/
structure Dialect where
  flags : KnownFlags
  /-- The tokens, latest first. -/
  tokens : List Token
  features : Features
  /-- Whether property escapes are known. -/
  knowsProperties : Bool
  properties : PropertyTable

namespace Dialect

/-! ## 1. Registrations -/

/-- The dialect without tokens. -/
def bare : Dialect := ⟨.native, [], {}, false, .empty⟩

/-- Adds a token, which goes before those already there. -/
def addToken (d : Dialect) (s : TokenSpec) : Except Error Dialect := do
  s.flags.forM fun c => do let _ ← KnownFlags.singleFlag [c]
  let token ← Token.ofSpec s d.tokens.length
  return { d with flags := s.flags.foldl KnownFlags.insert d.flags, tokens := token :: d.tokens }

/-- Adds tokens in order, leaving out those that are refused. -/
def addTokens (d : Dialect) (specs : List TokenSpec) : Dialect :=
  specs.foldl (fun d s => match d.addToken s with
    | .ok d' => d'
    | .error _ => d) d

/-- The dialect with the built-in tokens only. -/
def initial : Dialect := bare.addTokens Builtin.specs

/-- Makes a flag known, and tells whether it is new. -/
def registerFlag (d : Dialect) (flag : Text) : Except Error (Bool × Dialect) := do
  let (new, flags) ← d.flags.register flag
  return (new, { d with flags })

/-- Switches features on. -/
def install (d : Dialect) (f : Features) : Dialect := { d with features := d.features.union f }

/-- Switches features off. -/
def uninstall (d : Dialect) (f : Features) : Dialect := { d with features := d.features.minus f }

/-- Makes property escapes known, and tells whether that is new. -/
def enableProperties (d : Dialect) : Except Error (Bool × Dialect) := do
  if d.knowsProperties then return (false, d)
  let d ← d.addToken propertySpec
  return (true, { d with knowsProperties := true })

/-- Adds properties, once all of them have been found in order. -/
def addProperties (d : Dialect) (ps : List UnicodeProperty) : Except Error Dialect := do
  ps.forM UnicodeProperty.check
  let (_, d) ← d.enableProperties
  return { d with properties := ps.foldl PropertyTable.insert d.properties }

/-! ## 2. Expansion -/

/-- The flags of a pattern with the flag that a feature adds. -/
def fullFlags (d : Dialect) (flags : Text) : Text :=
  if d.features.astral && !flags.contains 'A' then flags ++ ['A'] else flags

/-- The expansion of a pattern with its full flags. -/
def expand (d : Dialect) (pattern flags : Text) (tally : Tally) :
    Except Error Expansion × Memory :=
  let memory : Memory := ⟨tally, d.properties⟩
  match d.flags.prepare pattern flags with
  | .ok prepared => ExtensibleRegex.expand d.tokens d.features prepared memory
  | .error e => (.error e, memory)

end Dialect

end ExtensibleRegex
