import DocQuery.Json.Parser
import DocQuery.Log.Severity

/-!
# Configuration

A configuration is a JSON object, or an array of the settings in their order.
Missing settings take their defaults.  A setting may be given once; other
members are skipped, whatever their values, so they need only be
grammatical.
-/

namespace DocQuery

/-- The settings of an engine. -/
structure Config where
  /-- how many lookups of one query may be outstanding -/
  resolverConcurrency : Nat
  /-- the name of the least severity that is logged -/
  logLevel : String
  /-- the fields a catalog is kept of -/
  indexedFields : List String
deriving DecidableEq, Repr

/-- Why a text is no configuration. -/
inductive ConfigError where
  | malformed
  | noConcurrency
  | unknownLevel (name : String)
  | emptyField
deriving DecidableEq, Repr

namespace ConfigError

/-- What is said of a text that cannot be read. -/
def malformedText : String := "not of the expected form"

/-- The error in words. -/
def message : ConfigError → String
  | malformed => "Invalid config JSON: " ++ malformedText
  | noConcurrency => "Invalid config: resolver_concurrency must be > 0"
  | unknownLevel name => "Invalid config: Unknown log_level: '" ++ name ++ "'"
  | emptyField => "Invalid config: indexed_fields contains an empty path: ''"

end ConfigError

namespace Config

/-- The settings that apply where none are given. -/
def default : Config := ⟨64, "warn", []⟩

/-! ## Reading settings -/

/-- The settings that have been read. -/
structure Settings where
  resolverConcurrency : Option Nat
  logLevel : Option String
  indexedFields : Option (List String)

/-- A string setting. -/
def stringOf? : Written → Option String
  | .string pieces => (Piece.text? pieces).map String.ofList
  | _ => none

/-- A setting that is a natural number, written as one. -/
def natOf? : Written → Option Nat
  | .number literal => (Number.ofLiteral? literal).bind Number.toNat?
  | _ => none

/-- A setting that is a list of strings. -/
def stringsOf? : Written → Option (List String)
  | .array items => items.mapM stringOf?
  | _ => none

/-- Takes one member of a configuration: a setting not given before, or
something to skip. -/
def Settings.take (s : Settings) (key : String) (value : Written) : Option Settings :=
  match key with
  | "resolver_concurrency" =>
    if s.resolverConcurrency.isSome then none
    else (natOf? value).map fun n => { s with resolverConcurrency := some n }
  | "log_level" =>
    if s.logLevel.isSome then none
    else (stringOf? value).map fun name => { s with logLevel := some name }
  | "indexed_fields" =>
    if s.indexedFields.isSome then none
    else (stringsOf? value).map fun fields => { s with indexedFields := some fields }
  | _ => some s

/-- Takes all members of a configuration. -/
def Settings.takeAll (s : Settings) : List (List Piece × Written) → Option Settings
  | [] => some s
  | (key, value) :: rest => do
    let s ← s.take (String.ofList (← Piece.text? key)) value
    s.takeAll rest

/-- The settings of a configuration as written. -/
def settings? : Written → Option Settings
  | .object members => Settings.takeAll ⟨none, none, none⟩ members
  | .array [] => some ⟨none, none, none⟩
  | .array [n] => do return ⟨some (← natOf? n), none, none⟩
  | .array [n, level] => do return ⟨some (← natOf? n), some (← stringOf? level), none⟩
  | .array [n, level, fields] => do
    return ⟨some (← natOf? n), some (← stringOf? level), some (← stringsOf? fields)⟩
  | _ => none

/-- Settings completed by the defaults. -/
def ofSettings (s : Settings) : Config where
  resolverConcurrency := s.resolverConcurrency.getD default.resolverConcurrency
  logLevel := s.logLevel.getD default.logLevel
  indexedFields := s.indexedFields.getD default.indexedFields

/-! ## Validation -/

/-- The least severity that is logged. -/
def severity (c : Config) : Except ConfigError Severity :=
  match Severity.ofName? c.logLevel with
  | some s => .ok s
  | none => .error (.unknownLevel c.logLevel)

/-- What is wrong with a configuration, the first of several faults. -/
def validate (c : Config) : Except ConfigError Config :=
  if c.resolverConcurrency = 0 then .error .noConcurrency
  else
    match c.severity with
    | .error e => .error e
    | .ok _ => if c.indexedFields.any String.isEmpty then .error .emptyField else .ok c

/-- The configuration that a text denotes. -/
def parse (text : String) : Except ConfigError Config :=
  match (Written.parse? text).bind settings? with
  | some s => (ofSettings s).validate
  | none => .error .malformed

end Config

end DocQuery
