import IdentityDirectory.Text.Blank
import IdentityDirectory.Text.Decimal
import IdentityDirectory.Text.Lowercase
import IdentityDirectory.Text.Quoted

/-! Settings of a directory, taken from variables. A variable that is not set leaves its default. -/

namespace IdentityDirectory

structure Settings where
  dataDir : String := "./data"
  cleanupIntervalSeconds : Nat := 60
  linearizableAggregates : Bool := false
  queryCacheEnabled : Bool := true

inductive SettingsError where
  | intervalNotANumber (raw : String)
  | dataDirEmpty
  | intervalZero
  deriving DecidableEq

def SettingsError.message (e : SettingsError) : String :=
  "Invalid configuration: " ++ match e with
    | intervalNotANumber raw =>
      "CLEANUP_INTERVAL_SECONDS must be a whole number of seconds, got " ++ Text.quoted raw
    | dataDirEmpty => "DATA_DIR cannot be empty"
    | intervalZero => "CLEANUP_INTERVAL_SECONDS must be greater than zero"

namespace Settings

def isYes (raw : String) : Bool :=
  let word := Text.lowercase (Text.trim raw)
  word = "true" || word = "1"

def interval (default : Nat) : Option String → Except SettingsError Nat
  | none => return default
  | some raw =>
    match Text.unsigned64? (Text.trim raw) with
    | some seconds => return seconds
    | none => throw (.intervalNotANumber raw)

def ofLookup (lookup : String → Option String) : Except SettingsError Settings := do
  let defaults : Settings := {}
  let seconds ← interval defaults.cleanupIntervalSeconds (lookup "CLEANUP_INTERVAL_SECONDS")
  let settings : Settings :=
    { dataDir := (lookup "DATA_DIR").getD defaults.dataDir
      cleanupIntervalSeconds := seconds
      linearizableAggregates :=
        ((lookup "LINEARIZABLE_AGGREGATES").map isYes).getD defaults.linearizableAggregates
      queryCacheEnabled :=
        ((lookup "QUERY_CACHE_ENABLED").map isYes).getD defaults.queryCacheEnabled }
  if (Text.trim settings.dataDir).isEmpty then throw .dataDirEmpty
  if settings.cleanupIntervalSeconds = 0 then throw .intervalZero
  return settings

end Settings

end IdentityDirectory
