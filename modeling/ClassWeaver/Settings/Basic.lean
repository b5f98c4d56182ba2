import ClassWeaver.Digest.Sha256
import ClassWeaver.Filter
import ClassWeaver.Rule.Set
import ClassWeaver.Settings.Entry

namespace ClassWeaver

inductive SettingsFault where
  | noWorkers
  | filter (fault : FilterFault)
  | rule (fault : RuleFault)
  deriving DecidableEq, Repr

def SettingsFault.causes : SettingsFault → List String
  | noWorkers => ["maxWorkers must be at least 1"]
  | filter fault => fault.causes
  | rule fault => [fault.message]

structure Settings where
  enabled : Bool
  includePatterns : List String
  excludePatterns : List String
  strictMode : Bool
  incrementalEnabled : Bool
  excludeGeneratedClasses : Bool
  jarStreamThreshold : Nat
  maxWorkers : Option Nat
  ruleset : Ruleset
  filter : ClassFilter
  deriving Repr

namespace Settings

def ofEntry (e : SettingsEntry) : Except SettingsFault Settings :=
  if e.maxWorkers = some 0 then .error .noWorkers
  else do
    let filter ←
      (ClassFilter.of e.includePatterns e.excludePatterns e.excludeGeneratedClasses).mapError
        .filter
    let ruleset ← (Ruleset.ofEntries e.rules).mapError .rule
    return {
      enabled := e.enabled
      includePatterns := e.includePatterns
      excludePatterns := e.excludePatterns
      strictMode := e.strictMode
      incrementalEnabled := e.incrementalEnabled
      excludeGeneratedClasses := e.excludeGeneratedClasses
      jarStreamThreshold := e.jarStreamThreshold
      maxWorkers := e.maxWorkers
      ruleset
      filter }

def toJson (s : Settings) : Json :=
  .record
    [("enabled", .bool s.enabled),
     ("includePatterns", Json.strings s.includePatterns),
     ("excludePatterns", Json.strings s.excludePatterns),
     ("strictMode", .bool s.strictMode),
     ("incrementalEnabled", .bool s.incrementalEnabled),
     ("excludeGeneratedClasses", .bool s.excludeGeneratedClasses),
     ("jarStreamThreshold", Json.nat s.jarStreamThreshold),
     ("maxWorkers", Json.ofOption Json.nat s.maxWorkers),
     ("ruleset", s.ruleset.toJson)]

/-- The settings that an output can depend on. -/
def outputAffecting (s : Settings) : Json :=
  .record
    [("enabled", .bool s.enabled),
     ("includePatterns", Json.strings s.includePatterns),
     ("excludePatterns", Json.strings s.excludePatterns),
     ("strictMode", .bool s.strictMode),
     ("excludeGeneratedClasses", .bool s.excludeGeneratedClasses),
     ("ruleset", s.ruleset.toJson)]

def fingerprint (s : Settings) : String :=
  contentHash (Utf8.encode s.outputAffecting.compact)

end Settings

end ClassWeaver
