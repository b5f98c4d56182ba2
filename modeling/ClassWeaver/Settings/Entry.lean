import ClassWeaver.Rule.Entry

namespace ClassWeaver

structure SettingsEntry where
  enabled : Bool := true
  includePatterns : List String := []
  excludePatterns : List String := []
  strictMode : Bool := true
  incrementalEnabled : Bool := true
  excludeGeneratedClasses : Bool := true
  jarStreamThreshold : Nat := 16 * 1024 * 1024
  maxWorkers : Option Nat := none
  rules : List RuleEntry := []
  deriving DecidableEq, Repr

namespace SettingsEntry

def decode : Decode SettingsEntry := fun d => do
  let patterns := Decode.list Decode.string
  let workers := Decode.optional Decode.natural
  let rules := Decode.list RuleEntry.decode
  let fields ← Decode.fields
    [Decode.part "enabled" false Decode.bool, Decode.part "includePatterns" false patterns,
     Decode.part "excludePatterns" false patterns, Decode.part "strictMode" false Decode.bool,
     Decode.part "incrementalEnabled" false Decode.bool,
     Decode.part "excludeGeneratedClasses" false Decode.bool,
     Decode.part "jarStreamThreshold" false Decode.natural,
     Decode.part "maxWorkers" false workers, Decode.part "rules" false rules] d
  let usual : SettingsEntry := {}
  return {
    enabled := ← fields.getD "enabled" Decode.bool usual.enabled
    includePatterns := ← fields.getD "includePatterns" patterns usual.includePatterns
    excludePatterns := ← fields.getD "excludePatterns" patterns usual.excludePatterns
    strictMode := ← fields.getD "strictMode" Decode.bool usual.strictMode
    incrementalEnabled := ← fields.getD "incrementalEnabled" Decode.bool usual.incrementalEnabled
    excludeGeneratedClasses :=
      ← fields.getD "excludeGeneratedClasses" Decode.bool usual.excludeGeneratedClasses
    jarStreamThreshold :=
      ← fields.getD "jarStreamThreshold" Decode.natural usual.jarStreamThreshold
    maxWorkers := ← fields.getD "maxWorkers" workers usual.maxWorkers
    rules := ← fields.getD "rules" rules usual.rules }

def parse (text : String) : Except JsonFault SettingsEntry := Decode.parse decode text

def toJson (e : SettingsEntry) : Json :=
  .record
    [("enabled", .bool e.enabled),
     ("includePatterns", Json.strings e.includePatterns),
     ("excludePatterns", Json.strings e.excludePatterns),
     ("strictMode", .bool e.strictMode),
     ("incrementalEnabled", .bool e.incrementalEnabled),
     ("excludeGeneratedClasses", .bool e.excludeGeneratedClasses),
     ("jarStreamThreshold", Json.nat e.jarStreamThreshold),
     ("maxWorkers", Json.ofOption Json.nat e.maxWorkers),
     ("rules", .list (e.rules.map RuleEntry.toJson))]

end SettingsEntry

end ClassWeaver
