import ClassWeaver.Text.Json.Decoder
import ClassWeaver.Text.Json.Printer

namespace ClassWeaver

inductive UnitOutcome where
  | unchanged
  | rewritten
  | failed
  deriving DecidableEq, Repr

namespace UnitOutcome

def word : UnitOutcome → String
  | unchanged => "unchanged"
  | rewritten => "rewritten"
  | failed => "failed"

def ofWord? : String → Option UnitOutcome
  | "unchanged" => some unchanged
  | "rewritten" => some rewritten
  | "failed" => some failed
  | _ => none

/-- A word alone, or as the only name of a record, with nothing beside it. -/
def decode : Decode UnitOutcome
  | .string text | .record [(text, .null)] .closed =>
    match ofWord? text with
    | some outcome => .ok outcome
    | none => .error .shape
  | d => d.misshapen

end UnitOutcome

structure UnitRecord where
  key : String
  contentHash : String
  outcome : UnitOutcome
  output : String
  lastModified : Nat
  rules : List String
  deriving DecidableEq, Repr

namespace UnitRecord

def toJson (r : UnitRecord) : Json :=
  .record
    [("key", .string r.key), ("contentHash", .string r.contentHash),
     ("outcome", .string r.outcome.word), ("output", .string r.output),
     ("lastModified", Json.nat r.lastModified), ("rules", Json.strings r.rules)]

def decode : Decode UnitRecord := fun d => do
  let rules := Decode.list Decode.string
  let fields ← Decode.openFields
    [Decode.part "key" true Decode.string, Decode.part "contentHash" true Decode.string,
     Decode.part "outcome" true UnitOutcome.decode, Decode.part "output" true Decode.string,
     Decode.part "lastModified" true Decode.natural, Decode.part "rules" false rules] d
  return {
    key := ← fields.get "key" Decode.string
    contentHash := ← fields.get "contentHash" Decode.string
    outcome := ← fields.get "outcome" UnitOutcome.decode
    output := ← fields.get "output" Decode.string
    lastModified := ← fields.get "lastModified" Decode.natural
    rules := ← fields.getD "rules" rules [] }

def parse (text : String) : Except JsonFault UnitRecord := Decode.parse decode text

end UnitRecord

end ClassWeaver
