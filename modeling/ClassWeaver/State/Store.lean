import ClassWeaver.Digest.Sha256
import ClassWeaver.State.Snapshot
import ClassWeaver.Text.ModifiedUtf8

/-!
A snapshot in the form in which it is kept: a row of text for each unit, under the hash of its key. A
store that was damaged says so.
-/

namespace ClassWeaver

structure StateStore where
  format : Option String
  fingerprint : Option String
  rows : List (String × String)
  deriving DecidableEq, Repr

inductive StoreFault where
  | noDirectory (path reason : String)
  | notOpen (path reason : String)
  | unknownFormat (format : String)
  | badRow (fault : JsonFault)
  deriving DecidableEq, Repr

def StoreFault.message : StoreFault → String
  | noDirectory path _ => s!"Failed to create state directory: {path}"
  | notOpen path _ => s!"Failed to create/open state env: {path}"
  | unknownFormat format => s!"unsupported state format '{format}'"
  | badRow _ => "Failed to decode state row"

namespace StateStore

def empty : StateStore := ⟨none, none, []⟩

def currentFormat : String := "1"

def insertRow (key text : String) : List (String × String) → List (String × String)
  | [] => [(key, text)]
  | row :: rest =>
    if key < row.1 then (key, text) :: row :: rest
    else if key = row.1 then (key, text) :: rest
    else row :: insertRow key text rest

def rowKey (key : String) : String := contentHash (Utf8.encode key)

def ofSnapshot (s : Snapshot) : StateStore where
  format := some currentFormat
  fingerprint := s.fingerprint
  rows := s.records.foldl (fun rows r => insertRow (rowKey r.key) r.toJson.compact rows) []

def loadRows : List (String × String) → Snapshot → Except StoreFault Snapshot
  | [], s => .ok s
  | (_, text) :: rest, s =>
    match UnitRecord.parse text with
    | .error fault => .error (.badRow fault)
    | .ok r => loadRows rest (s.insert r)

/-- The whole snapshot or nothing. -/
def load (store : StateStore) : Except StoreFault Snapshot :=
  match store.format with
  | some format =>
    if format = currentFormat then loadRows store.rows ⟨store.fingerprint, []⟩
    else .error (.unknownFormat format)
  | none => loadRows store.rows ⟨store.fingerprint, []⟩

def rowToJson (row : String × String) : Json :=
  .record [("key", .string row.1), ("text", .string row.2)]

def toJson (store : StateStore) : Json :=
  .record
    [("format", Json.ofOption .string store.format),
     ("fingerprint", Json.ofOption .string store.fingerprint),
     ("rows", .list (store.rows.map rowToJson))]

def decodeRow : Decode (String × String) := fun d => do
  let fields ← Decode.fields
    [Decode.part "key" true Decode.string, Decode.part "text" true Decode.string] d
  return (← fields.get "key" Decode.string, ← fields.get "text" Decode.string)

def decodeJson : Decode StateStore := fun d => do
  let text := Decode.optional Decode.string
  let rows := Decode.list decodeRow
  let fields ← Decode.fields
    [Decode.part "format" true text, Decode.part "fingerprint" true text,
     Decode.part "rows" true rows] d
  return ⟨← fields.get "format" text, ← fields.get "fingerprint" text, ← fields.get "rows" rows⟩

def encode (store : StateStore) : Bytes := Utf8.encode store.toJson.compact

/-- A file without anything in it is an empty store. -/
def decode? (bs : Bytes) : Option StateStore :=
  if bs.isEmpty then some empty
  else
    match Utf8.decode? bs with
    | none => none
    | some text => (Decode.parse decodeJson text).toOption

end StateStore

end ClassWeaver
