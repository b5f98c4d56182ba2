import ClassWeaver.Text.Json.Reader

namespace ClassWeaver

abbrev Decode (α : Type) := Draft → Except JsonFault α

namespace Decode

def string : Decode String
  | .string text => .ok text
  | d => d.misshapen

def bool : Decode Bool
  | .bool b => .ok b
  | d => d.misshapen

def natural : Decode Nat
  | .int n => if 0 ≤ n then .ok n.toNat else .error .shape
  | d => d.misshapen

def optional {α : Type} (item : Decode α) : Decode (Option α)
  | .null => .ok none
  | d => (item d).map some

def stop {α : Type} (a : α) (stop : Stop) : Except JsonFault α :=
  match stop.fault? with
  | some fault => .error fault
  | none => .ok a

def stopAtOnce {α : Type} (a : α) (stop : Stop) : Except JsonFault α :=
  match stop.faultAtOnce? with
  | some fault => .error fault
  | none => .ok a

def list {α : Type} (item : Decode α) : Decode (List α)
  | .list items end_ => (items.mapM item).bind (stop · end_)
  | d => d.misshapen

structure Part where
  name : String
  required : Bool
  check : Draft → Except JsonFault Unit

def part {α : Type} (name : String) (required : Bool) (item : Decode α) : Part :=
  ⟨name, required, fun d => (item d).map fun _ => ()⟩

abbrev Fields := List (String × Draft)

def Fields.get {α : Type} (fields : Fields) (name : String) (item : Decode α) :
    Except JsonFault α :=
  match fields.lookup name with
  | some d => item d
  | none => .error .shape

def Fields.getD {α : Type} (fields : Fields) (name : String) (item : Decode α) (absent : α) :
    Except JsonFault α :=
  match fields.lookup name with
  | some d => item d
  | none => .ok absent

def members (parts : List Part) : List (String × Draft) → Fields → Except JsonFault Fields
  | [], done => .ok done
  | (name, d) :: rest, done =>
    match parts.find? (·.name == name) with
    | none => .error .shape
    | some part =>
      if (done.lookup name).isSome then .error .shape
      else
        match part.check d with
        | .error fault => .error fault
        | .ok () => members parts rest ((name, d) :: done)

def positional : List Part → List Draft → Fields → Except JsonFault (Fields × List Draft)
  | _, [], done => .ok (done, [])
  | [], rest, done => .ok (done, rest)
  | part :: parts, d :: rest, done =>
    match part.check d with
    | .error fault => .error fault
    | .ok () => positional parts rest ((part.name, d) :: done)

def hasAll (parts : List Part) (fields : Fields) : Except JsonFault Fields :=
  if parts.all fun part => !part.required || (fields.lookup part.name).isSome then .ok fields
  else .error .shape

/-- A record, or its values alone as a list, of which the last may be missing. -/
def fields (parts : List Part) : Decode Fields
  | .record ms end_ => do
    let fields ← members parts ms []
    hasAll parts (← stop fields end_)
  | .list items end_ => do
    let (fields, rest) ← positional parts items []
    if fields.length < parts.length then
      hasAll parts (← stop fields end_)
    else
      match rest with
      | _ :: _ => .error .malformed
      | [] => stopAtOnce fields end_
  | d => d.misshapen

/-- The members with a name that is asked for; in the others the text has no fault. -/
def known (parts : List Part) : List (String × Draft) → Except JsonFault (List (String × Draft))
  | [] => .ok []
  | (name, d) :: rest =>
    if parts.any (·.name == name) then (known parts rest).map ((name, d) :: ·)
    else
      match d.fault? with
      | some fault => .error fault
      | none => known parts rest

def openFields (parts : List Part) : Decode Fields
  | .record ms end_ => do fields parts (.record (← known parts ms) end_)
  | d => fields parts d

def parse {α : Type} (item : Decode α) (text : String) : Except JsonFault α := do
  let read := Draft.parse text
  let a ← item read.draft
  match read.trailing with
  | some fault => .error fault
  | none => return a

end Decode

end ClassWeaver
