import ClassWeaver.Archive.Entry
import ClassWeaver.Archive.Retries

/-!
Passing the files of an archive through a transformation. Whether all entries are in memory together
or one at a time makes no difference to what comes out.
-/

namespace ClassWeaver

structure Decision (α : Type) where
  replacement : Option Bytes
  detail : α
  deriving Repr

def Decision.keep {α : Type} (detail : α) : Decision α := ⟨none, detail⟩

abbrev Contents := List (Except String Entry)

structure Transformed (α : Type) where
  entries : Array Entry
  details : Array (String × α)
  deriving Repr

def Transformed.empty {α : Type} : Transformed α := ⟨#[], #[]⟩

namespace Contents

variable {α : Type} (label : String) (decide : String → Bytes → Decision α)

def fetch (attempt : Except String Entry) : Except IoFault Entry :=
  retryRead label (m := Id) attempt

def decision? (e : Entry) : Option (Decision α) :=
  if e.isDirectory then none else some (decide e.name e.data)

def put (e : Entry) (decision : Option (Decision α)) (out : Transformed α) : Transformed α :=
  match decision with
  | none => { out with entries := out.entries.push (e.written none) }
  | some d => ⟨out.entries.push (e.written d.replacement), out.details.push (e.name, d.detail)⟩

/-- Reads everything, then transforms everything, then writes everything. -/
def transformTogether (contents : Contents) : Except IoFault (Transformed α) := do
  let entries ← contents.mapM (fetch label)
  let decisions := entries.map (decision? decide)
  return (entries.zip decisions).foldl (fun out (e, decision) => put e decision out) .empty

/-- Reads, transforms and writes one entry before it looks at the next. -/
def transformInTurn (contents : Contents) : Except IoFault (Transformed α) :=
  contents.foldlM (fun out attempt => do
    let e ← fetch label attempt
    if e.isDirectory then return put e none out
    else return put e (some (decide e.name e.data)) out) .empty

def transform (mode : ReadMode) (contents : Contents) : Except IoFault (Transformed α) :=
  match mode with
  | .inMemory => contents.transformTogether label decide
  | .streaming => contents.transformInTurn label decide

end Contents

end ClassWeaver
