import ClassWeaver.Code.Flow
import ClassWeaver.Code.Relocation
import ClassWeaver.Pool.Growth
import ClassWeaver.Rule.Plan

/-!
Carrying out a plan. Every changed body is checked before the class is written, and a marker records
the rules.
-/

namespace ClassWeaver

/-- A method whose new body is not accepted; the method is `<class>` for the class as a whole. -/
structure InstrumentationFault where
  className : String
  method : String
  fault : CodeFault
  deriving DecidableEq, Repr

def InstrumentationFault.message (f : InstrumentationFault) : String :=
  s!"{f.className}.{f.method}: {f.fault.message}"

namespace Hook

def load (index : UInt16) : Bytes :=
  if index < 256 then [Opcode.ldc, index.toUInt8] else Opcode.ldcW :: be16 index

def call (site : String) (h : Hook) : Growth Bytes := do
  let text ← Pool.addString site
  let target ← Pool.addMethodRef h.owner h.method descriptor
  return load text ++ Opcode.invokestatic :: be16 target

def calls (site : String) (hooks : List Hook) : Growth Bytes := do
  return (← hooks.mapM (call site)).flatten

end Hook

namespace Code

def returningZero (result : List Char) : Bytes :=
  match result with
  | 'V' :: _ => [Opcode.return_]
  | 'J' :: _ => [Opcode.lconst0, Opcode.lreturn]
  | 'F' :: _ => [Opcode.fconst0, Opcode.freturn]
  | 'D' :: _ => [Opcode.dconst0, Opcode.dreturn]
  | 'L' :: _ | '[' :: _ => [Opcode.aconstNull, Opcode.areturn]
  | _ => [Opcode.iconst0, Opcode.ireturn]

def ofDescriptor (descriptor : String) (maxLocals : UInt16) : Except CodeFault Code :=
  match Descriptor.result? descriptor with
  | some result => .ok ⟨0, maxLocals, returningZero result.toList, [], []⟩
  | none => .error (.unrelocatable (.descriptor descriptor))

end Code

namespace Instrumentation

def grow {α : Type} (g : Growth α) (pool : Pool) : Except CodeFault (α × Pool) :=
  match (g.run pool : Option α × Pool) with
  | (some a, pool) => .ok (a, pool)
  | (none, _) => .error .constantPoolFull

def insertion (site : String) (e : Edit) : Growth Insertion := do
  let prologue ← Hook.calls site e.enter
  let epilogue ← Hook.calls site e.exit
  return ⟨prologue, epilogue⟩

def body (file : ClassFile) (m : Method) (code : Code) (e : Edit) (pool : Pool) :
    Except (Abort CodeFault) (Body × Pool) :=
  if e.replacedBy.isSome then do
    let code ← (Code.ofDescriptor m.descriptor code.maxLocals).mapError .fault
    return (⟨code, []⟩, pool)
  else do
    let site := file.dottedName ++ ("#" ++ m.signature)
    let (insertion, pool) ← (grow (insertion site e) pool).mapError .fault
    let body ← code.relocate file.pool insertion
    return (body, pool)

def withCode (m : Method) (index : Nat) (code : Code) : Method :=
  { m with
    attributes := m.attributes.modify index fun a => { a with body := code.encode }
    code := some (index, code) }

def method (file : ClassFile) (m : Method) (e : Edit) (pool : Pool) :
    Except (Abort CodeFault) (Method × Pool) :=
  match m.code with
  | none => .error (.fault (.unrelocatable .missingCode))
  | some (index, code) => do
    let (body, pool) ← body file m code e pool
    let depth ← (body.check pool).mapError .fault
    let maxStack := UInt16.ofNat (max body.code.maxStack.toNat depth)
    return (withCode m index { body.code with maxStack }, pool)

def methods (file : ClassFile) : List (Method × Edit) → Pool → List Method →
    Except (Abort InstrumentationFault) (List Method × Pool)
  | [], pool, done => .ok (done.reverse, pool)
  | (m, e) :: rest, pool, done =>
    if e.isNone then methods file rest pool (m :: done)
    else
      match method file m e pool with
      | .error abort => .error (abort.map (InstrumentationFault.mk file.dottedName m.signature))
      | .ok (m, pool) => methods file rest pool (m :: done)

def marker (rules : List String) : Growth Attribute := do
  let nameIndex ← Pool.addUtf8 ClassFile.markerName
  let ids ← rules.mapM Pool.addUtf8
  return ⟨nameIndex, ClassFile.markerName, count16 ids.length ++ ids.flatMap be16⟩

end Instrumentation

open Instrumentation in
/-- The class with all edits of a plan; without edits it stays as it is. The length of the marker is
a word of 32 bits, and the marker is counted as the last attribute in one of 16. -/
def Plan.carryOut (p : Plan) : Except (Abort InstrumentationFault) ClassFile :=
  if !p.hasEdits then .ok p.file
  else do
    let (methods, pool) ← methods p.file (p.file.methods.zip p.edits) p.file.pool []
    let rules := p.file.appliedRules ++ p.newlyApplied
    let others := p.file.attributes.filter (·.name != ClassFile.markerName)
    match grow (marker rules) pool with
    | .error fault => .error (.fault ⟨p.file.dottedName, "<class>", fault⟩)
    | .ok (marker, pool) =>
      if UInt32.size ≤ 2 + 2 * (UInt32.ofNat rules.length).toNat ∨
          UInt16.size ≤ (UInt16.ofNat others.length).toNat + 1 then
        .error .overflow
      else
        return { p.file with
          pool
          methods
          attributes := others ++ [marker]
          appliedRules := rules }

end ClassWeaver
