import ClassWeaver.ClassFile.Annotations
import ClassWeaver.Code.Body
import ClassWeaver.Code.Placement

/-!
Rebuilding a method's code with code inserted. Every offset that the code and its attributes hold is
moved; attributes that cannot be moved are dropped.
-/

namespace ClassWeaver

namespace Relocation

def near (source : Nat) (delta : Int) : Except CodeFault Int16 :=
  if -32768 ≤ delta ∧ delta < 32768 then .ok (Int16.ofInt delta)
  else .error (.branchOutOfRange source)

def far (source : Nat) (delta : Int) : Except CodeFault Int32 :=
  if -2147483648 ≤ delta ∧ delta < 2147483648 then .ok (Int32.ofInt delta)
  else .error (.branchOutOfRange source)

def retarget (m : Placement) (i : Instruction) (at_ : Nat) (delta : Int) : Except CodeFault Int :=
  (m.branch i.offset (i.offset + delta)).map fun (block : Nat) => (block : Int) - at_

def retargetFar (m : Placement) (i : Instruction) (at_ : Nat) (delta : Int32) :
    Except CodeFault Int32 := do
  far i.offset (← retarget m i at_ delta.toInt)

def moveOperand (m : Placement) (i : Instruction) (at_ : Nat) : Except CodeFault Operand :=
  match i.operand with
  | .plain bytes => .ok (.plain bytes)
  | .near delta => do
    let delta ← retarget m i at_ delta.toInt
    return .near (← near i.offset delta)
  | .far delta => .far <$> retargetFar m i at_ delta
  | .switch _ table => do
    let default ← retargetFar m i at_ table.default
    let cases ← table.cases.mapM fun (key, target) => do
      return (key, ← retargetFar m i at_ target)
    return .switch (List.replicate (Switch.paddingAt at_) 0) { table with default, cases }

def move (m : Placement) (placed : Instruction × Place) : Except CodeFault Instruction := do
  let (i, place) := placed
  return ⟨place.instruction, i.opcode, ← moveOperand m i place.instruction⟩

def emit (ins : Insertion) (m : Placement) (placed : Instruction × Place) :
    Except (Abort CodeFault) Bytes := do
  let moved ← (move m placed).mapError .fault
  match moved.encode? with
  | some bytes => return placed.1.prologueOf ins ++ (placed.1.epilogueOf ins ++ bytes)
  | none => .error .overflow

def moveHandler (m : Placement) (h : Handler) : Except CodeFault Handler := do
  let start ← m.pc h.start
  let stop ← m.pc h.stop
  let target ← m.pc h.target
  return ⟨start, stop, target, h.catchType⟩

def moveNew (m : Placement) (old : Nat) : Except CodeFault Nat :=
  match m.instruction? old with
  | some new => .ok new
  | none => .error (.malformedStackMap (.uninitialized old))

def moveFrame (m : Placement) (frame : Frame) : Except CodeFault Frame :=
  frame.mapOffsets m.block (moveNew m)

def moveRange (m : Placement) (start length : UInt16) : Except CodeFault Bytes := do
  let newStart ← m.pc start
  let newStop ← m.block (start.toNat + length.toNat)
  return be16 newStart ++ count16 (newStop - newStart.toNat)

def moveLineNumber (m : Placement) : Bytes → Except CodeFault Bytes
  | a :: b :: rest => (m.pc (ofBe16 a b)).map fun pc => be16 pc ++ rest
  | entry => .ok entry

def moveLocalVariable (m : Placement) : Bytes → Except CodeFault Bytes
  | a :: b :: c :: d :: rest =>
    (moveRange m (ofBe16 a b) (ofBe16 c d)).map (· ++ rest)
  | entry => .ok entry

def chunks (size : Nat) : Nat → Bytes → List Bytes → List Bytes
  | 0, _, done => done.reverse
  | n + 1, bs, done => chunks size n (bs.drop size) (bs.take size :: done)

def moveTable (size : Nat) (entry : Bytes → Except CodeFault Bytes) (body : Bytes) :
    Except CodeFault Bytes :=
  match body with
  | a :: b :: rest =>
    let n := (ofBe16 a b).toNat
    if rest.length = n * size then
      ((chunks size n rest []).mapM entry).map fun entries => a :: b :: entries.flatten
    else .error (.malformedStackMap .tableLength)
  | _ => .error (.malformedStackMap .tableLength)

section TypeAnnotations

variable (name : String) (m : Placement)

def annotationFault (fault : TypeAnnotationFault) : CodeFault :=
  .unrelocatable (.typeAnnotations name fault)

def reading {α : Type} (item : Read α) : ReadOr CodeFault α :=
  Read.mapFault (fun fault => annotationFault name (.classFile fault)) item

def moveVariableRange : ReadOr CodeFault Bytes := do
  let start ← reading name (Read.u16 "local variable target")
  let length ← reading name (Read.u16 "local variable target")
  let index ← reading name (Read.u16 "local variable target")
  let range ← Read.lift (moveRange m start length)
  return range ++ be16 index

def moveTarget : ReadOr CodeFault Bytes := do
  let tag ← reading name (Read.u8 "type annotation target")
  if tag = 0x40 ∨ tag = 0x41 then
    let n ← reading name (Read.u16 "local variable target")
    let ranges ← Read.times n.toNat (moveVariableRange name m)
    return tag :: (be16 n ++ ranges.flatten)
  else if tag = 0x42 then
    let handler ← reading name (Read.u16 "catch target")
    return tag :: be16 handler
  else if 0x43 ≤ tag ∧ tag ≤ 0x4b then
    let old ← reading name (Read.u16 "offset target")
    let argument ←
      if 0x47 ≤ tag then (fun b => [b]) <$> reading name (Read.u8 "type argument index")
      else pure []
    match m.instruction? old.toNat with
    | some new => return tag :: (count16 new ++ argument)
    | none => Read.fail (annotationFault name (.unplaced old.toNat))
  else
    Read.fail (annotationFault name (.targetType tag))

def readPathAndType (pool : Pool) : Read Unit := do
  let length ← Read.u8 "type path"
  let _ ← Read.bytes (2 * length.toNat) "type path"
  let _ ← Annotations.read pool
  return ()

def moveAnnotatedType (pool : Pool) : ReadOr CodeFault Bytes := do
  let target ← moveTarget name m
  let rest ← reading name (Read.spelled (readPathAndType pool))
  return target ++ rest

def moveTypeAnnotations (pool : Pool) : ReadOr CodeFault Bytes := do
  let n ← reading name (Read.u16 "type annotations")
  let moved ← Read.times n.toNat (moveAnnotatedType name m pool)
  let left ← Read.remaining
  if left = 0 then return be16 n ++ moved.flatten
  else Read.fail (annotationFault name (.trailingBytes left))

end TypeAnnotations

structure Moved where
  attributes : List Attribute
  frames : List Frame
  deriving DecidableEq, Repr

def Moved.keep (moved : Moved) (a : Attribute) (body : Bytes) : Moved :=
  { moved with attributes := { a with body } :: moved.attributes }

def moveAttribute (pool : Pool) (m : Placement) (moved : Moved) (a : Attribute) :
    Except CodeFault Moved :=
  if a.name = "StackMapTable" then do
    let frames ← (Frame.parse a.body).mapError .malformedStackMap
    let frames ← frames.mapM (moveFrame m)
    let body ← (Frame.encode frames).mapError .malformedStackMap
    return { moved.keep a body with frames }
  else if a.name = "LineNumberTable" then
    (moveTable 4 (moveLineNumber m) a.body).map (moved.keep a)
  else if a.name = "LocalVariableTable" ∨ a.name = "LocalVariableTypeTable" then
    (moveTable 10 (moveLocalVariable m) a.body).map (moved.keep a)
  else if a.name = "RuntimeVisibleTypeAnnotations" ∨
      a.name = "RuntimeInvisibleTypeAnnotations" then
    (Read.runAt 0 a.body (moveTypeAnnotations a.name m pool)).map (moved.keep a)
  else .ok moved

def moveAttributes (pool : Pool) (m : Placement) : List Attribute → Moved → Except CodeFault Moved
  | [], moved => .ok moved
  | a :: rest, moved =>
    match moveAttribute pool m moved a with
    | .error fault => .error fault
    | .ok moved => moveAttributes pool m rest moved

end Relocation

open Relocation in
/-- The code of a method of a class with this pool, with code inserted. Places are words of 32 bits;
they grow, so that each of them is one if and only if the end of the code is. -/
def Code.relocate (pool : Pool) (code : Code) (ins : Insertion) :
    Except (Abort CodeFault) Body := do
  let is ← (Instruction.decode code.bytes).mapError .fault
  let (placed, stop) := Instruction.placeFrom ins 0 is []
  if UInt32.size ≤ stop then
    .error .overflow
  else if Code.maxLength < stop then
    .error (.fault (.codeTooLarge stop))
  else
    let m := Placement.of placed stop
    let blocks ← placed.mapM (emit ins m)
    let handlers ← (code.handlers.mapM (moveHandler m)).mapError .fault
    let moved ← (moveAttributes pool m code.attributes ⟨[], []⟩).mapError .fault
    return ⟨⟨code.maxStack, code.maxLocals, blocks.flatten, handlers, moved.attributes.reverse⟩,
      moved.frames⟩

end ClassWeaver
