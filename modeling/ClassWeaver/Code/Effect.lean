import ClassWeaver.Code.Descriptor
import ClassWeaver.Code.Instruction
import ClassWeaver.Pool.Basic

/-!
What an instruction does to the operand stack. First the instruction is looked up, with the help of
the pool, as one of three kinds of effect; only then is the effect applied to a stack.
-/

namespace ClassWeaver

inductive Effect where
  | exchange (pops : List Demand) (pushes : Stack)
  /-- Takes slots off the top and puts some of them back, each named by its place from the top. -/
  | shuffle (taken : Nat) (order : List Nat)
  | construct (arguments : List Demand) (pushes : Stack)
  deriving DecidableEq, Repr

namespace Effect

structure Row where
  first : UInt8
  last : UInt8
  pops : List Demand
  pushes : Stack
  deriving DecidableEq, Repr

def row (first last : UInt8) (pops : List ValueKind) (pushed : Option ValueKind) : Row :=
  ⟨first, last, pops.map .value, (pushed.map ValueKind.slots).getD []⟩

open ValueKind in
def numeric : List ValueKind := [int, long, float, double]

def arithmeticRows : List Row :=
  (List.range 5).flatMap fun operation =>
    numeric.zipIdx.map fun (kind, k) =>
      let opcode := UInt8.ofNat (0x60 + 4 * operation + k)
      row opcode opcode [kind, kind] (some kind)

open ValueKind in
def rows : List Row :=
  [row 0x00 0x00 [] none, row 0x01 0x01 [] (some reference),
   row 0x02 0x08 [] (some int), row 0x09 0x0a [] (some long),
   row 0x0b 0x0d [] (some float), row 0x0e 0x0f [] (some double),
   row 0x10 0x11 [] (some int), row 0x15 0x15 [] (some int),
   row 0x16 0x16 [] (some long), row 0x17 0x17 [] (some float),
   row 0x18 0x18 [] (some double), row 0x19 0x19 [] (some reference),
   row 0x1a 0x1d [] (some int), row 0x1e 0x21 [] (some long),
   row 0x22 0x25 [] (some float), row 0x26 0x29 [] (some double),
   row 0x2a 0x2d [] (some reference), row 0x2e 0x2e [reference, int] (some int),
   row 0x2f 0x2f [reference, int] (some long), row 0x30 0x30 [reference, int] (some float),
   row 0x31 0x31 [reference, int] (some double),
   row 0x32 0x32 [reference, int] (some reference),
   row 0x33 0x35 [reference, int] (some int), row 0x36 0x36 [int] none,
   row 0x37 0x37 [long] none, row 0x38 0x38 [float] none, row 0x39 0x39 [double] none,
   ⟨0x3a, 0x3a, [.storable], []⟩, row 0x3b 0x3e [int] none, row 0x3f 0x42 [long] none,
   row 0x43 0x46 [float] none, row 0x47 0x4a [double] none, ⟨0x4b, 0x4e, [.storable], []⟩,
   row 0x4f 0x4f [reference, int, int] none, row 0x50 0x50 [reference, int, long] none,
   row 0x51 0x51 [reference, int, float] none, row 0x52 0x52 [reference, int, double] none,
   row 0x53 0x53 [reference, int, reference] none, row 0x54 0x56 [reference, int, int] none]
  ++ arithmeticRows ++
  [row 0x74 0x74 [int] (some int), row 0x75 0x75 [long] (some long),
   row 0x76 0x76 [float] (some float), row 0x77 0x77 [double] (some double),
   row 0x78 0x78 [int, int] (some int), row 0x79 0x79 [long, int] (some long),
   row 0x7a 0x7a [int, int] (some int), row 0x7b 0x7b [long, int] (some long),
   row 0x7c 0x7c [int, int] (some int), row 0x7d 0x7d [long, int] (some long),
   row 0x7e 0x7e [int, int] (some int), row 0x7f 0x7f [long, long] (some long),
   row 0x80 0x80 [int, int] (some int), row 0x81 0x81 [long, long] (some long),
   row 0x82 0x82 [int, int] (some int), row 0x83 0x83 [long, long] (some long),
   row 0x84 0x84 [] none, row 0x85 0x85 [int] (some long), row 0x86 0x86 [int] (some float),
   row 0x87 0x87 [int] (some double), row 0x88 0x88 [long] (some int),
   row 0x89 0x89 [long] (some float), row 0x8a 0x8a [long] (some double),
   row 0x8b 0x8b [float] (some int), row 0x8c 0x8c [float] (some long),
   row 0x8d 0x8d [float] (some double), row 0x8e 0x8e [double] (some int),
   row 0x8f 0x8f [double] (some long), row 0x90 0x90 [double] (some float),
   row 0x91 0x93 [int] (some int), row 0x94 0x94 [long, long] (some int),
   row 0x95 0x96 [float, float] (some int), row 0x97 0x98 [double, double] (some int),
   row 0x99 0x9e [int] none, row 0x9f 0xa4 [int, int] none,
   row 0xa5 0xa6 [reference, reference] none, row 0xa7 0xa7 [] none,
   ⟨0xa8, 0xa8, [], [.returnAddress]⟩, row 0xa9 0xa9 [] none, row 0xaa 0xac [int] none,
   row 0xad 0xad [long] none, row 0xae 0xae [float] none, row 0xaf 0xaf [double] none,
   row 0xb0 0xb0 [reference] none, row 0xb1 0xb1 [] none,
   row 0xbc 0xbd [int] (some reference), row 0xbe 0xbe [reference] (some int),
   row 0xbf 0xbf [reference] none, row 0xc0 0xc0 [reference] (some reference),
   row 0xc1 0xc1 [reference] (some int), row 0xc2 0xc3 [reference] none,
   row 0xc6 0xc7 [reference] none, row 0xc8 0xc8 [] none,
   ⟨0xc9, 0xc9, [], [.returnAddress]⟩]

def fixed? (opcode : UInt8) : Option Effect :=
  (rows.find? fun r => r.first ≤ opcode && opcode ≤ r.last).map fun r => exchange r.pops r.pushes

def shuffle? : UInt8 → Option Effect
  | 0x57 => some (shuffle 1 [])
  | 0x58 => some (shuffle 2 [])
  | 0x59 => some (shuffle 1 [0, 0])
  | 0x5a => some (shuffle 2 [0, 1, 0])
  | 0x5b => some (shuffle 3 [0, 1, 2, 0])
  | 0x5c => some (shuffle 2 [0, 1, 0, 1])
  | 0x5d => some (shuffle 3 [0, 1, 2, 0, 1])
  | 0x5e => some (shuffle 4 [0, 1, 2, 3, 0, 1])
  | 0x5f => some (shuffle 2 [1, 0])
  | _ => none

def constantKind? (pool : Pool) (index : UInt16) : Option ValueKind :=
  match pool.get? index with
  | some (.integer _) => some .int
  | some (.float _) => some .float
  | some (.long _) => some .long
  | some (.double _) => some .double
  | some (.string _) | some (.classRef _) | some (.methodType _) | some (.methodHandle ..) =>
    some .reference
  | some (.dynamic ..) => (pool.referenceDescriptor? index).bind Descriptor.field?
  | _ => none

def load? (pool : Pool) (opcode : UInt8) (index : UInt16) : Option Effect :=
  (constantKind? pool index).bind fun kind =>
    if (kind.width == 2) = (opcode == Opcode.ldc2W) then some (exchange [] kind.slots) else none

def fieldAccess? (pool : Pool) (opcode : UInt8) (index : UInt16) : Option Effect :=
  ((pool.referenceDescriptor? index).bind Descriptor.field?).map fun kind =>
    if opcode = Opcode.getstatic then exchange [] kind.slots
    else if opcode = Opcode.putstatic then exchange [.value kind] []
    else if opcode = Opcode.getfield then exchange [.value .reference] kind.slots
    else exchange [.value .reference, .value kind] []

def invoke? (pool : Pool) (opcode : UInt8) (index : UInt16) : Option Effect :=
  ((pool.referenceDescriptor? index).bind Descriptor.method?).map fun signature =>
    let arguments := signature.arguments.map Demand.value
    let pushes := (signature.result.map ValueKind.slots).getD []
    if opcode = Opcode.invokespecial ∧ pool.referenceName? index = some "<init>" then
      construct arguments pushes
    else if opcode = Opcode.invokestatic ∨ opcode = Opcode.invokedynamic then
      exchange arguments pushes
    else exchange (.value .reference :: arguments) pushes

/-- The effect of an instruction; it fails for a constant that does not fit and for a code that has
none. -/
def ofInstruction (pool : Pool) (i : Instruction) : Except CodeFault Effect :=
  let opcode := i.opcode
  let resolve (index : UInt16) (effect : Option Effect) : Except CodeFault Effect :=
    match effect with
    | some effect => .ok effect
    | none => .error (.unresolvedConstant i.offset index)
  let known (opcode : UInt8) (effect : Option Effect) : Except CodeFault Effect :=
    match effect with
    | some effect => .ok effect
    | none => .error (.invalidOpcode i.offset opcode)
  if opcode = Opcode.ldc then
    let index := i.operand.word8.toUInt16
    resolve index (load? pool opcode index)
  else if opcode = Opcode.ldcW ∨ opcode = Opcode.ldc2W then
    resolve i.operand.word16 (load? pool opcode i.operand.word16)
  else if Opcode.getstatic ≤ opcode ∧ opcode ≤ Opcode.putfield then
    resolve i.operand.word16 (fieldAccess? pool opcode i.operand.word16)
  else if Opcode.invokevirtual ≤ opcode ∧ opcode ≤ Opcode.invokedynamic then
    resolve i.operand.word16 (invoke? pool opcode i.operand.word16)
  else if opcode = Opcode.new then
    .ok (exchange [] [.uninitialized i.offset])
  else if opcode = Opcode.multianewarray then
    .ok (exchange (List.replicate i.operand.third.toNat (.value .int)) ValueKind.reference.slots)
  else if opcode = Opcode.wide then
    known i.operand.word8 (fixed? i.operand.word8)
  else
    known opcode ((shuffle? opcode).or (fixed? opcode))

def popSlot (offset : Nat) (demand : Demand) : Stack → Except CodeFault Stack
  | [] => .error (.stackUnderflow offset)
  | t :: rest =>
    if demand.accepts t then .ok rest else .error (.operandType offset demand t)

def popSlots (offset : Nat) (demand : Demand) : Nat → Stack → Except CodeFault Stack
  | 0, s => .ok s
  | n + 1, s =>
    match popSlot offset demand s with
    | .error fault => .error fault
    | .ok s => popSlots offset demand n s

def popAll (offset : Nat) : List Demand → Stack → Except CodeFault Stack
  | [], s => .ok s
  | d :: rest, s =>
    match popSlots offset d d.width s with
    | .error fault => .error fault
    | .ok s => popAll offset rest s

/-- Every copy of a value whose constructor ran becomes a reference. -/
def markConstructed (created : Nat) (s : Stack) : Stack :=
  s.map fun t => if t = .uninitialized created then .reference else t

def popReceiver (offset : Nat) : Stack → Except CodeFault Stack
  | [] => .error (.stackUnderflow offset)
  | .reference :: rest => .ok rest
  | .uninitialized created :: rest => .ok (markConstructed created rest)
  | t :: _ => .error (.operandType offset .constructible t)

def apply (offset : Nat) (s : Stack) : Effect → Except CodeFault Stack
  | exchange pops pushes => (popAll offset pops.reverse s).map (pushes ++ ·)
  | shuffle taken order =>
    if s.length < taken then .error (.stackUnderflow offset)
    else .ok (order.filterMap (s[·]?) ++ s.drop taken)
  | construct arguments pushes =>
    match popAll offset arguments.reverse s with
    | .error fault => .error fault
    | .ok s => (popReceiver offset s).map (pushes ++ ·)

end Effect

def Instruction.apply (pool : Pool) (i : Instruction) (s : Stack) : Except CodeFault Stack :=
  match Effect.ofInstruction pool i with
  | .error fault => .error fault
  | .ok effect => effect.apply i.offset s

end ClassWeaver
