import ClassWeaver.Code.Fault
import ClassWeaver.Code.Switch

namespace ClassWeaver

inductive Operand where
  | plain (bytes : Bytes)
  | near (delta : Int16)
  | far (delta : Int32)
  /-- The gap before the table keeps the bytes it was read with. -/
  | switch (padding : Bytes) (table : Switch)
  deriving DecidableEq, Repr

namespace Operand

def size : Operand → Nat
  | plain bytes => bytes.length
  | near _ => 2
  | far _ => 4
  | switch padding table => padding.length + table.size

def encode : Operand → Bytes
  | plain bytes => bytes
  | near delta => be16 delta.toUInt16
  | far delta => be32 delta.toUInt32
  | switch padding table => padding ++ table.spell

def encode? : Operand → Option Bytes
  | switch padding table => table.encode?.map (padding ++ ·)
  | x => some x.encode

def deltas : Operand → List Int
  | plain _ => []
  | near delta => [delta.toInt]
  | far delta => [delta.toInt]
  | switch _ table => table.default.toInt :: table.cases.map fun c => c.2.toInt

def word8 : Operand → UInt8
  | plain (a :: _) => a
  | _ => 0

def word16 : Operand → UInt16
  | plain (a :: b :: _) => ofBe16 a b
  | _ => 0

def third : Operand → UInt8
  | plain (_ :: _ :: c :: _) => c
  | _ => 0

def readPlain? (n : Nat) (bs : Bytes) : Option (Operand × Bytes) :=
  (takeExact? n bs).map fun (front, rest) => (plain front, rest)

def read? (opcode : UInt8) (offset : Nat) (bs : Bytes) : Option (Operand × Bytes) :=
  match Opcode.shape? opcode with
  | none => none
  | some (.plain n) => readPlain? n bs
  | some .near =>
    match bs with
    | a :: b :: rest => some (near (ofBe16 a b).toInt16, rest)
    | _ => none
  | some .far =>
    match bs with
    | a :: b :: c :: d :: rest => some (far (ofBe32 a b c d).toInt32, rest)
    | _ => none
  | some .wide =>
    match bs with
    | inner :: _ => (Opcode.wideOperands? inner).bind (readPlain? · bs)
    | [] => none
  | some .switch =>
    (takeExact? (Switch.paddingAt offset) bs).bind fun (padding, rest) =>
      (Switch.read? opcode rest).map fun (table, rest) => (switch padding table, rest)

theorem length_le_of_readPlain? {n : Nat} {bs rest : Bytes} {x : Operand}
    (h : readPlain? n bs = some (x, rest)) : rest.length ≤ bs.length := by
  simp only [readPlain?, Option.map_eq_some_iff, Prod.exists, Prod.mk.injEq] at h
  obtain ⟨front, rest', h, -, rfl⟩ := h
  obtain ⟨rfl, -⟩ := takeExact?_eq_some h
  simp

theorem length_le_of_read? {opcode : UInt8} {offset : Nat} {bs rest : Bytes} {x : Operand}
    (h : read? opcode offset bs = some (x, rest)) : rest.length ≤ bs.length := by
  unfold read? at h
  split at h
  · cases h
  · exact length_le_of_readPlain? h
  · split at h <;> cases h
    simp only [List.length_cons]
    omega
  · split at h <;> cases h
    simp only [List.length_cons]
    omega
  · split at h
    · obtain ⟨n, -, h⟩ := Option.bind_eq_some_iff.1 h
      exact length_le_of_readPlain? h
    · cases h
  · simp only [Option.bind_eq_some_iff, Option.map_eq_some_iff, Prod.exists, Prod.mk.injEq] at h
    obtain ⟨padding, rest', h, table, rest'', h', -, rfl⟩ := h
    obtain ⟨rfl, -⟩ := takeExact?_eq_some h
    have := Switch.length_le_of_read? h'
    simp only [List.length_append]
    omega

end Operand

structure Instruction where
  offset : Nat
  opcode : UInt8
  operand : Operand
  deriving DecidableEq, Repr

namespace Instruction

def size (i : Instruction) : Nat := 1 + i.operand.size

def stop (i : Instruction) : Nat := i.offset + i.size

def encode (i : Instruction) : Bytes := i.opcode :: i.operand.encode

def encode? (i : Instruction) : Option Bytes := i.operand.encode?.map (i.opcode :: ·)

def targets (i : Instruction) : List Int := i.operand.deltas.map (i.offset + ·)

def isReturn (i : Instruction) : Bool := Opcode.isReturn i.opcode

def endsFlow (i : Instruction) : Bool := Opcode.endsFlow i.opcode

def encodeAll (is : List Instruction) : Bytes := is.flatMap encode

def read? (offset : Nat) : Bytes → Option (Instruction × Bytes)
  | [] => none
  | opcode :: rest =>
    (Operand.read? opcode offset rest).map fun (operand, rest) => (⟨offset, opcode, operand⟩, rest)

/-- The instructions from `offset` on, after those that are done. A code that has no operation, or
whose operands are cut off, is the fault of its own instruction. -/
def decodeFrom (offset : Nat) (bs : Bytes) (done : List Instruction) :
    Except CodeFault (List Instruction) :=
  match bs with
  | [] => .ok done.reverse
  | opcode :: rest =>
    match h : Operand.read? opcode offset rest with
    | none => .error (.invalidOpcode offset opcode)
    | some (operand, rest') =>
      have := Operand.length_le_of_read? h
      let i : Instruction := ⟨offset, opcode, operand⟩
      decodeFrom i.stop rest' (i :: done)
  termination_by bs.length

def decode (bs : Bytes) : Except CodeFault (List Instruction) := decodeFrom 0 bs []

end Instruction

end ClassWeaver
