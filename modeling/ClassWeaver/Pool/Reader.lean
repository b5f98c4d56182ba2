import ClassWeaver.Pool.Basic
import ClassWeaver.ClassFile.Reader

namespace ClassWeaver

def Constant.read (index : UInt16) : Read Constant := do
  let tag ← Read.u8 "constant pool tag"
  match tag with
  | 1 =>
    let n ← Read.u16 "utf8 length"
    return .utf8 (ModifiedUtf8.decode (← Read.bytes n.toNat "utf8 constant"))
  | 3 => return .integer (← Read.u32 "integer constant").toInt32
  | 4 => return .float (← Read.u32 "float constant")
  | 5 => return .long (← Read.u64 "long constant").toInt64
  | 6 => return .double (← Read.u64 "double constant")
  | 7 => return .classRef (← Read.u16 "class constant")
  | 8 => return .string (← Read.u16 "string constant")
  | 9 => return .fieldRef (← Read.u16 "member reference") (← Read.u16 "member reference")
  | 10 => return .methodRef (← Read.u16 "member reference") (← Read.u16 "member reference")
  | 11 =>
    return .interfaceMethodRef (← Read.u16 "member reference") (← Read.u16 "member reference")
  | 12 => return .nameAndType (← Read.u16 "name and type") (← Read.u16 "name and type")
  | 15 => return .methodHandle (← Read.u8 "method handle") (← Read.u16 "method handle")
  | 16 => return .methodType (← Read.u16 "method type")
  | 17 => return .dynamic (← Read.u16 "dynamic constant") (← Read.u16 "dynamic constant")
  | 18 => return .invokeDynamic (← Read.u16 "dynamic constant") (← Read.u16 "dynamic constant")
  | 19 => return .moduleRef (← Read.u16 "module constant")
  | 20 => return .packageRef (← Read.u16 "package constant")
  | tag => Read.fail (.badConstantTag index tag)

namespace Pool

def readSlotsFrom : Nat → Array Constant → Read (Array Constant)
  | 0, slots, r => .ok (slots, r)
  | n + 1, slots, r =>
    match Constant.read (UInt16.ofNat slots.size) r with
    | .error fault => .error fault
    | .ok (c, r) =>
      if c.isWide then
        match n with
        | 0 => .error (.badConstantRef (UInt16.ofNat slots.size)
            "two-slot constant within the pool")
        | m + 1 => readSlotsFrom m ((slots.push c).push .unusable) r
      else readSlotsFrom n (slots.push c) r

def read : Read Pool := do
  let count ← Read.u16 "constant pool count"
  let start ← get
  let slots ← readSlotsFrom (count.toNat - 1) #[.unusable]
  let pos ← Read.offset
  let pool : Pool := ⟨slots, slots.size, start.rest.take (pos - start.offset)⟩
  Read.lift pool.check
  return pool

end Pool

end ClassWeaver
