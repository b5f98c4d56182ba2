import ClassWeaver.Pool.Constant
import ClassWeaver.ClassFile.Fault

/-!
Constant pools. A pool keeps the bytes it was read from and only ever grows at its end, so that no
index changes its meaning.
-/

namespace ClassWeaver

structure Pool where
  slots : Array Constant
  readSlots : Nat
  raw : Bytes
  deriving DecidableEq, Repr

namespace Pool

def count (p : Pool) : Nat := p.slots.size

def get? (p : Pool) (i : UInt16) : Option Constant :=
  match p.slots[i.toNat]? with
  | some .unusable | none => none
  | some c => some c

def plays (p : Pool) (i : UInt16) (role : Constant.Role) : Bool :=
  match p.get? i with
  | some c => c.plays role
  | none => false

def utf8? (p : Pool) (i : UInt16) : Option String :=
  match p.get? i with
  | some (.utf8 text) => some text
  | _ => none

def utf8 (p : Pool) (i : UInt16) : Except ClassFault String :=
  match p.utf8? i with
  | some text => .ok text
  | none => .error (.badConstantRef i Constant.Role.utf8.text)

def className (p : Pool) (i : UInt16) : Except ClassFault String :=
  match p.get? i with
  | some (.classRef name) => p.utf8 name
  | _ => .error (.badConstantRef i Constant.Role.classRef.text)

def member? (p : Pool) (i : UInt16) : Option (UInt16 × UInt16) :=
  match p.get? i with
  | some (.fieldRef _ m) | some (.methodRef _ m) | some (.interfaceMethodRef _ m)
  | some (.dynamic _ m) | some (.invokeDynamic _ m) =>
    match p.get? m with
    | some (.nameAndType name descriptor) => some (name, descriptor)
    | _ => none
  | _ => none

def referenceName? (p : Pool) (i : UInt16) : Option String :=
  (p.member? i).bind fun m => p.utf8? m.1

def referenceDescriptor? (p : Pool) (i : UInt16) : Option String :=
  (p.member? i).bind fun m => p.utf8? m.2

def appended (p : Pool) : List Constant := p.slots.toList.drop p.readSlots

def encode (p : Pool) : Bytes :=
  count16 p.count ++ (p.raw ++ p.appended.flatMap Constant.encode)

def checkReferences (p : Pool) : Nat → List Constant → Except ClassFault Unit
  | _, [] => .ok ()
  | i, c :: rest =>
    match c.references? with
    | none => .error (.badConstantRef (UInt16.ofNat i) "method handle kind")
    | some refs =>
      match refs.find? fun (target, role) => !p.plays target role with
      | some (target, role) => .error (.badConstantRef target role.text)
      | none => p.checkReferences (i + 1) rest

def check (p : Pool) : Except ClassFault Unit := p.checkReferences 0 p.slots.toList

end Pool

end ClassWeaver
