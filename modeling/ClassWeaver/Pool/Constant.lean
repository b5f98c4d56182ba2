import ClassWeaver.Text.ModifiedUtf8

namespace ClassWeaver

inductive Constant where
  | utf8 (text : String)
  | integer (value : Int32)
  | float (bits : UInt32)
  | long (value : Int64)
  | double (bits : UInt64)
  | classRef (name : UInt16)
  | string (text : UInt16)
  | fieldRef (owner member : UInt16)
  | methodRef (owner member : UInt16)
  | interfaceMethodRef (owner member : UInt16)
  | nameAndType (name descriptor : UInt16)
  | methodHandle (kind : UInt8) (target : UInt16)
  | methodType (descriptor : UInt16)
  | dynamic (bootstrap member : UInt16)
  | invokeDynamic (bootstrap member : UInt16)
  | moduleRef (name : UInt16)
  | packageRef (name : UInt16)
  /-- Slot zero, and the slot after a long or a double. -/
  | unusable
  deriving DecidableEq, Repr, Inhabited

namespace Constant

def tag : Constant → UInt8
  | utf8 _ => 1
  | integer _ => 3
  | float _ => 4
  | long _ => 5
  | double _ => 6
  | classRef _ => 7
  | string _ => 8
  | fieldRef .. => 9
  | methodRef .. => 10
  | interfaceMethodRef .. => 11
  | nameAndType .. => 12
  | methodHandle .. => 15
  | methodType _ => 16
  | dynamic .. => 17
  | invokeDynamic .. => 18
  | moduleRef _ => 19
  | packageRef _ => 20
  | unusable => 0

def isWide : Constant → Bool
  | long _ | double _ => true
  | _ => false

def width (c : Constant) : Nat := if c.isWide then 2 else 1

def body : Constant → Bytes
  | utf8 text =>
    let bytes := ModifiedUtf8.encode text
    count16 bytes.length ++ bytes
  | integer value => be32 value.toUInt32
  | float bits => be32 bits
  | long value => be64 value.toUInt64
  | double bits => be64 bits
  | classRef i | string i | methodType i | moduleRef i | packageRef i => be16 i
  | fieldRef a b | methodRef a b | interfaceMethodRef a b | nameAndType a b
  | dynamic a b | invokeDynamic a b => be16 a ++ be16 b
  | methodHandle kind target => kind :: be16 target
  | unusable => []

def encode (c : Constant) : Bytes :=
  match c with
  | unusable => []
  | c => c.tag :: c.body

inductive Role where
  | utf8 | classRef | nameAndType | fieldRef | methodRef
  deriving DecidableEq, Repr

def Role.text : Role → String
  | .utf8 => "Utf8"
  | .classRef => "Class"
  | .nameAndType => "NameAndType"
  | .fieldRef => "Fieldref"
  | .methodRef => "Methodref"

def plays : Constant → Role → Bool
  | utf8 _, .utf8 => true
  | classRef _, .classRef => true
  | nameAndType .., .nameAndType => true
  | fieldRef .., .fieldRef => true
  | methodRef .., .methodRef | interfaceMethodRef .., .methodRef => true
  | _, _ => false

/-- The slots an entry refers to, each with the role it must play; none for a method handle of an
unknown kind. -/
def references? : Constant → Option (List (UInt16 × Role))
  | classRef i | string i | methodType i | moduleRef i | packageRef i => some [(i, .utf8)]
  | fieldRef owner member | methodRef owner member | interfaceMethodRef owner member =>
    some [(owner, .classRef), (member, .nameAndType)]
  | nameAndType name descriptor => some [(name, .utf8), (descriptor, .utf8)]
  | methodHandle kind target =>
    if 1 ≤ kind && kind ≤ 4 then some [(target, .fieldRef)]
    else if 5 ≤ kind && kind ≤ 9 then some [(target, .methodRef)]
    else none
  | dynamic _ member | invokeDynamic _ member => some [(member, .nameAndType)]
  | utf8 _ | integer _ | float _ | long _ | double _ | unusable => some []

end Constant

end ClassWeaver
