import ClassWeaver.Bytes

namespace ClassWeaver

inductive ClassFault where
  | badMagic (magic : UInt32)
  | unsupportedVersion (major minor : UInt16)
  | truncated (context : String) (offset : Nat)
  | badConstantTag (index : UInt16) (tag : UInt8)
  | badConstantRef (index : UInt16) (expected : String)
  | badCode (method reason : String)
  | trailingBytes (count : Nat)
  deriving DecidableEq, Repr

def ClassFault.message : ClassFault → String
  | .badMagic magic =>
    s!"bad magic number 0x{(String.ofList (hexDigits 8 magic.toNat)).toUpper}"
  | .unsupportedVersion major minor => s!"unsupported class file version {major}.{minor}"
  | .truncated context offset => s!"truncated {context} at byte {offset}"
  | .badConstantTag index tag => s!"unknown constant pool tag {tag} at index {index}"
  | .badConstantRef index expected =>
    s!"constant pool index {index} is not a valid {expected}"
  | .badCode method reason => s!"invalid Code attribute in {method}: {reason}"
  | .trailingBytes count => s!"{count} trailing bytes after class body"

end ClassWeaver
