import ClassWeaver.Code.StackType
import ClassWeaver.ClassFile.Reader

namespace ClassWeaver

inductive FrameFault where
  | truncated (context : String) (offset : Nat)
  | typeTag (tag : UInt8)
  | frameType (type : UInt8)
  | trailingBytes
  | outOfOrder
  | deltaOverflow
  | notAnInstruction (offset : Nat)
  | uninitialized (offset : Nat)
  | tableLength
  deriving DecidableEq, Repr

instance : Truncation FrameFault := ⟨.truncated⟩

def FrameFault.message : FrameFault → String
  | .truncated context offset => (ClassFault.truncated context offset).message
  | .typeTag tag => s!"verification type tag {tag}"
  | .frameType type => s!"reserved frame type {type}"
  | .trailingBytes => "trailing bytes"
  | .outOfOrder => "frames out of order"
  | .deltaOverflow => "frame offset delta overflow"
  | .notAnInstruction offset => s!"frame at {offset} is not an instruction boundary"
  | .uninitialized offset => s!"uninitialized offset {offset}"
  | .tableLength => "offset table length mismatch"

inductive TypeAnnotationFault where
  | classFile (fault : ClassFault)
  | unplaced (offset : Nat)
  | targetType (tag : UInt8)
  | trailingBytes (count : Nat)
  deriving DecidableEq, Repr

def TypeAnnotationFault.message : TypeAnnotationFault → String
  | .classFile fault => fault.message
  | .unplaced offset => s!"offset {offset} is not an instruction"
  | .targetType tag => s!"target type 0x{String.ofList (hexDigits 2 tag.toNat)} inside Code"
  | .trailingBytes count => s!"{count} trailing bytes"

inductive RebuildFault where
  | missingCode
  | descriptor (text : String)
  | typeAnnotations (name : String) (fault : TypeAnnotationFault)
  deriving DecidableEq, Repr

def RebuildFault.message : RebuildFault → String
  | .missingCode => "missing Code"
  | .descriptor text => s!"descriptor {text}"
  | .typeAnnotations name fault => s!"{name}: {fault.message}"

inductive CodeFault where
  | stackUnderflow (offset : Nat)
  | inconsistentStack (offset : Nat) (expected found : UInt16)
  | inconsistentTypes (offset slot : Nat) (expected found : StackType)
  | operandType (offset : Nat) (expected : Demand) (found : StackType)
  | frameMismatch (offset : Nat) (declared computed : UInt16)
  | frameTypeMismatch (offset slot : Nat) (declared computed : StackType)
  | badBranchTarget (offset : Nat) (target : Int)
  | branchOutOfRange (offset : Nat)
  | invalidOpcode (offset : Nat) (opcode : UInt8)
  | fallsOffEnd
  | codeTooLarge (length : Nat)
  | stackTooDeep (depth : Nat)
  | unresolvedConstant (offset : Nat) (index : UInt16)
  | unrelocatable (fault : RebuildFault)
  | malformedStackMap (fault : FrameFault)
  | constantPoolFull
  deriving DecidableEq, Repr

def CodeFault.message : CodeFault → String
  | .stackUnderflow offset => s!"stack underflow at {offset}"
  | .inconsistentStack offset expected found =>
    s!"inconsistent stack depth at {offset}: {expected} vs {found}"
  | .inconsistentTypes offset slot expected found =>
    s!"inconsistent stack slot {slot} at {offset}: {expected.text} vs {found.text}"
  | .operandType offset expected found =>
    s!"instruction at {offset} expects {expected.text} on the stack, found {found.text}"
  | .frameMismatch offset declared computed =>
    s!"stack map frame at {offset} declares depth {declared}, computed {computed}"
  | .frameTypeMismatch offset slot declared computed =>
    s!"stack map frame at {offset} declares {declared.text} in slot {slot}, " ++
      s!"computed {computed.text}"
  | .badBranchTarget offset target =>
    s!"branch at {offset} targets {target}, not an instruction"
  | .branchOutOfRange offset => s!"branch at {offset} no longer fits its encoding"
  | .invalidOpcode offset opcode =>
    s!"invalid opcode 0x{String.ofList (hexDigits 2 opcode.toNat)} at {offset}"
  | .fallsOffEnd => "execution falls off the end of the code"
  | .codeTooLarge length => s!"code length {length} exceeds 65535"
  | .stackTooDeep depth => s!"stack depth {depth} exceeds 65535"
  | .unresolvedConstant offset index =>
    s!"instruction at {offset} references bad constant {index}"
  | .unrelocatable fault => s!"cannot relocate code attribute {fault.message}"
  | .malformedStackMap fault => s!"malformed StackMapTable: {fault.message}"
  | .constantPoolFull => "constant pool would exceed 65535 entries"

/-- Why something is not built: a fault of its own, or a number that does not fit the word it is
computed in, which ends the whole run. -/
inductive Abort (ε : Type) where
  | fault (fault : ε)
  | overflow
  deriving DecidableEq, Repr

def Abort.map {ε δ : Type} (f : ε → δ) : Abort ε → Abort δ
  | fault x => fault (f x)
  | overflow => overflow

end ClassWeaver
