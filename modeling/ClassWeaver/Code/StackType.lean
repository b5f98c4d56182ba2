import ClassWeaver.Bytes

namespace ClassWeaver

inductive StackType where
  | int
  | float
  | long
  | double
  | reference
  | returnAddress
  | uninitialized (offset : Nat)
  /-- Declared as top, which stands for any category. -/
  | top
  deriving DecidableEq, Repr

def StackType.text : StackType → String
  | .int => "int"
  | .float => "float"
  | .long => "long"
  | .double => "double"
  | .reference => "reference"
  | .returnAddress => "returnAddress"
  | .uninitialized offset => s!"uninitialized({offset})"
  | .top => "top"

abbrev Stack := List StackType

inductive ValueKind where
  | int | float | long | double | reference
  deriving DecidableEq, Repr

namespace ValueKind

def type : ValueKind → StackType
  | int => .int
  | float => .float
  | long => .long
  | double => .double
  | reference => .reference

def width : ValueKind → Nat
  | long | double => 2
  | _ => 1

def slots (k : ValueKind) : Stack := List.replicate k.width k.type

end ValueKind

inductive Demand where
  | value (kind : ValueKind)
  | storable
  | constructible
  deriving DecidableEq, Repr

namespace Demand

def text : Demand → String
  | value kind => kind.type.text
  | storable => "reference or returnAddress"
  | constructible => "uninitialized reference"

def width : Demand → Nat
  | value kind => kind.width
  | _ => 1

def accepts : Demand → StackType → Bool
  | value kind, t => t == kind.type
  | storable, .reference | storable, .returnAddress | storable, .uninitialized _ => true
  | storable, _ => false
  | constructible, .reference | constructible, .uninitialized _ => true
  | constructible, _ => false

end Demand

end ClassWeaver
