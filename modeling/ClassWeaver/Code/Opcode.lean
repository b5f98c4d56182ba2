import ClassWeaver.Bytes

namespace ClassWeaver

namespace Opcode

def aconstNull : UInt8 := 0x01
def iconst0 : UInt8 := 0x03
def lconst0 : UInt8 := 0x09
def fconst0 : UInt8 := 0x0b
def dconst0 : UInt8 := 0x0e
def ldc : UInt8 := 0x12
def ldcW : UInt8 := 0x13
def ldc2W : UInt8 := 0x14
def goto : UInt8 := 0xa7
def jsr : UInt8 := 0xa8
def ret : UInt8 := 0xa9
def tableswitch : UInt8 := 0xaa
def lookupswitch : UInt8 := 0xab
def ireturn : UInt8 := 0xac
def lreturn : UInt8 := 0xad
def freturn : UInt8 := 0xae
def dreturn : UInt8 := 0xaf
def areturn : UInt8 := 0xb0
def return_ : UInt8 := 0xb1
def getstatic : UInt8 := 0xb2
def putstatic : UInt8 := 0xb3
def getfield : UInt8 := 0xb4
def putfield : UInt8 := 0xb5
def invokevirtual : UInt8 := 0xb6
def invokespecial : UInt8 := 0xb7
def invokestatic : UInt8 := 0xb8
def invokedynamic : UInt8 := 0xba
def new : UInt8 := 0xbb
def athrow : UInt8 := 0xbf
def wide : UInt8 := 0xc4
def multianewarray : UInt8 := 0xc5
def gotoW : UInt8 := 0xc8
def jsrW : UInt8 := 0xc9

inductive Shape where
  | plain (operands : Nat)
  | near
  | far
  | switch
  | wide
  deriving DecidableEq, Repr

def shapes : List (UInt8 × UInt8 × Shape) :=
  [(0x00, 0x0f, .plain 0), (0x10, 0x10, .plain 1), (0x11, 0x11, .plain 2),
   (0x12, 0x12, .plain 1), (0x13, 0x14, .plain 2), (0x15, 0x19, .plain 1),
   (0x1a, 0x35, .plain 0), (0x36, 0x3a, .plain 1), (0x3b, 0x83, .plain 0),
   (0x84, 0x84, .plain 2), (0x85, 0x98, .plain 0), (0x99, 0xa8, .near),
   (0xa9, 0xa9, .plain 1), (0xaa, 0xab, .switch), (0xac, 0xb1, .plain 0),
   (0xb2, 0xb8, .plain 2), (0xb9, 0xba, .plain 4), (0xbb, 0xbb, .plain 2),
   (0xbc, 0xbc, .plain 1), (0xbd, 0xbd, .plain 2), (0xbe, 0xbf, .plain 0),
   (0xc0, 0xc1, .plain 2), (0xc2, 0xc3, .plain 0), (0xc4, 0xc4, .wide),
   (0xc5, 0xc5, .plain 3), (0xc6, 0xc7, .near), (0xc8, 0xc9, .far)]

def shape? (opcode : UInt8) : Option Shape :=
  (shapes.find? fun (first, last, _) => first ≤ opcode && opcode ≤ last).map (·.2.2)

def wideOperands? (inner : UInt8) : Option Nat :=
  if inner = 0x84 then some 5
  else if (0x15 ≤ inner && inner ≤ 0x19) || (0x36 ≤ inner && inner ≤ 0x3a) || inner = ret then
    some 3
  else none

def isReturn (opcode : UInt8) : Bool := ireturn ≤ opcode && opcode ≤ return_

def isNearBranch (opcode : UInt8) : Bool := shape? opcode == some .near

def isFarBranch (opcode : UInt8) : Bool := shape? opcode == some .far

def isSwitch (opcode : UInt8) : Bool := opcode == tableswitch || opcode == lookupswitch

def isSubroutineCall (opcode : UInt8) : Bool := opcode == jsr || opcode == jsrW

/-- Control never goes on to the next instruction. -/
def endsFlow (opcode : UInt8) : Bool :=
  isReturn opcode || isSwitch opcode || opcode == goto || opcode == gotoW || opcode == ret ||
    opcode == athrow

end Opcode

end ClassWeaver
