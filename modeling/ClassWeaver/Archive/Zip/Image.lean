import ClassWeaver.Bytes

namespace ClassWeaver

namespace Zip

abbrev Image := Array UInt8

namespace Image

variable (a : Image)

/-- Beyond the end stand zeros; whoever must not read there asks `holds` first. -/
def word16 (pos : Nat) : UInt16 := ofBe16 (a.getD (pos + 1) 0) (a.getD pos 0)

def word32 (pos : Nat) : UInt32 :=
  ofBe32 (a.getD (pos + 3) 0) (a.getD (pos + 2) 0) (a.getD (pos + 1) 0) (a.getD pos 0)

def word64 (pos : Nat) : UInt64 := ofBe64 (a.word32 (pos + 4)) (a.word32 pos)

def holds (start length : Nat) : Bool := start + length ≤ a.size

def slice (start length : Nat) : Bytes := (a.extract start (start + length)).toList

end Image

end Zip

end ClassWeaver
