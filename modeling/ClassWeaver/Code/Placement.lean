import ClassWeaver.Code.Instruction

/-!
Where the instructions of a method go when code is inserted. Inserted code before a return forms a
block with it: branches and tables lead to the start of the block, and only a value that remembers
its `new` follows the instruction itself.
-/

namespace ClassWeaver

/-- Code to insert. It must not branch, and its length is a word of 32 bits. -/
structure Insertion where
  prologue : Bytes
  epilogue : Bytes
  deriving DecidableEq, Repr

def Insertion.isEmpty (ins : Insertion) : Bool := ins.prologue.isEmpty && ins.epilogue.isEmpty

structure Place where
  block : Nat
  instruction : Nat
  deriving DecidableEq, Repr

namespace Instruction

def sizeAt (offset : Nat) (i : Instruction) : Nat :=
  match i.operand with
  | .switch _ table => table.sizeAt offset
  | _ => i.size

def prologueOf (ins : Insertion) (i : Instruction) : Bytes :=
  if i.offset = 0 then ins.prologue else []

def epilogueOf (ins : Insertion) (i : Instruction) : Bytes :=
  if i.isReturn then ins.epilogue else []

def placeAt (ins : Insertion) (pos : Nat) (i : Instruction) : Place :=
  let block := pos + (i.prologueOf ins).length
  ⟨block, block + (i.epilogueOf ins).length⟩

def placeFrom (ins : Insertion) : Nat → List Instruction → List (Instruction × Place) →
    List (Instruction × Place) × Nat
  | pos, [], done => (done.reverse, pos)
  | pos, i :: rest, done =>
    let place := i.placeAt ins pos
    placeFrom ins (place.instruction + i.sizeAt place.instruction) rest ((i, place) :: done)

end Instruction

/-- For each old offset the place of the instruction there, and one for the end of the code. -/
structure Placement where
  slots : Array (Option Place)
  deriving DecidableEq, Repr

namespace Placement

def slotsOf (placed : List (Instruction × Place)) : List (Option Place) :=
  placed.flatMap fun (i, place) => some place :: List.replicate (i.size - 1) none

def of (placed : List (Instruction × Place)) (stop : Nat) : Placement :=
  ⟨(slotsOf placed ++ [some (Place.mk stop stop)]).toArray⟩

def place? (m : Placement) (old : Nat) : Option Place := (m.slots[old]?).join

def block (m : Placement) (old : Nat) : Except CodeFault Nat :=
  match m.place? old with
  | some place => .ok place.block
  | none => .error (.badBranchTarget old old)

def pc (m : Placement) (old : UInt16) : Except CodeFault UInt16 :=
  (m.block old.toNat).map UInt16.ofNat

def branch (m : Placement) (source : Nat) (target : Int) : Except CodeFault Nat :=
  if target < 0 ∨ m.slots.size ≤ target.toNat + 1 then .error (.badBranchTarget source target)
  else
    match m.place? target.toNat with
    | some place => .ok place.block
    | none => .error (.badBranchTarget source target)

def instruction? (m : Placement) (old : Nat) : Option Nat := (m.place? old).map (·.instruction)

end Placement

end ClassWeaver
