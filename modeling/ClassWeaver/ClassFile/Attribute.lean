import ClassWeaver.Pool.Reader

namespace ClassWeaver

structure Attribute where
  nameIndex : UInt16
  name : String
  body : Bytes
  deriving DecidableEq, Repr

namespace Attribute

def headerSize : Nat := 6

def size (a : Attribute) : Nat := headerSize + a.body.length

def encode (a : Attribute) : Bytes :=
  be16 a.nameIndex ++ (count32 a.body.length ++ a.body)

def encodeAll (attributes : List Attribute) : Bytes :=
  count16 attributes.length ++ attributes.flatMap encode

def sizeAll (attributes : List Attribute) : Nat :=
  2 + total size attributes

def read (pool : Pool) : Read Attribute := do
  let nameIndex ← Read.u16 "attribute header"
  let name ← Read.lift (pool.utf8 nameIndex)
  let length ← Read.u32 "attribute header"
  let body ← Read.bytes length.toNat "attribute body"
  return ⟨nameIndex, name, body⟩

def readAll (pool : Pool) : Read (List Attribute) :=
  Read.counted "attributes" (read pool)

def placeFrom : Nat → List Attribute → List (Nat × Attribute) → List (Nat × Attribute)
  | _, [], done => done.reverse
  | pos, a :: rest, done => placeFrom (pos + a.size) rest ((pos, a) :: done)

def place (pos : Nat) (attributes : List Attribute) : List (Nat × Attribute) :=
  placeFrom (pos + 2) attributes []

def readBody {α : Type} (pos : Nat) (a : Attribute) (item : Read α) : Except ClassFault α :=
  Read.runAt (pos + headerSize) a.body item

end Attribute

end ClassWeaver
