import ClassWeaver.State.Record

namespace ClassWeaver

structure Snapshot where
  fingerprint : Option String
  records : List UnitRecord
  deriving DecidableEq, Repr

namespace Snapshot

def empty : Snapshot := ⟨none, []⟩

def ofFingerprint (fingerprint : String) : Snapshot := ⟨some fingerprint, []⟩

def size (s : Snapshot) : Nat := s.records.length

def isEmpty (s : Snapshot) : Bool := s.records.isEmpty

def get? (s : Snapshot) (key : String) : Option UnitRecord := s.records.find? (·.key == key)

def insertInto (r : UnitRecord) : List UnitRecord → List UnitRecord
  | [] => [r]
  | r' :: rest =>
    if r.key < r'.key then r :: r' :: rest
    else if r.key = r'.key then r :: rest
    else r' :: insertInto r rest

def insert (s : Snapshot) (r : UnitRecord) : Snapshot :=
  { s with records := insertInto r s.records }

/-- The record under a key, if its output may stand for the same contents once more. -/
def reusable? (s : Snapshot) (key contentHash : String) : Option UnitRecord :=
  (s.get? key).filter fun r => r.contentHash == contentHash && r.outcome != .failed

end Snapshot

end ClassWeaver
