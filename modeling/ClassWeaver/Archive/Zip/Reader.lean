import ClassWeaver.Archive.Transform
import ClassWeaver.Archive.Zip.Directory

/-!
Reading a zip archive. The directory at its end tells what is in it; an entry that cannot be read
does not keep the others from being read.
-/

namespace ClassWeaver

namespace Zip

def headerSize : Nat := 30

def dataStart (a : Image) (line : Line) : Except Fault Nat :=
  if !a.holds line.offset 4 then .error .truncated
  else if a.word32 line.offset ≠ entryMark then .error .badEntry
  else if !a.holds line.offset headerSize then .error .truncated
  else .ok (line.offset + headerSize + (a.word16 (line.offset + 26)).toNat +
    (a.word16 (line.offset + 28)).toNat)

/-- The entry that a line of the directory tells of. Its data end with the archive, if not before;
the check at last tells whether they are whole. -/
def readEntry (a : Image) (line : Line) : Except Fault Entry := do
  if line.flags &&& 1 ≠ 0 then .error .encrypted
  else
    let start ← dataStart a line
    if line.method ≠ methodStored ∧ line.method ≠ methodDeflated then .error .unknownMethod
    else if line.cipher then .error .encrypted
    else
      let packed := a.slice start line.packedSize
      let stored := line.method = methodStored
      match (if stored then some packed else Deflate.inflate? packed) with
      | none => .error .corrupt
      | some data =>
        if crc32 data ≠ line.crc then .error .badChecksum
        else return ⟨line.name, data, stored, line.modified, line.mode⟩

def decodeImage (a : Image) : Except Fault Contents := do
  return (← lines a).map fun line => (readEntry a line).mapError Fault.message

def decode (bs : Bytes) : Except Fault Contents := decodeImage bs.toArray

end Zip

end ClassWeaver
