import ClassWeaver.Archive.Entry
import ClassWeaver.Archive.Zip.Fault
import ClassWeaver.Archive.Zip.Image
import ClassWeaver.Archive.Zip.Writer

namespace ClassWeaver

namespace Zip

def endSize : Nat := 22

def maxComment : Nat := 65535

def endFrom? (a : Image) : Nat → Nat → Option Nat
  | 0, pos => if a.word32 pos = endMark then some pos else none
  | n + 1, pos =>
    if a.word32 pos = endMark then some pos
    else if pos = 0 then none else endFrom? a n (pos - 1)

structure End where
  pos : Nat
  disk : UInt16
  directoryDisk : UInt16
  count : UInt16
  countOfAll : UInt16
  size : UInt32
  start : UInt32
  commentLength : Nat
  deriving DecidableEq, Repr

def End.isFull (e : End) : Bool :=
  e.disk = 0xFFFF || e.directoryDisk = 0xFFFF || e.count = 0xFFFF || e.countOfAll = 0xFFFF ||
    e.size = 0xFFFFFFFF || e.start = 0xFFFFFFFF

def readEnd (a : Image) : Except Fault End :=
  if a.size < endSize then .error .tooShort
  else
    match endFrom? a maxComment (a.size - endSize) with
    | none => .error .noEnd
    | some pos =>
      let commentLength := (a.word16 (pos + 20)).toNat
      if a.holds (pos + endSize) commentLength then
        .ok { pos
              disk := a.word16 (pos + 4)
              directoryDisk := a.word16 (pos + 6)
              count := a.word16 (pos + 8)
              countOfAll := a.word16 (pos + 10)
              size := a.word32 (pos + 12)
              start := a.word32 (pos + 16)
              commentLength }
      else .error .truncated

def wideEndMark : UInt32 := 0x06064b50

def locatorMark : UInt32 := 0x07064b50

def locatorSize : Nat := 20

def wideEndSize : Nat := 60

structure Locator where
  disk : UInt32
  place : Nat
  deriving DecidableEq, Repr

/-- It stands just before the last part of the archive, if that is followed by its comment alone. -/
def locator? (a : Image) (e : End) : Option Locator :=
  let back := locatorSize + endSize + e.commentLength
  if back ≤ a.size then
    let pos := a.size - back
    if a.word32 pos = locatorMark then some ⟨a.word32 (pos + 4), (a.word64 (pos + 8)).toNat⟩
    else none
  else none

def wideEndFrom? (a : Image) : Nat → Nat → Option Nat
  | 0, _ => none
  | n + 1, pos => if a.word32 pos = wideEndMark then some pos else wideEndFrom? a n (pos + 1)

structure Span where
  base : Nat
  start : Nat
  count : Nat
  deriving DecidableEq, Repr

def placeLimit : Nat := 0x10000000000000000

def End.span (e : End) : Except Fault Span :=
  let size := e.size.toNat
  let start := e.start.toNat
  if e.pos < size + start then .error .badSpan
  else .ok ⟨e.pos - size - start, e.pos - size, e.count.toNat⟩

def wideSpan (a : Image) (e : End) (l : Locator) : Except Fault Span :=
  if !e.isFull && e.disk.toNat ≠ l.disk.toNat then .error .manyDisks
  else if e.pos < wideEndSize then .error .noRoomForWideEnd
  else
    match wideEndFrom? a (e.pos - wideEndSize + 1 - l.place) l.place with
    | none => .error .noWideEnd
    | some pos =>
      let base := pos - l.place
      let start := (a.word64 (pos + 48)).toNat + base
      if a.word32 (pos + 16) ≠ a.word32 (pos + 20) then .error .manyDisks
      else if placeLimit ≤ start then .error .badSpan
      else .ok ⟨base, start, (a.word64 (pos + 32)).toNat⟩

def span (a : Image) : Except Fault Span := do
  let e ← readEnd a
  if !e.isFull && e.disk ≠ e.directoryDisk then .error .manyDisks
  else
    match locator? a e with
    | none => e.span
    | some l => wideSpan a e l

structure Line where
  name : String
  flags : UInt16
  method : UInt16
  modified : EntryTime
  crc : UInt32
  packedSize : Nat
  size : Nat
  offset : Nat
  mode : Option Nat
  cipher : Bool
  deriving DecidableEq, Repr

def modeOf (madeBy : UInt16) (attributes : UInt32) : Option Nat :=
  if attributes = 0 then none
  else
    match madeBy.toNat / 256 with
    | 3 => some (attributes.toNat / 65536)
    | 0 =>
      let mode := if attributes &&& 0x10 = 0 then 0o100664 else 0o40775
      some (if attributes &&& 1 = 0 then mode else mode &&& 0o555)
    | _ => none

def noRoom : Nat := 0xFFFFFFFF

def littleEndian (bs : Bytes) : Nat := bs.foldr (fun b n => n * 256 + b.toNat) 0

/-- A number that may not fit in its word; then eight of the bytes tell it, those behind the `used`
ones. Once they are missing nothing more can be told. -/
def wide (bs : Bytes) (n : Nat) : Option Nat → Nat × Option Nat
  | none => (n, none)
  | some used =>
    if n ≠ noRoom then (n, some used)
    else
      match takeExact? 8 (bs.drop used) with
      | some (front, _) => (littleEndian front, some (used + 8))
      | none => (n, none)

def wideField : UInt16 := 0x0001

def cipherField : UInt16 := 0x9901

def cipherVendor : UInt16 := 0x4541

def methodEncrypted : UInt16 := 99

namespace Line

def widen (line : Line) (bs : Bytes) : Line × Option Nat :=
  let (size, used) := wide bs line.size (some 0)
  let (packedSize, used) := wide bs line.packedSize used
  let (offset, used) := wide bs line.offset used
  ({ line with size, packedSize, offset }, used)

def withCipher (line : Line) (version vendor : UInt16) (strength : UInt8) (method : UInt16) :
    Except Fault Line :=
  if vendor ≠ Zip.cipherVendor then .error .cipherVendor
  else if version ≠ 1 ∧ version ≠ 2 then .error .cipherVersion
  else if strength = 0 ∨ 3 < strength then .error .cipherStrength
  else .ok { line with method, cipher := true }

/-- What the extra fields of a line tell besides. One that ends too early is the last. Behind the field
of a cipher as many bytes are left out as it has itself. -/
def withExtra (line : Line) (bs : Bytes) : Except Fault Line :=
  match bs with
  | a :: b :: c :: d :: rest =>
    let kind := ofBe16 b a
    let length := (ofBe16 d c).toNat
    if kind = wideField then
      match line.widen rest with
      | (line, none) => .ok line
      | (line, some used) => line.withExtra (rest.drop (max used length))
    else if kind = cipherField then
      if length ≠ 7 then .error .cipherLength
      else
        match rest with
        | v :: v' :: w :: w' :: strength :: m :: m' :: left =>
          match line.withCipher (ofBe16 v' v) (ofBe16 w' w) strength (ofBe16 m' m) with
          | .error fault => .error fault
          | .ok line => line.withExtra (left.drop length)
        | _ => .ok line
    else line.withExtra (rest.drop length)
  | _ => .ok line
termination_by bs.length
decreasing_by all_goals (simp; omega)

end Line

def lineSize : Nat := 46

def readLine (a : Image) (base pos : Nat) : Except Fault (Line × Nat) := do
  let nameLength := (a.word16 (pos + 28)).toNat
  let extraLength := (a.word16 (pos + 30)).toNat
  let length := lineSize + nameLength + extraLength + (a.word16 (pos + 32)).toNat
  if !a.holds pos 4 then .error .truncated
  else if a.word32 pos ≠ directoryMark then .error .badLine
  else if !a.holds pos length then .error .truncated
  else
    let flags := a.word16 (pos + 8)
    let told : Line :=
      { name := nameText (flags &&& unicodeFlag ≠ 0) (a.slice (pos + lineSize) nameLength)
        flags
        method := a.word16 (pos + 10)
        modified := ⟨a.word16 (pos + 14), a.word16 (pos + 12)⟩
        crc := a.word32 (pos + 16)
        packedSize := (a.word32 (pos + 20)).toNat
        size := (a.word32 (pos + 24)).toNat
        offset := (a.word32 (pos + 42)).toNat
        mode := modeOf (a.word16 (pos + 4)) (a.word32 (pos + 38))
        cipher := false }
    let line ← told.withExtra (a.slice (pos + lineSize + nameLength) extraLength)
    if line.method = methodEncrypted ∧ !line.cipher then .error .cipherMissing
    else if placeLimit ≤ line.offset + base then .error .farEntry
    else return ({ line with offset := line.offset + base }, pos + length)

def linesFrom (a : Image) (base : Nat) : Nat → Nat → Except Fault (List Line)
  | 0, _ => .ok []
  | count + 1, pos => do
    let (line, next) ← readLine a base pos
    return line :: (← linesFrom a base count next)

def lines (a : Image) : Except Fault (List Line) := do
  let s ← span a
  linesFrom a s.base s.count s.start

end Zip

end ClassWeaver
