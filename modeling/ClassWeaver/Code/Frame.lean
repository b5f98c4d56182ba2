import ClassWeaver.Code.Fault

/-!
Stack map frames. A table says how far each frame is from the one before; here every frame has its
offset in the code, and writing picks the shortest form for the distance.
-/

namespace ClassWeaver

inductive FrameType where
  | top
  | int
  | float
  | double
  | long
  | null
  | uninitializedThis
  | object (index : UInt16)
  | uninitialized (offset : Nat)
  deriving DecidableEq, Repr

namespace FrameType

def width : FrameType → Nat
  | double | long => 2
  | _ => 1

def encode : FrameType → Bytes
  | top => [0]
  | int => [1]
  | float => [2]
  | double => [3]
  | long => [4]
  | null => [5]
  | uninitializedThis => [6]
  | object index => 7 :: be16 index
  | uninitialized offset => 8 :: count16 offset

def stackType : FrameType → StackType
  | top => .top
  | int => .int
  | float => .float
  | long => .long
  | double => .double
  | null | uninitializedThis | object _ => .reference
  | uninitialized offset => .uninitialized offset

def mapOffset {ε : Type} (f : Nat → Except ε Nat) : FrameType → Except ε FrameType
  | uninitialized offset => (f offset).map uninitialized
  | t => .ok t

def read : ReadOr FrameFault FrameType := do
  match ← Read.u8 "verification type" with
  | 0 => return top
  | 1 => return int
  | 2 => return float
  | 3 => return double
  | 4 => return long
  | 5 => return null
  | 6 => return uninitializedThis
  | 7 => return object (← Read.u16 "verification type")
  | 8 => return uninitialized (← Read.u16 "verification type").toNat
  | tag => Read.fail (.typeTag tag)

end FrameType

inductive FrameKind where
  | same
  | sameLocals1 (stack : FrameType)
  | chop (count : UInt8)
  | append (locals : List FrameType)
  | full (locals stack : List FrameType)
  deriving DecidableEq, Repr

structure Frame where
  offset : Nat
  kind : FrameKind
  deriving DecidableEq, Repr

namespace FrameKind

def types : FrameKind → List FrameType
  | same | chop _ => []
  | sameLocals1 t => [t]
  | append locals => locals
  | full locals stack => locals ++ stack

def mapOffset {ε : Type} (f : Nat → Except ε Nat) : FrameKind → Except ε FrameKind
  | same => .ok same
  | chop k => .ok (chop k)
  | sameLocals1 t => (t.mapOffset f).map sameLocals1
  | append locals => (locals.mapM (FrameType.mapOffset f)).map append
  | full locals stack => do
    let locals ← locals.mapM (FrameType.mapOffset f)
    let stack ← stack.mapM (FrameType.mapOffset f)
    return full locals stack

def declaredStack (k : FrameKind) : List StackType :=
  let types := match k with
    | sameLocals1 t => [t]
    | full _ stack => stack
    | _ => []
  types.flatMap fun t => List.replicate t.width t.stackType

def encodeTypes (types : List FrameType) : Bytes :=
  count16 types.length ++ types.flatMap FrameType.encode

/-- A frame that many bytes, less one, after the frame before it. -/
def encode (delta : Nat) : FrameKind → Bytes
  | same => if delta ≤ 63 then [UInt8.ofNat delta] else 251 :: count16 delta
  | sameLocals1 t =>
    if delta ≤ 63 then UInt8.ofNat (64 + delta) :: t.encode
    else 247 :: (count16 delta ++ t.encode)
  | chop k => (251 - k) :: count16 delta
  | append locals =>
    (251 + UInt8.ofNat locals.length) :: (count16 delta ++ locals.flatMap FrameType.encode)
  | full locals stack => 255 :: (count16 delta ++ (encodeTypes locals ++ encodeTypes stack))

def read : ReadOr FrameFault (Nat × FrameKind) := do
  let type ← Read.u8 "stack map frame"
  let delta : ReadOr FrameFault Nat := UInt16.toNat <$> Read.u16 "stack map frame"
  if type < 64 then
    return (type.toNat, same)
  else if type < 128 then
    return (type.toNat - 64, sameLocals1 (← FrameType.read))
  else if type < 247 then
    Read.fail (.frameType type)
  else if type = 247 then
    return (← delta, sameLocals1 (← FrameType.read))
  else if type < 251 then
    return (← delta, chop (251 - type))
  else if type = 251 then
    return (← delta, same)
  else if type < 255 then
    return (← delta, append (← Read.times (type.toNat - 251) FrameType.read))
  else
    let delta ← delta
    let locals ← Read.counted "stack map frame" FrameType.read
    let stack ← Read.counted "stack map frame" FrameType.read
    return (delta, full locals stack)

end FrameKind

namespace Frame

def mapOffsets {ε : Type} (f g : Nat → Except ε Nat) (frame : Frame) : Except ε Frame := do
  let offset ← f frame.offset
  let kind ← frame.kind.mapOffset g
  return ⟨offset, kind⟩

/-- The first frame stands at its distance, the others one byte further. -/
def offsetAfter (previous : Option Nat) (delta : Nat) : Nat :=
  match previous with
  | none => delta
  | some p => p + delta + 1

def deltaAfter (previous : Option Nat) (offset : Nat) : Except FrameFault Nat :=
  match previous with
  | none => .ok offset
  | some p => if p < offset then .ok (offset - p - 1) else .error .outOfOrder

def place : Option Nat → List (Nat × FrameKind) → List Frame → List Frame
  | _, [], done => done.reverse
  | previous, (delta, kind) :: rest, done =>
    let offset := offsetAfter previous delta
    place (some offset) rest (⟨offset, kind⟩ :: done)

def readAll : ReadOr FrameFault (List Frame) := do
  let frames ← Read.counted "stack map frame" FrameKind.read
  let left ← Read.remaining
  if left = 0 then return place none frames [] else Read.fail .trailingBytes

def parse (bs : Bytes) : Except FrameFault (List Frame) := Read.runAt 0 bs readAll

def encodeFrom : Option Nat → List Frame → List Bytes → Except FrameFault Bytes
  | _, [], done => .ok done.reverse.flatten
  | previous, frame :: rest, done =>
    match deltaAfter previous frame.offset with
    | .error fault => .error fault
    | .ok delta =>
      if 65535 < delta then .error .deltaOverflow
      else encodeFrom (some frame.offset) rest (frame.kind.encode delta :: done)

def encode (frames : List Frame) : Except FrameFault Bytes :=
  (encodeFrom none frames []).map (count16 frames.length ++ ·)

end Frame

end ClassWeaver
