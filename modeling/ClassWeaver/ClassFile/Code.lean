import ClassWeaver.ClassFile.Attribute

namespace ClassWeaver

structure Handler where
  start : UInt16
  stop : UInt16
  target : UInt16
  catchType : UInt16
  deriving DecidableEq, Repr

namespace Handler

def encode (h : Handler) : Bytes :=
  be16 h.start ++ (be16 h.stop ++ (be16 h.target ++ be16 h.catchType))

def text (h : Handler) : String :=
  s!"ExceptionEntry \x7b start_pc: {h.start}, end_pc: {h.stop}, handler_pc: {h.target}, " ++
    s!"catch_type: {h.catchType} \x7d"

/-- The range holds an instruction and lies in the code, and so does the target. -/
def Fits (length : Nat) (h : Handler) : Prop :=
  h.start < h.stop ∧ h.stop.toNat ≤ length ∧ h.target.toNat < length

instance (length : Nat) (h : Handler) : Decidable (h.Fits length) :=
  inferInstanceAs (Decidable (_ ∧ _ ∧ _))

end Handler

structure Code where
  maxStack : UInt16
  maxLocals : UInt16
  bytes : Bytes
  handlers : List Handler
  attributes : List Attribute
  deriving DecidableEq, Repr

namespace Code

def maxLength : Nat := 65535

def headSize : Nat := 8

def encode (c : Code) : Bytes :=
  be16 c.maxStack ++ (be16 c.maxLocals ++ (count32 c.bytes.length ++ (c.bytes ++
    (count16 c.handlers.length ++ (c.handlers.flatMap Handler.encode ++
      Attribute.encodeAll c.attributes)))))

def attributesOffset (pos : Nat) (c : Code) : Nat :=
  pos + headSize + c.bytes.length + 2 + 8 * c.handlers.length

def readHandler (pool : Pool) (method : String) (length : Nat) : Read Handler := do
  let start ← Read.u16 "exception table"
  let stop ← Read.u16 "exception table"
  let target ← Read.u16 "exception table"
  let catchType ← Read.u16 "exception table"
  let handler : Handler := ⟨start, stop, target, catchType⟩
  if handler.Fits length then
    if catchType ≠ 0 then
      let _ ← Read.lift (pool.className catchType)
    return handler
  else
    Read.fail (.badCode method s!"exception range {handler.text}")

def read (pool : Pool) (method : String) : Read Code := do
  let maxStack ← Read.u16 "code attribute"
  let maxLocals ← Read.u16 "code attribute"
  let length := (← Read.u32 "code attribute").toNat
  if length = 0 ∨ maxLength < length then
    Read.fail (.badCode method s!"code length {length}")
  else
    let bytes ← Read.bytes length "code attribute"
    let handlers ← Read.counted "exception table" (readHandler pool method length)
    let attributes ← Attribute.readAll pool
    let left ← Read.remaining
    if left = 0 then
      return ⟨maxStack, maxLocals, bytes, handlers, attributes⟩
    else
      Read.fail (.badCode method s!"{left} unread bytes")

end Code

end ClassWeaver
