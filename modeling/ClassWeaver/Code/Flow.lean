import ClassWeaver.Code.Body
import ClassWeaver.Code.Effect

/-!
Checking a method body by following every path through it. Each instruction that is reached gets the
operand stack of the first path to it, and every other path must bring the same.
-/

namespace ClassWeaver

structure Chart where
  pool : Pool
  instructions : Array (Option Instruction)
  declared : Array (Option (List StackType))
  deriving DecidableEq, Repr

structure Flow where
  states : Array (Option Stack)
  work : List Nat
  deepest : Nat
  deriving DecidableEq, Repr

@[noinline] def note {α : Type} (slots : Array (Option α)) (pos : Nat) (x : α) :
    Array (Option α) :=
  slots.setIfInBounds pos (some x)

namespace Flow

def clash? (agree : StackType → StackType → Bool) :
    Nat → List StackType → List StackType → Option (Nat × StackType × StackType)
  | slot, a :: as, b :: bs =>
    if agree a b then clash? agree (slot + 1) as bs else some (slot, a, b)
  | _, _, _ => none

def admits (declared computed : StackType) : Bool := declared == .top || declared == computed

def checkFrame (pos : Nat) (declared : List StackType) (s : Stack) : Except CodeFault Unit :=
  if declared.length ≠ s.length then
    .error (.frameMismatch pos (UInt16.ofNat declared.length) (UInt16.ofNat s.length))
  else
    match clash? admits 0 declared s.reverse with
    | some (slot, declared, computed) =>
      .error (.frameTypeMismatch pos slot declared computed)
    | none => .ok ()

def checkMerge (pos : Nat) (known s : Stack) : Except CodeFault Unit :=
  if known.length ≠ s.length then
    .error (.inconsistentStack pos (UInt16.ofNat known.length) (UInt16.ofNat s.length))
  else
    match clash? (· == ·) 0 known.reverse s.reverse with
    | some (slot, expected, found) => .error (.inconsistentTypes pos slot expected found)
    | none => .ok ()

def instruction? (c : Chart) (pos : Nat) : Option Instruction := (c.instructions[pos]?).join

def declared? (c : Chart) (pos : Nat) : Option (List StackType) := (c.declared[pos]?).join

def state? (flow : Flow) (pos : Nat) : Option Stack := (flow.states[pos]?).join

def enter (c : Chart) (source target : Nat) (s : Stack) (flow : Flow) : Except CodeFault Flow :=
  match instruction? c target with
  | none => .error (.badBranchTarget source target)
  | some _ => do
    match declared? c target with
    | some declared => checkFrame target declared s
    | none => pure ()
    match flow.state? target with
    | some known =>
      checkMerge target known s
      return flow
    | none =>
      return { flow with states := note flow.states target s, work := target :: flow.work }

def enterBranch (c : Chart) (source : Nat) (target : Int) (s : Stack) (flow : Flow) :
    Except CodeFault Flow :=
  if target < 0 then .error (.badBranchTarget source target)
  else flow.enter c source target.toNat s

def enterAll (c : Chart) (source : Nat) (s : Stack) : List Int → Flow → Except CodeFault Flow
  | [], flow => .ok flow
  | target :: rest, flow =>
    match flow.enterBranch c source target s with
    | .error fault => .error fault
    | .ok flow => enterAll c source s rest flow

def enterHandlers (c : Chart) : List Handler → Flow → Except CodeFault Flow
  | [], flow => .ok flow
  | h :: rest, flow =>
    match flow.enter c h.target.toNat h.target.toNat [.reference] with
    | .error fault => .error fault
    | .ok flow => enterHandlers c rest { flow with deepest := max flow.deepest 1 }

def maxDepth : Nat := 65535

/-- Follows from an instruction that was reached with the stack `before`. The return address that a
subroutine call leaves is gone once the subroutine comes back. -/
def follow (c : Chart) (i : Instruction) (before : Stack) (flow : Flow) :
    Except CodeFault Flow := do
  let after ← i.apply c.pool before
  if maxDepth < after.length then
    .error (.stackTooDeep after.length)
  else
    let flow := { flow with deepest := max flow.deepest after.length }
    let flow ← flow.enterAll c i.offset after i.targets
    if i.endsFlow then
      return flow
    else if c.instructions.size ≤ i.stop then
      .error .fallsOffEnd
    else
      let next := if Opcode.isSubroutineCall i.opcode then before else after
      flow.enter c i.offset i.stop next

/-- Follows all that is left to follow. An instruction is taken up at most once, so as many turns as
there are instructions are enough. -/
def run (c : Chart) : Nat → Flow → Except CodeFault Flow
  | 0, flow => .ok flow
  | turns + 1, flow =>
    match flow.work with
    | [] => .ok flow
    | pos :: work =>
      match instruction? c pos, flow.state? pos with
      | some i, some before =>
        match follow c i before { flow with work } with
        | .error fault => .error fault
        | .ok flow => run c turns flow
      | _, _ => run c turns { flow with work }

end Flow

namespace Chart

def ofInstructions (pool : Pool) (is : List Instruction) : Chart :=
  let slots := is.flatMap fun i => some i :: List.replicate (i.size - 1) none
  ⟨pool, slots.toArray, Array.replicate slots.length none⟩

/-- Notes what the frames declare; of two at one offset the later counts. -/
def declare (c : Chart) : List Frame → Except CodeFault Chart
  | [] => .ok c
  | frame :: rest =>
    match Flow.instruction? c frame.offset with
    | none => .error (.malformedStackMap (.notAnInstruction frame.offset))
    | some _ =>
      declare { c with
        declared := note c.declared frame.offset frame.kind.declaredStack } rest

end Chart

def Body.check (pool : Pool) (body : Body) : Except CodeFault Nat := do
  let bytes := body.code.bytes
  if Code.maxLength < bytes.length then
    .error (.codeTooLarge bytes.length)
  else if bytes.isEmpty then
    .error .fallsOffEnd
  else
    let is ← Instruction.decode bytes
    let c ← (Chart.ofInstructions pool is).declare body.frames
    let start : Flow := ⟨Array.replicate bytes.length none, [], 0⟩
    let flow ← start.enter c 0 0 []
    let flow ← flow.enterHandlers c body.code.handlers
    let flow ← Flow.run c is.length flow
    return flow.deepest

end ClassWeaver
