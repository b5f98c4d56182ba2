import ClassWeaver.Run.Commit
import ClassWeaver.Run.Tally
import ClassWeaver.State.File
import ClassWeaver.Unit.Process
import ClassWeaver.Unit.Scan

/-!
A run takes all units through the stage. Their outputs are staged first; only when every unit is done
and none has failed are they committed, and the snapshot with them.
-/

namespace ClassWeaver

structure Invocation where
  inputs : List Input
  layout : Layout
  incremental : Bool
  statePath : String
  cancelled : Bool
  deriving DecidableEq, Repr

abbrev RunM (m : Type → Type) := ExceptT RunFault (ExceptT Crash m)

namespace Settings

variable {m : Type → Type} [Monad m] (files : FileSystem m) (s : Settings)

/-- A store that cannot be opened is as good as none. -/
def openStore (i : Invocation) : m (Option StateStore) := do
  if s.incrementalEnabled then
    return (← StateStore.openAt files i.statePath).toOption
  else return none

def prior? (i : Invocation) (store : Option StateStore) : Option Snapshot :=
  match store with
  | none => none
  | some store =>
    if i.incremental then
      store.load.toOption.filter fun prior => prior.fingerprint == some s.fingerprint
    else none

def forgetState (i : Invocation) : m Unit := do
  let _ ← (cleanState files i.statePath).run

def saveState (i : Invocation) (store : Option StateStore) (next : Snapshot) : m Unit := do
  match store with
  | none => forgetState files i
  | some _ => if !(← StateStore.commit files i.statePath next) then forgetState files i

def resultsOf (run : RunContext) : List InputUnit → ExceptT Crash m (List UnitResult)
  | [] => return []
  | u :: rest => do
    let result ← run.resultOf files u
    return result :: (← resultsOf run rest)

def finish (i : Invocation) (store : Option StateStore) (prior : Option Snapshot) (units : Nat)
    (t : Tally) : ExceptT RunFault m RunReport := do
  match t.fault? with
  | some fault =>
    (i.layout.discardStaging files : m Unit)
    throw fault
  | none =>
    match ← (i.layout.commit files prior t.next t.staged).run with
    | .error fault =>
      (i.layout.discardStaging files : m Unit)
      (forgetState files i : m Unit)
      throw (.setup fault.causes)
    | .ok removed =>
      (saveState files i store t.next : m Unit)
      return t.report prior.isSome units removed

def collect (i : Invocation) : ExceptT RunFault m (List InputUnit) :=
  ExceptT.mk do
    match ← Input.allUnits files i.inputs with
    | .error fault => return .error (.setup [fault.message])
    | .ok units => return .ok (InputUnit.distinct units)

def prepareStaging (i : Invocation) : ExceptT RunFault m Unit := do
  (i.layout.discardStaging files : m Unit)
  match ← (files.makeDirectories i.layout.stagingDirectory).run with
  | .error fault =>
    throw (.setup
      [s!"Failed to create staging dir: {i.layout.stagingDirectory}", fault.message])
  | .ok () => return ()

def lowered {α : Type} (action : ExceptT RunFault m α) : RunM m α :=
  ExceptT.mk (ExceptT.lift action.run)

def run (i : Invocation) : RunM m RunReport := do
  if i.cancelled then throw .cancelled
  let units ← lowered (collect files i)
  lowered (prepareStaging files i)
  let store ← (s.openStore files i : m (Option StateStore))
  let prior := s.prior? i store
  let context : RunContext := ⟨s, i.layout, prior⟩
  let results ← ExceptT.lift (resultsOf files context units)
  lowered (finish files i store prior units.length (.of s.fingerprint results))

end Settings

end ClassWeaver
