import ClassWeaver.Files.System
import ClassWeaver.State.Snapshot
import ClassWeaver.Unit.Layout

namespace ClassWeaver

inductive CommitFault where
  | clear (path : String) (fault : FileFault)
  | removeStale (path : String) (fault : FileFault)
  | makeDirectory (path : String) (fault : FileFault)
  | replace (path : String) (fault : FileFault)
  | move (source target : String) (fault : FileFault)
  deriving DecidableEq, Repr

def CommitFault.causes : CommitFault → List String
  | clear path fault => [s!"Failed to clear output dir: {path}", fault.message]
  | removeStale path fault => [s!"Failed to remove stale output: {path}", fault.message]
  | makeDirectory path fault => [s!"Failed to create output dir: {path}", fault.message]
  | replace path fault => [s!"Failed to replace output: {path}", fault.message]
  | move source target fault => [s!"Failed to move {source} to {target}", fault.message]

namespace Layout

variable {m : Type → Type} [Monad m] (files : FileSystem m) (layout : Layout)

def discardStaging : m Unit := do
  if ← files.exists layout.stagingDirectory then
    let _ ← (files.removeDirectory layout.stagingDirectory).run

def step {α : Type} (action : ExceptT FileFault m α) (fault : FileFault → CommitFault) :
    ExceptT CommitFault m α :=
  ExceptT.mk do return (← action.run).mapError fault

def clearScopes : List Scope → ExceptT CommitFault m Unit
  | [] => return ()
  | scope :: rest => do
    let path := layout.scopeDirectory scope
    if ← files.exists path then
      step (files.removeDirectory path) (.clear path)
    clearScopes rest

def removeStale (next : Snapshot) : List UnitRecord → ExceptT CommitFault m Nat
  | [] => return 0
  | r :: rest => do
    let path := Path.append layout.root r.output
    if (next.get? r.key).isNone && (← files.isFile path) then
      step (files.removeFile path) (.removeStale path)
      return (← removeStale next rest) + 1
    else
      removeStale next rest

def moveStaged (location : String) : ExceptT CommitFault m Unit := do
  let source := Path.append layout.stagingDirectory location
  let target := Path.append layout.root location
  match Path.parent? target with
  | none => pure ()
  | some above => step (files.makeDirectories above) (.makeDirectory above)
  if ← files.exists target then
    step (files.removeFile target) (.replace target)
  step (files.move source target) (.move source target)

def moveAll : List String → ExceptT CommitFault m Unit
  | [] => return ()
  | location :: rest => do
    layout.moveStaged files location
    moveAll rest

/-- Without a snapshot to go by, all old outputs are removed. Counts the outputs of vanished units. -/
def commit (prior : Option Snapshot) (next : Snapshot) (staged : List String) :
    ExceptT CommitFault m Nat := do
  let removed ←
    match prior with
    | none =>
      layout.clearScopes files Scope.all
      pure 0
    | some prior => layout.removeStale files next prior.records
  layout.moveAll files staged
  ExceptT.lift (layout.discardStaging files)
  return removed

end Layout

end ClassWeaver
