import ClassWeaver.Archive.File
import ClassWeaver.State.Snapshot
import ClassWeaver.Unit.Result

namespace ClassWeaver

structure RunContext where
  settings : Settings
  layout : Layout
  prior : Option Snapshot
  deriving Repr

abbrev UnitM (m : Type → Type) := ExceptT IoFault (ExceptT Crash m)

namespace RunContext

variable {m : Type → Type} [Monad m] (files : FileSystem m) (run : RunContext)

def lowered {α : Type} (action : ExceptT IoFault m α) : UnitM m α :=
  ExceptT.mk (ExceptT.lift action.run)

def answered {α : Type} (answer : Except Crash α) : UnitM m α :=
  ExceptT.lift (ExceptT.mk (pure answer))

def readInput (u : InputUnit) : ExceptT IoFault m Bytes :=
  ExceptT.mk (retryRead u.title (FileSystem.worded (files.read u.path)))

def stagedPath (u : InputUnit) : String :=
  Path.append run.layout.stagingDirectory (Layout.unitLocation u)

/-- The record of the last run, if its output still stands for the same contents. -/
def reusable? (u : InputUnit) (contentHash : String) : m (Option UnitRecord) := do
  match run.prior.bind (·.reusable? u.key contentHash) with
  | none => return none
  | some r =>
    if r.output != Layout.unitLocation u then return none
    else if ← files.exists (Path.append run.layout.root r.output) then return some r
    else return none

def decideEntry (u : InputUnit) (name : String) (bytes : Bytes) :
    Decision (Except Crash (Option ArtifactReport)) :=
  if (ClassName.ofFile? name).isNone then .keep (.ok none)
  else
    match run.settings.handle (u.classTitle name) bytes with
    | .error e => .keep (.error e)
    | .ok (replacement, report) => ⟨replacement, .ok (some report)⟩

def processArchive (u : InputUnit) : UnitM m (List ArtifactReport × Nat) := do
  let details ← lowered
    (files.transformArchive u.path (run.stagedPath u) run.settings.jarStreamThreshold
      (run.decideEntry u))
  let reports ← answered (details.mapM (·.2))
  return (reports.filterMap id, reports.countP (·.isNone))

def outputOf (u : InputUnit) (relative : String) (bytes : Bytes) :
    Except Crash (Option Bytes × List ArtifactReport × Nat) :=
  if (ClassName.ofFile? relative).isNone then .ok (some bytes, [], 1)
  else
    (run.settings.handle (u.classTitle relative) bytes).map fun (replacement, report) =>
      (if report.isForwardable then some (replacement.getD bytes) else none, [report], 0)

def writeStaged (path : String) (bytes : Bytes) : ExceptT IoFault m Unit := do
  ExceptT.mk do
    return (← FileSystem.worded (files.makeParent path)).mapError fun reason =>
      ⟨.write, (Path.parent? path).getD "" ++ (": " ++ reason)⟩
  ExceptT.mk do
    return (← FileSystem.worded (files.write path bytes)).mapError fun reason =>
      ⟨.write, path ++ (": " ++ reason)⟩

def processUnit (u : InputUnit) : UnitM m UnitResult := do
  let lastModified ← files.modified u.path
  let bytes ← lowered (readInput files u)
  let hash := contentHash bytes
  match ← (run.reusable? files u hash : m (Option UnitRecord)) with
  | some r => return .reuse r lastModified
  | none =>
    match u.kind with
    | .archive =>
      let (classes, resources) ← run.processArchive files u
      return .finished u hash lastModified classes resources true
    | .file relative =>
      let (output, classes, resources) ← answered (run.outputOf u relative bytes)
      match output with
      | none => return .finished u hash lastModified classes resources false
      | some bytes =>
        lowered (writeStaged files (run.stagedPath u) bytes)
        return .finished u hash lastModified classes resources true

def resultOf (u : InputUnit) : ExceptT Crash m UnitResult := do
  match ← (run.processUnit files u).run with
  | .ok result => return result
  | .error fault => return .ofFault u fault

end RunContext

end ClassWeaver
