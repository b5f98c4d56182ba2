import ClassWeaver.State.Snapshot
import ClassWeaver.Unit.Result

namespace ClassWeaver

structure Tally where
  reusedUnits : Nat
  resources : Nat
  staged : List String
  next : Snapshot
  classes : List ArtifactReport
  deriving DecidableEq, Repr

namespace Tally

def of (fingerprint : String) (results : List UnitResult) : Tally where
  reusedUnits := results.countP (·.reused)
  resources := total (·.resources) results
  staged := results.filterMap (·.staged)
  next := (results.filterMap (·.record)).foldl Snapshot.insert (.ofFingerprint fingerprint)
  classes := results.flatMap (·.classes)

def faultOf (r : ArtifactReport) : Option ArtifactFault :=
  if r.state = .failed then r.fault else none

def conflictOf (r : ArtifactReport) : Option Failure :=
  match faultOf r with
  | some (.conflict c) => some (.of r.artifact (.conflict c))
  | _ => none

def fatalOf (r : ArtifactReport) : Option Failure :=
  match faultOf r with
  | some (.conflict _) | none => none
  | some fault => if r.passthrough then none else some (.of r.artifact fault)

/-- Why the run fails, if it does. Conflicts between rules are told alone. -/
def fault? (t : Tally) : Option RunFault :=
  match t.classes.filterMap conflictOf with
  | c :: cs => some (.conflict (c :: cs))
  | [] =>
    match t.classes.filterMap fatalOf with
    | f :: fs => some (.failed (f :: fs))
    | [] => none

def report (t : Tally) (incremental : Bool) (units removedOutputs : Nat) : RunReport where
  incremental
  units
  reusedUnits := t.reusedUnits
  removedOutputs
  classes := t.classes
  resourcesCopied := t.resources

end Tally

end ClassWeaver
