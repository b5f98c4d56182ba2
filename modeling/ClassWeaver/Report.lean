import ClassWeaver.Failure

namespace ClassWeaver

structure RuleMatch where
  className : String
  rule : String
  deriving DecidableEq, Repr

def RuleMatch.toJson (m : RuleMatch) : Json :=
  .record [("class", .string m.className), ("rule", .string m.rule)]

inductive ArtifactState where
  | skipped
  | rewritten
  | failed
  deriving DecidableEq, Repr

def ArtifactState.word : ArtifactState → String
  | skipped => "skipped"
  | rewritten => "rewritten"
  | failed => "failed"

structure ArtifactReport where
  artifact : String
  className : Option String
  state : ArtifactState
  rules : List String
  fault : Option ArtifactFault
  passthrough : Bool
  deriving DecidableEq, Repr

namespace ArtifactReport

def matchesOf (r : ArtifactReport) : List RuleMatch :=
  if r.state = .rewritten then r.rules.map (⟨r.className.getD "", ·⟩) else []

def toJson (r : ArtifactReport) : Json :=
  let rules := if r.rules.isEmpty then [] else [("rules", Json.strings r.rules)]
  let fault := match r.fault with
    | none => []
    | some fault =>
      [("errorKind", .string fault.kind.word), ("message", .string fault.message)]
  .record ([("artifact", .string r.artifact), ("state", .string r.state.word)] ++
    (rules ++ (fault ++ [("passthrough", .bool r.passthrough)])))

end ArtifactReport

structure RunReport where
  incremental : Bool
  units : Nat
  reusedUnits : Nat
  removedOutputs : Nat
  classes : List ArtifactReport
  resourcesCopied : Nat
  deriving DecidableEq, Repr

namespace RunReport

def count (r : RunReport) (state : ArtifactState) : Nat := r.classes.countP (·.state = state)

/-- Skipped classes are only counted. -/
def toJson (r : RunReport) : Json :=
  .record
    [("incremental", .bool r.incremental),
     ("units", Json.nat r.units),
     ("reusedUnits", Json.nat r.reusedUnits),
     ("removedOutputs", Json.nat r.removedOutputs),
     ("classesRewritten", Json.nat (r.count .rewritten)),
     ("classesSkipped", Json.nat (r.count .skipped)),
     ("classesFailed", Json.nat (r.count .failed)),
     ("resourcesCopied", Json.nat r.resourcesCopied),
     ("matches", .list ((r.classes.flatMap ArtifactReport.matchesOf).map RuleMatch.toJson)),
     ("artifacts", .list ((r.classes.filter (·.state ≠ .skipped)).map ArtifactReport.toJson))]

end RunReport

inductive RunFault where
  | conflict (failures : List Failure)
  | failed (failures : List Failure)
  | cancelled
  | setup (causes : List String)
  deriving DecidableEq, Repr

namespace RunFault

def failures : RunFault → List Failure
  | conflict fs | failed fs => fs
  | _ => []

def causes : RunFault → List String
  | conflict fs => [s!"conflicting rules in {fs.length} artifact(s):" ++ Failure.lines fs]
  | failed fs => [s!"{fs.length} artifact(s) failed:" ++ Failure.lines fs]
  | cancelled => ["transform cancelled"]
  | setup causes => causes

end RunFault

end ClassWeaver
