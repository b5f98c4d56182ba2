import ClassWeaver.ClassFile.Parser
import ClassWeaver.Failure
import ClassWeaver.Settings.Basic

namespace ClassWeaver

inductive SkipReason where
  | disabled
  | filtered
  | noMatchingRule
  | nothingToApply
  deriving DecidableEq, Repr

inductive Weaving where
  | skipped (reason : SkipReason)
  | rewritten (className : String) (bytes : Bytes) (rules : List String)
  | failed (fault : ArtifactFault)
  deriving DecidableEq, Repr

/-- What ends a run without an answer: a name the filter cannot be asked for, or a number that does
not fit its word. -/
inductive Crash where
  | rooted (name : RootedName)
  | overflow
  deriving DecidableEq, Repr

namespace Settings

def weaveClass (s : Settings) (c : ClassFile) : Except Crash Weaving :=
  match s.ruleset.matching c.name c.annotations with
  | [] => .ok (.skipped .noMatchingRule)
  | ids =>
    match (Plan.of c).applyAll s.ruleset ids with
    | .error conflict => .ok (.failed (.conflict conflict))
    | .ok plan =>
      if plan.hasEdits then
        match plan.carryOut with
        | .error (.fault fault) => .ok (.failed (.rejected fault))
        | .error .overflow => .error .overflow
        | .ok rewritten => .ok (.rewritten c.dottedName rewritten.encode plan.newlyApplied)
      else .ok (.skipped .nothingToApply)

def weave (s : Settings) (bytes : Bytes) : Except Crash Weaving :=
  if !s.enabled then .ok (.skipped .disabled)
  else
    match ClassFile.parse bytes with
    | .error fault => .ok (.failed (.malformed fault))
    | .ok c => do
      let accepted ← (s.filter.accepts c.name).mapError .rooted
      if accepted then s.weaveClass c else return .skipped .filtered

end Settings

end ClassWeaver
