import ClassWeaver.Report
import ClassWeaver.State.Record
import ClassWeaver.Unit.Layout
import ClassWeaver.Weaving

namespace ClassWeaver

namespace ArtifactReport

def ofFault (title : String) (fault : ArtifactFault) (passthrough : Bool) : ArtifactReport :=
  ⟨title, none, .failed, [], some fault, passthrough⟩

def isForwardable (r : ArtifactReport) : Bool := r.state != .failed || r.passthrough

end ArtifactReport

def Weaving.report (title : String) (strict : Bool) : Weaving → Option Bytes × ArtifactReport
  | .skipped _ => (none, ⟨title, none, .skipped, [], none, false⟩)
  | .rewritten name bytes rules => (some bytes, ⟨title, some name, .rewritten, rules, none, false⟩)
  | .failed fault => (none, .ofFault title fault (!strict && fault.allowsPassthrough))

def Settings.handle (s : Settings) (title : String) (bytes : Bytes) :
    Except Crash (Option Bytes × ArtifactReport) :=
  (s.weave bytes).map (·.report title s.strictMode)

structure UnitResult where
  record : Option UnitRecord
  staged : Option String
  reused : Bool
  classes : List ArtifactReport
  resources : Nat
  deriving DecidableEq, Repr

namespace UnitResult

def outcome (classes : List ArtifactReport) : UnitOutcome :=
  if classes.any (·.state == .failed) then .failed
  else if classes.any (·.state == .rewritten) then .rewritten
  else .unchanged

def distinctRules (classes : List ArtifactReport) : List String :=
  (classes.flatMap (·.rules)).foldl (fun found rule =>
    if found.contains rule then found else found ++ [rule]) []

def finished (u : InputUnit) (contentHash : String) (lastModified : Nat)
    (classes : List ArtifactReport) (resources : Nat) (staged : Bool) : UnitResult :=
  let location := Layout.unitLocation u
  { record := some
      { key := u.key
        contentHash
        outcome := outcome classes
        output := location
        lastModified
        rules := distinctRules classes }
    staged := if staged then some location else none
    reused := false
    classes
    resources }

def reuse (r : UnitRecord) (lastModified : Nat) : UnitResult :=
  ⟨some { r with lastModified }, none, true, [], 0⟩

def ofFault (u : InputUnit) (fault : IoFault) : UnitResult :=
  ⟨none, none, false, [.ofFault u.title (.io fault) false], 0⟩

end UnitResult

end ClassWeaver
