import ClassWeaver.Instrumentation
import ClassWeaver.Text.Json.Printer

namespace ClassWeaver

inductive Access where
  | read | write
  deriving DecidableEq, Repr

structure IoFault where
  access : Access
  reason : String
  deriving DecidableEq, Repr

def IoFault.message (f : IoFault) : String :=
  match f.access with
  | .read => s!"read failed: {f.reason}"
  | .write => s!"write failed: {f.reason}"

inductive FailureKind where
  | malformedClass
  | conflictingRule
  | verification
  | io
  deriving DecidableEq, Repr

namespace FailureKind

def word : FailureKind → String
  | malformedClass => "MalformedClass"
  | conflictingRule => "ConflictingRule"
  | verification => "Verification"
  | io => "Io"

def title : FailureKind → String
  | malformedClass => "MalformedClassError"
  | conflictingRule => "ConflictingRuleError"
  | verification => "VerificationError"
  | io => "IOFailure"

end FailureKind

inductive ArtifactFault where
  | malformed (fault : ClassFault)
  | conflict (conflict : RuleConflict)
  | rejected (fault : InstrumentationFault)
  | io (fault : IoFault)
  deriving DecidableEq, Repr

namespace ArtifactFault

def kind : ArtifactFault → FailureKind
  | malformed _ => .malformedClass
  | conflict _ => .conflictingRule
  | rejected _ => .verification
  | io _ => .io

def message : ArtifactFault → String
  | malformed fault => fault.message
  | conflict c => c.message
  | rejected fault => fault.message
  | io fault => fault.message

/-- Whether the class may go through as it is where settings are not strict. -/
def allowsPassthrough : ArtifactFault → Bool
  | malformed _ | rejected _ => true
  | conflict _ | io _ => false

end ArtifactFault

structure Failure where
  artifact : String
  kind : FailureKind
  message : String
  deriving DecidableEq, Repr

namespace Failure

def of (artifact : String) (fault : ArtifactFault) : Failure :=
  ⟨artifact, fault.kind, fault.message⟩

def text (f : Failure) : String := s!"{f.artifact}: {f.kind.title}: {f.message}"

def toJson (f : Failure) : Json :=
  .record [("artifact", .string f.artifact), ("kind", .string f.kind.word),
    ("message", .string f.message)]

def lines (fs : List Failure) : String :=
  String.join (fs.map fun f => "\n  " ++ f.text)

end Failure

end ClassWeaver
