import ClassWeaver.ClassFile.Summary
import ClassWeaver.CommandLine.Parser
import ClassWeaver.Run.Basic

namespace ClassWeaver

inductive Ending where
  | done (output : String)
  | failed (causes : List String)
  | crashed
  deriving DecidableEq, Repr

namespace Ending

def exitCode : Ending → Nat
  | done _ => 0
  | failed _ => 1
  | crashed => 101

def causeLines (causes : List String) : String :=
  match causes with
  | [] => ""
  | [cause] => "\n\nCaused by:\n    " ++ cause
  | causes =>
    "\n\nCaused by:" ++ String.join (causes.zipIdx.map fun (cause, i) => s!"\n    {i}: {cause}")

def errorText : Ending → String
  | done _ => ""
  | failed [] => "Error"
  | failed (cause :: causes) => "Error: " ++ cause ++ causeLines causes
  | crashed => "the name of a class is absolute"

end Ending

abbrev ProgramM (m : Type → Type) := ExceptT (List String) (ExceptT Crash m)

namespace Program

variable {m : Type → Type} [Monad m] (files : FileSystem m)

def readOr (causes : String) (path : String) : ProgramM m Bytes :=
  ExceptT.mk (ExceptT.lift do
    return (← (files.read path).run).mapError fun fault => [causes ++ path, fault.message])

def loadSettings (path : String) : ProgramM m Settings := do
  let failure := "Failed to read settings file: "
  let bytes ← readOr files failure path
  match Utf8.decode? bytes with
  | none => throw [failure ++ path, "stream did not contain valid UTF-8"]
  | some text =>
    match SettingsEntry.parse text with
    | .error _ => throw ["Invalid settings file: " ++ path, "not acceptable"]
    | .ok entry =>
      match Settings.ofEntry entry with
      | .error fault => throw fault.causes
      | .ok s => return s

def inputsOf (a : RunArguments) : List Input :=
  a.project.map (.ofPath .project) ++ (a.subProjects.map (.ofPath .subProjects) ++
    a.external.map (.ofPath .externalLibraries))

def invocationOf (a : RunArguments) : Invocation where
  inputs := inputsOf a
  layout := ⟨a.output⟩
  incremental := !a.full
  statePath := a.state.getD (defaultStatePath a.output)
  cancelled := false

def follow : Command → ProgramM m String
  | .run a => do
    let s ← loadSettings files a.config
    let report ← ExceptT.mk do return (← (s.run files (invocationOf a)).run).mapError (·.causes)
    return report.toJson.pretty ++ "\n"
  | .describe config => do
    let s ← loadSettings files config
    return s.stage.toJson.pretty ++ "\n"
  | .inspect path => do
    let bytes ← readOr files "Failed to read class file: " path
    match ClassFile.parse bytes with
    | .error fault => throw ["Failed to parse class file: " ++ path, fault.message]
    | .ok c => return c.summary.pretty ++ "\n"
  | .clean output state => do
    let path := state.getD (defaultStatePath output)
    ExceptT.mk (ExceptT.lift do
      return (← (cleanState files path).run).mapError CleaningFault.causes)
    return ""

def run (command : Command) : m Ending := do
  match ← (follow files command).run.run with
  | .error _ => return .crashed
  | .ok (.error causes) => return .failed causes
  | .ok (.ok output) => return .done output

end Program

end ClassWeaver
