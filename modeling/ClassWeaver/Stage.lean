import ClassWeaver.Settings.Basic

namespace ClassWeaver

inductive Scope where
  | project
  | subProjects
  | externalLibraries
  deriving DecidableEq, Repr

namespace Scope

def all : List Scope := [project, subProjects, externalLibraries]

def dirName : Scope → String
  | project => "project"
  | subProjects => "sub-projects"
  | externalLibraries => "external-libraries"

def word : Scope → String
  | project => "PROJECT"
  | subProjects => "SUB_PROJECTS"
  | externalLibraries => "EXTERNAL_LIBRARIES"

end Scope

structure StageDescriptor where
  name : String
  inputKinds : List String
  scopes : List Scope
  incremental : Bool
  outputKind : String
  deriving DecidableEq, Repr

def StageDescriptor.toJson (d : StageDescriptor) : Json :=
  .record
    [("name", .string d.name), ("inputKinds", Json.strings d.inputKinds),
     ("scopes", Json.strings (d.scopes.map Scope.word)), ("incremental", .bool d.incremental),
     ("outputKind", .string d.outputKind)]

def Settings.stage (s : Settings) : StageDescriptor :=
  ⟨"amsTransform", ["CLASSES"], Scope.all, s.incrementalEnabled, "CLASSES"⟩

inductive HostFault where
  | invalidSettings (fault : SettingsFault)
  | refused (reason : String)
  deriving DecidableEq, Repr

def HostFault.causes : HostFault → List String
  | invalidSettings fault => "invalid AmsConfig" :: fault.causes
  | refused reason => [reason]

structure Host (m : Type → Type) where
  keepSettings : String → Settings → m Unit
  addStage : StageDescriptor → m Unit

def Host.install {m : Type → Type} [Monad m] [MonadExceptOf HostFault m] (host : Host m)
    (e : SettingsEntry) : m Settings := do
  match Settings.ofEntry e with
  | .error fault => throw (.invalidSettings fault)
  | .ok settings =>
    host.keepSettings "AmsConfig" settings
    host.addStage settings.stage
    return settings

end ClassWeaver
