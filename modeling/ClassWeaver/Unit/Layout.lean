import ClassWeaver.Unit.Basic

namespace ClassWeaver

structure Layout where
  root : String
  deriving DecidableEq, Repr

namespace Layout

def stagingDirectory (l : Layout) : String := Path.append l.root ".ams-staging"

def scopeDirectory (l : Layout) (scope : Scope) : String := Path.append l.root scope.dirName

def pathHash (path : String) : String := contentHash (Utf8.encode path)

def shortHash (path : String) : String := String.ofList ((pathHash path).toList.take 8)

def directoryLocation (scope : Scope) (root : String) : String :=
  let name := (Path.fileName? root).getD "classes"
  scope.dirName ++ ("/dirs/" ++ (name ++ ("-" ++ shortHash root)))

def archiveLocation (scope : Scope) (root : String) : String :=
  let stem := (Path.fileStem? root).getD "input"
  scope.dirName ++ ("/jars/" ++ (stem ++ ("-" ++ (shortHash root ++ ".jar"))))

def inputLocation (i : Input) : String :=
  if i.isArchive then archiveLocation i.scope i.path else directoryLocation i.scope i.path

def unitLocation (u : InputUnit) : String :=
  match u.kind with
  | .archive => archiveLocation u.scope u.root
  | .file relative => directoryLocation u.scope u.root ++ ("/" ++ relative)

end Layout

def defaultStatePath (output : String) : String :=
  let name := (Path.fileName? output).getD "ams-output" ++ ".state.lmdb"
  match Path.parent? output with
  | some above => Path.append above name
  | none => name

def lockPath (state : String) : String := state ++ "-lock"

end ClassWeaver
