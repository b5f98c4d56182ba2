import ClassWeaver.Path
import ClassWeaver.Stage

namespace ClassWeaver

structure Input where
  scope : Scope
  isArchive : Bool
  path : String
  deriving DecidableEq, Repr

def isArchivePath (path : String) : Bool := Path.extension? path == some "jar"

def Input.ofPath (scope : Scope) (path : String) : Input := ⟨scope, isArchivePath path, path⟩

inductive UnitKind where
  | archive
  | file (relative : String)
  deriving DecidableEq, Repr

structure InputUnit where
  scope : Scope
  root : String
  kind : UnitKind
  deriving DecidableEq, Repr

namespace InputUnit

/-- What a unit is known by from one run to the next. -/
def key (u : InputUnit) : String :=
  match u.kind with
  | .archive => u.scope.dirName ++ (":jar:" ++ u.root)
  | .file relative => u.scope.dirName ++ (":dir:" ++ (u.root ++ ("!/" ++ relative)))

def path (u : InputUnit) : String :=
  match u.kind with
  | .archive => u.root
  | .file relative => Path.append u.root relative

def title (u : InputUnit) : String :=
  match u.kind with
  | .archive => u.root
  | .file relative => u.root ++ ("/" ++ relative)

def classTitle (u : InputUnit) (entry : String) : String :=
  match u.kind with
  | .archive => u.root ++ ("!/" ++ entry)
  | .file _ => u.root ++ ("/" ++ entry)

end InputUnit

end ClassWeaver
