import ClassWeaver.Bytes

namespace ClassWeaver

inductive FileFault where
  | notFound
  | alreadyExists
  | notDirectory
  | isDirectory
  | nameTooLong
  | badName
  | other (reason : String)
  deriving DecidableEq, Repr

def FileFault.message : FileFault → String
  | notFound => "No such file or directory (os error 2)"
  | alreadyExists => "File exists (os error 17)"
  | notDirectory => "Not a directory (os error 20)"
  | isDirectory => "Is a directory (os error 21)"
  | nameTooLong => "File name too long (os error 36)"
  | badName => "file name contained an unexpected NUL byte"
  | other reason => reason

structure FileInfo where
  isDirectory : Bool
  size : Nat
  modified : Nat
  deriving DecidableEq, Repr

structure FileSystem (m : Type → Type) where
  info : String → ExceptT FileFault m FileInfo
  read : String → ExceptT FileFault m Bytes
  filesBelow : String → ExceptT FileFault m (List String)
  makeDirectories : String → ExceptT FileFault m Unit
  write : String → Bytes → ExceptT FileFault m Unit
  removeFile : String → ExceptT FileFault m Unit
  removeDirectory : String → ExceptT FileFault m Unit
  /-- Gives a file another name, in the place of any file of that name. -/
  move : String → String → ExceptT FileFault m Unit

namespace FileSystem

variable {m : Type → Type} [Monad m] (files : FileSystem m)

def info? (path : String) : m (Option FileInfo) := do
  match ← (files.info path).run with
  | .ok info => return some info
  | .error _ => return none

def «exists» (path : String) : m Bool := do return (← files.info? path).isSome

def isFile (path : String) : m Bool := do
  return ((← files.info? path).map fun info => !info.isDirectory).getD false

def isDirectory (path : String) : m Bool := do
  return ((← files.info? path).map FileInfo.isDirectory).getD false

def modified (path : String) : m Nat := do
  return ((← files.info? path).map FileInfo.modified).getD 0

end FileSystem

end ClassWeaver
