import ClassWeaver.Files.System
import ClassWeaver.State.Store
import ClassWeaver.Unit.Layout

namespace ClassWeaver

namespace StateStore

variable {m : Type → Type} [Monad m] (files : FileSystem m)

def fileReason : String := "not a state file"

def needsDirectory (path : String) : Bool :=
  match Path.parent? path with
  | some above => above.isEmpty
  | none => true

def openFile (path : String) : ExceptT FileFault m StateStore := do
  let known ← files.exists path
  if !known && needsDirectory path then throw .notFound
  else
    if !(← files.exists (lockPath path)) then files.write (lockPath path) []
    let bytes ← if known then files.read path else pure []
    match decode? bytes with
    | none => throw (.other fileReason)
    | some store =>
      if bytes.isEmpty then files.write path store.encode
      return store

def openAt (path : String) : m (Except StoreFault StateStore) := do
  let above := (Path.parent? path).getD ""
  let made ← if above.isEmpty then pure (.ok ()) else (files.makeDirectories above).run
  match made with
  | .error fault => return .error (.noDirectory above fault.message)
  | .ok () =>
    match ← (openFile files path).run with
    | .error fault => return .error (.notOpen path fault.message)
    | .ok store => return .ok store

/-- Replaces what is in an open store; if its file has been removed meanwhile it stays away. -/
def commit (path : String) (s : Snapshot) : m Bool := do
  if ← files.isFile path then
    match ← (files.write path (ofSnapshot s).encode).run with
    | .error _ => return false
    | .ok () => return true
  else return true

end StateStore

structure CleaningFault where
  what : String
  path : String
  fault : FileFault
  deriving DecidableEq, Repr

def CleaningFault.causes (f : CleaningFault) : List String :=
  [s!"Failed to remove {f.what} file: {f.path}", f.fault.message]

section

variable {m : Type → Type} [Monad m] (files : FileSystem m)

def removeIfThere (what path : String) : ExceptT CleaningFault m Unit := do
  if ← files.exists path then
    match ← (files.removeFile path).run with
    | .error fault => throw ⟨what, path, fault⟩
    | .ok () => return ()

def cleanState (path : String) : ExceptT CleaningFault m Unit := do
  removeIfThere files "state" path
  removeIfThere files "state lock" (lockPath path)

end

end ClassWeaver
