import ClassWeaver.Archive.Zip.Reader
import ClassWeaver.Files.System
import ClassWeaver.Path

namespace ClassWeaver

section

variable {α : Type} (label : String) (decide : String → Bytes → Decision α)

def transformBytes (mode : ReadMode) (bytes : Bytes) :
    Except IoFault (Bytes × List (String × α)) := do
  let contents ← retryRead label (m := Id) ((Zip.decode bytes).mapError Zip.Fault.message)
  let out ← contents.transform label decide mode
  return (Zip.encode out.entries.toList, out.details.toList)

end

namespace FileSystem

variable {m : Type → Type} [Monad m] (files : FileSystem m)

def worded {α : Type} (attempt : ExceptT FileFault m α) : m (Except String α) := do
  return (← attempt.run).mapError FileFault.message

def makeParent (path : String) : ExceptT FileFault m Unit :=
  match Path.parent? path with
  | some above => files.makeDirectories above
  | none => pure ()

/-- The new file is begun before anything of the archive is read. -/
def transformArchive {α : Type} (source target : String) (threshold : Nat)
    (decide : String → Bytes → Decision α) : ExceptT IoFault m (List (String × α)) := do
  let info ← ExceptT.mk (retryRead source (worded (files.info source)))
  ExceptT.mk do
    return (← worded (files.makeParent target)).mapError fun reason => ⟨.write, reason⟩
  let write (bytes : Bytes) : ExceptT IoFault m Unit := ExceptT.mk do
    return (← worded (files.write target bytes)).mapError fun reason =>
      ⟨.write, s!"{target}: {reason}"⟩
  write []
  let bytes ← ExceptT.mk (retryRead source (worded (files.read source)))
  let (out, details) ← ExceptT.mk
    (pure (transformBytes source decide (.of info.size threshold) bytes))
  write out
  return details

end FileSystem

end ClassWeaver
