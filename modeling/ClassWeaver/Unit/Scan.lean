import ClassWeaver.Files.System
import ClassWeaver.Unit.Basic

namespace ClassWeaver

inductive ScanFault where
  | noArchive (path : String)
  | noDirectory (path : String)
  deriving DecidableEq, Repr

def ScanFault.message : ScanFault → String
  | noArchive path => s!"input jar not found: {path}"
  | noDirectory path => s!"input directory not found: {path}"

namespace Input

variable {m : Type → Type} [Monad m] (files : FileSystem m)

/-- The files of a directory come in the order of their paths. -/
def units (i : Input) : m (Except ScanFault (List InputUnit)) := do
  if i.isArchive then
    if ← files.isFile i.path then return .ok [⟨i.scope, i.path, .archive⟩]
    else return .error (.noArchive i.path)
  else if ← files.isDirectory i.path then
    match ← (files.filesBelow i.path).run with
    | .error _ => return .ok []
    | .ok paths =>
      let sorted := paths.mergeSort fun a b => !(b < a)
      return .ok (sorted.map fun relative => ⟨i.scope, i.path, .file relative⟩)
  else return .error (.noDirectory i.path)

def allUnits : List Input → m (Except ScanFault (List InputUnit))
  | [] => return .ok []
  | i :: rest => do
    match ← i.units files with
    | .error fault => return .error fault
    | .ok units =>
      match ← allUnits rest with
      | .error fault => return .error fault
      | .ok more => return .ok (units ++ more)

end Input

def InputUnit.distinct (units : List InputUnit) : List InputUnit := go units []
where
  go : List InputUnit → List String → List InputUnit
  | [], _ => []
  | u :: rest, seen =>
    if seen.contains u.key then go rest seen else u :: go rest (u.key :: seen)

end ClassWeaver
