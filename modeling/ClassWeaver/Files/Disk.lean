import ClassWeaver.Files.System

namespace ClassWeaver

namespace Disk

def faultOf : IO.Error → FileFault
  | .noFileOrDirectory .. => .notFound
  | .alreadyExists .. => .alreadyExists
  | .inappropriateType _ code _ => if code = 20 then .notDirectory else .isDirectory
  | .invalidArgument _ 36 _ => .nameTooLong
  | e => .other (toString e)

def guarded {α : Type} (action : IO α) : ExceptT FileFault IO α :=
  ExceptT.mk (tryCatch (Except.ok <$> action) fun e => return .error (faultOf e))

def read (path : String) : IO Bytes := return (← IO.FS.readBinFile path).toList

def nanosecond : Nat := 1000000000

def place (path : String) : IO.FS.DirEntry := ⟨path, ""⟩

def info (path : String) : IO FileInfo := do
  let data ← (place path).root.metadata
  return {
    isDirectory := data.type == .dir
    size := data.byteSize.toNat
    modified := data.modified.sec.toNat * nanosecond + data.modified.nsec.toNat }

partial def filesBelow (path start : String) : IO (List String) := do
  let found ← (← (place path).root.readDir).toList.mapM fun entry => do
    let below := path ++ ("/" ++ entry.fileName)
    if (← info below).isDirectory then filesBelow below (start ++ (entry.fileName ++ "/"))
    else return [start ++ entry.fileName]
  return found.flatten

def system : FileSystem IO where
  info path := guarded (info path)
  read path := guarded (read path)
  filesBelow path := guarded (filesBelow path "")
  makeDirectories path := guarded (if path.isEmpty then pure () else IO.FS.createDirAll path)
  write path bytes := guarded (IO.FS.writeBinFile path ⟨bytes.toArray⟩)
  removeFile path := guarded (IO.FS.removeFile path)
  removeDirectory path := guarded (IO.FS.removeDirAll path)
  move source target := guarded (IO.FS.rename source target)

end Disk

end ClassWeaver
