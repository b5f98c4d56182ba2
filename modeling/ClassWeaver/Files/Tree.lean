import ClassWeaver.Files.System
import ClassWeaver.Path
import ClassWeaver.Text.ModifiedUtf8

/-!
A file system that is a value: what lies at each place, a place being the names that lead to it. There
are no links, and all paths begin at one directory.
-/

namespace ClassWeaver

inductive FileNode where
  | file (bytes : Bytes)
  | directory
  deriving DecidableEq, Repr

abbrev FilePlace := List String

structure FileTree where
  nodes : List (FilePlace × FileNode)
  deriving DecidableEq, Repr

namespace FileTree

def empty : FileTree := ⟨[]⟩

/-- The directory where all paths begin is always there. -/
def get? (t : FileTree) (place : FilePlace) : Option FileNode :=
  match place with
  | [] => some .directory
  | place => t.nodes.lookup place

def put (t : FileTree) (place : FilePlace) (node : FileNode) : FileTree :=
  ⟨(place, node) :: t.nodes.filter (·.1 != place)⟩

def erase (t : FileTree) (place : FilePlace) : FileTree := ⟨t.nodes.filter (·.1 != place)⟩

def eraseBelow (t : FileTree) (place : FilePlace) : FileTree :=
  ⟨t.nodes.filter fun node => !place.isPrefixOf node.1⟩

def maxName : Nat := 255

def maxPath : Nat := 4095

def step (t : FileTree) (place : FilePlace) (name : List Char) : Except FileFault FilePlace :=
  match t.get? place with
  | none => .error .notFound
  | some (.file _) => .error .notDirectory
  | some .directory =>
    if Path.isIdle name then .ok place
    else if name = ['.', '.'] then
      match place with
      | [] => .error .notFound
      | place => .ok place.dropLast
    else if maxName < (Utf8.encode (String.ofList name)).length then .error .nameTooLong
    else .ok (place ++ [String.ofList name])

def walk (t : FileTree) : List (List Char) → FilePlace → Except FileFault FilePlace
  | [], place => .ok place
  | name :: rest, place =>
    match t.step place name with
    | .error fault => .error fault
    | .ok place => t.walk rest place

def names (body : List Char) : List (List Char) :=
  ((Path.pieces body).reverse.dropWhile (· = [])).reverse

/-- The place that a path leads to, whether there is anything or not; everything above it must be a
directory. Absolute paths have a directory of their own. -/
def place (t : FileTree) (path : String) : Except FileFault FilePlace :=
  if path.isEmpty then .error .notFound
  else if path.toList.contains '\x00' then .error .badName
  else if maxPath < (Utf8.encode path).length then .error .nameTooLong
  else
    let (front, body) := Path.split path.toList
    t.walk (names body) (if front = ['/'] then ["/"] else [])

def endsOpen (path : String) : Bool := path.toList.getLast? = some '/'

def find (t : FileTree) (path : String) : Except FileFault (FilePlace × FileNode) :=
  match t.place path with
  | .error fault => .error fault
  | .ok place =>
    match t.get? place with
    | none => .error .notFound
    | some (.file bytes) =>
      if endsOpen path then .error .notDirectory else .ok (place, .file bytes)
    | some .directory => .ok (place, .directory)

def info (t : FileTree) (path : String) : Except FileFault FileInfo :=
  (t.find path).map fun (_, node) =>
    match node with
    | .file bytes => ⟨false, bytes.length, 0⟩
    | .directory => ⟨true, 0, 0⟩

def read (t : FileTree) (path : String) : Except FileFault Bytes :=
  match t.find path with
  | .error fault => .error fault
  | .ok (_, .directory) => .error .isDirectory
  | .ok (_, .file bytes) => .ok bytes

def isDirectory (t : FileTree) (path : String) : Bool :=
  match t.find path with
  | .ok (_, .directory) => true
  | _ => false

def below (t : FileTree) (place : FilePlace) : List (FilePlace × Bytes) :=
  t.nodes.filterMap fun (at_, node) =>
    match node with
    | .file bytes =>
      if place.isPrefixOf at_ then some (at_.drop place.length, bytes) else none
    | .directory => none

def filesBelow (t : FileTree) (path : String) : Except FileFault (List String) :=
  match t.find path with
  | .error fault => .error fault
  | .ok (place, _) => .ok ((t.below place).map fun (names, _) => "/".intercalate names)

def makeDirectory (t : FileTree) (path : String) : Except FileFault FileTree :=
  match t.place path with
  | .error fault => .error fault
  | .ok place =>
    match t.get? place with
    | some _ => .error .alreadyExists
    | none => .ok (t.put place .directory)

/-- Tries to make the directory itself first, then those above it. What was made stays when a later
step fails. -/
def makeDirectories : Nat → String → FileTree → Except FileFault Unit × FileTree
  | 0, _, t => (.error (.other "failed to create whole tree"), t)
  | turns + 1, path, t =>
    if path.isEmpty then (.ok (), t)
    else
      match t.makeDirectory path with
      | .ok t => (.ok (), t)
      | .error .notFound =>
        match Path.parent? path with
        | none => (.error (.other "failed to create whole tree"), t)
        | some above =>
          match makeDirectories turns above t with
          | (.error fault, t) => (.error fault, t)
          | (.ok (), t) =>
            match t.makeDirectory path with
            | .ok t => (.ok (), t)
            | .error fault => (if t.isDirectory path then .ok () else .error fault, t)
      | .error fault => (if t.isDirectory path then .ok () else .error fault, t)

def write (t : FileTree) (path : String) (bytes : Bytes) : Except FileFault FileTree :=
  match t.place path with
  | .error fault => .error fault
  | .ok place =>
    match t.get? place with
    | some .directory => .error .isDirectory
    | _ => if endsOpen path then .error .isDirectory else .ok (t.put place (.file bytes))

def removeFile (t : FileTree) (path : String) : Except FileFault FileTree :=
  match t.find path with
  | .error fault => .error fault
  | .ok (_, .directory) => .error .isDirectory
  | .ok (place, .file _) => .ok (t.erase place)

def removeDirectory (t : FileTree) (path : String) : Except FileFault FileTree :=
  match t.find path with
  | .error fault => .error fault
  | .ok (_, .file _) => .error .notDirectory
  | .ok (place, .directory) => .ok (t.eraseBelow place)

def move (t : FileTree) (source target : String) : Except FileFault FileTree :=
  match t.find source with
  | .error fault => .error fault
  | .ok (_, .directory) => .error .isDirectory
  | .ok (place, .file bytes) => (t.erase place).write target bytes

def observe {α : Type} (f : FileTree → Except FileFault α) :
    ExceptT FileFault (StateM FileTree) α :=
  ExceptT.mk fun t => (f t, t)

/-- A change of the tree; one that fails changes nothing. -/
def change (f : FileTree → Except FileFault FileTree) : ExceptT FileFault (StateM FileTree) Unit :=
  ExceptT.mk fun t =>
    match f t with
    | .ok t => (.ok (), t)
    | .error fault => (.error fault, t)

def system : FileSystem (StateM FileTree) where
  info path := observe (·.info path)
  read path := observe (·.read path)
  filesBelow path := observe (·.filesBelow path)
  makeDirectories path := ExceptT.mk (makeDirectories (path.length + 1) path)
  write path bytes := change (·.write path bytes)
  removeFile path := change (·.removeFile path)
  removeDirectory path := change (·.removeDirectory path)
  move source target := change (·.move source target)

end FileTree

end ClassWeaver
