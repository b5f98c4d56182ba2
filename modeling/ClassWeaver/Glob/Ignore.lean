import ClassWeaver.Glob.Parser
import ClassWeaver.Path
import ClassWeaver.Text.Blank
import ClassWeaver.Text.ModifiedUtf8

namespace ClassWeaver

structure GlobLine where
  glob : Glob
  allows : Bool
  directoriesOnly : Bool
  deriving Repr

namespace GlobLine

def normalize (pattern : String) : List Char :=
  (trimBlank pattern.toList).map fun c => if c = '.' then '/' else c

def opening : List Char → Bool × Bool × List Char
  | '\\' :: c :: rest =>
    if c = '!' || c = '#' then (false, false, c :: rest) else (false, false, '\\' :: c :: rest)
  | '!' :: '/' :: rest => (true, true, rest)
  | '!' :: rest => (true, false, rest)
  | '/' :: rest => (false, true, rest)
  | cs => (false, false, cs)

def closing (cs : List Char) : Bool × List Char :=
  match cs.reverse with
  | '/' :: '\\' :: rest => (true, rest.reverse)
  | '/' :: rest => (true, rest.reverse)
  | _ => (false, cs)

/-- A pattern without a slash is for a name in any directory. -/
def deepen (rooted : Bool) (cs : List Char) : List Char :=
  if rooted || cs.contains '/' || cs = ['*', '*'] then cs else '*' :: '*' :: '/' :: cs

/-- What lies below a directory does not include the directory. -/
def extend (cs : List Char) : List Char :=
  match cs.reverse with
  | '*' :: '*' :: '/' :: _ => cs ++ ['/', '*']
  | _ => cs

def parse? (pattern : String) : Option (Option GlobLine) :=
  match normalize pattern with
  | [] => some none
  | '#' :: _ => some none
  | cs =>
    let (allows, rooted, cs) := opening cs
    let (directoriesOnly, cs) := closing cs
    (Glob.parse? (extend (deepen rooted cs))).map fun glob => some ⟨glob, allows, directoriesOnly⟩

end GlobLine

/-- Names for which no line can decide: they are absolute even without their first slash. -/
structure RootedName where
  name : String
  deriving DecidableEq, Repr

abbrev GlobList := List GlobLine

namespace GlobList

def ofPatterns : List String → Except String GlobList
  | [] => .ok []
  | pattern :: rest =>
    match GlobLine.parse? pattern with
    | none => .error pattern
    | some line => (ofPatterns rest).map (line.toList ++ ·)

def verdict? (lines : GlobList) (path : String) (isDirectory : Bool) : Option Bool :=
  let text := Utf8.encode path
  (lines.reverse.find? fun line =>
    (isDirectory || !line.directoriesOnly) && line.glob.admits text).map fun line => !line.allows

def relative (name : String) : String :=
  let cs := match name.toList with
    | '.' :: '/' :: rest => rest
    | cs => cs
  match cs with
  | '/' :: rest => String.ofList rest
  | cs => String.ofList cs

/-- Whether the list has the name: the first of the name and the directories above it that a line
is for decides. -/
def has (lines : GlobList) (name : String) : Except RootedName Bool :=
  if lines.isEmpty then .ok false
  else
    let path := relative name
    if Path.isAbsolute path then .error ⟨name⟩
    else
      match Path.ancestors path with
      | [] => .ok false
      | path :: above =>
        .ok (((lines.verdict? path false).or
          (above.findSome? (lines.verdict? · true))).getD false)

end GlobList

end ClassWeaver
