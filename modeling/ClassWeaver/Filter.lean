import ClassWeaver.Glob.Ignore

namespace ClassWeaver

namespace ClassName

def generated : List String := ["R", "BuildConfig", "Manifest", "module-info", "package-info"]

def simple (name : String) : List Char :=
  (name.toList.reverse.takeWhile (· ≠ '/')).reverse

def isGenerated (name : String) : Bool :=
  let name := simple name
  generated.contains (String.ofList name) || "R$".toList.isPrefixOf name ||
    "Manifest$".toList.isPrefixOf name

/-- The class in a file of that name. Copies for other versions of the platform do not count. -/
def ofFile? (file : String) : Option String :=
  let name := file.toList.take (file.length - 6)
  if name ≠ [] && file.toList.drop name.length = ".class".toList &&
      !"META-INF/".toList.isPrefixOf file.toList then
    some (String.ofList name)
  else none

end ClassName

inductive FilterFault where
  | badInclude (pattern : String)
  | badExclude (pattern : String)
  deriving DecidableEq, Repr

def FilterFault.causes : FilterFault → List String
  | .badInclude pattern => ["invalid includePatterns", s!"bad pattern '{pattern}'"]
  | .badExclude pattern => ["invalid excludePatterns", s!"bad pattern '{pattern}'"]

structure ClassFilter where
  included : Option GlobList
  excluded : GlobList
  excludeGenerated : Bool
  deriving Repr

namespace ClassFilter

def of (included excluded : List String) (excludeGenerated : Bool) :
    Except FilterFault ClassFilter := do
  let inside ← (GlobList.ofPatterns included).mapError .badInclude
  let outside ← (GlobList.ofPatterns excluded).mapError .badExclude
  return ⟨if included.isEmpty then none else some inside, outside, excludeGenerated⟩

def accepts (f : ClassFilter) (name : String) : Except RootedName Bool :=
  if f.excludeGenerated && ClassName.isGenerated name then .ok false
  else
    match f.included with
    | none => (f.excluded.has name).map (!·)
    | some lines =>
      match lines.has name with
      | .error fault => .error fault
      | .ok false => .ok false
      | .ok true => (f.excluded.has name).map (!·)

end ClassFilter

end ClassWeaver
