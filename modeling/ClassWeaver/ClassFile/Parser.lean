import ClassWeaver.ClassFile.Basic
import ClassWeaver.ClassFile.Annotations

/-!
Reading a class file from front to back. The first fault met decides; what follows the class is a
fault of its own.
-/

namespace ClassWeaver

def Field.read (pool : Pool) : Read Field := do
  let accessFlags ← Read.u16 "field"
  let nameIndex ← Read.u16 "field"
  let descriptorIndex ← Read.u16 "field"
  let _ ← Read.lift (pool.utf8 nameIndex)
  let _ ← Read.lift (pool.utf8 descriptorIndex)
  return ⟨accessFlags, nameIndex, descriptorIndex, ← Attribute.readAll pool⟩

namespace Method

structure Content where
  code : Option (Nat × Code)
  annotations : List (List String)
  deriving DecidableEq, Repr

def Content.include (pool : Pool) (signature : String) (content : Content)
    (index : Nat) (placed : Nat × Attribute) : Except ClassFault Content :=
  let (pos, a) := placed
  if a.name = "Code" then do
    let code ← a.readBody pos (Code.read pool signature)
    return { content with code := some (index, code) }
  else if Annotations.arePresent a.name then do
    let types ← a.readBody pos (Annotations.readTypes pool)
    return { content with annotations := types :: content.annotations }
  else
    return content

def Content.ofAttributes (pool : Pool) (signature : String) :
    Nat → List (Nat × Attribute) → Content → Except ClassFault Content
  | _, [], content => .ok content
  | index, placed :: rest, content =>
    match content.include pool signature index placed with
    | .error fault => .error fault
    | .ok content => ofAttributes pool signature (index + 1) rest content

def read (pool : Pool) : Read Method := do
  let accessFlags ← Read.u16 "method"
  let nameIndex ← Read.u16 "method"
  let descriptorIndex ← Read.u16 "method"
  let name ← Read.lift (pool.utf8 nameIndex)
  let descriptor ← Read.lift (pool.utf8 descriptorIndex)
  let pos ← Read.offset
  let attributes ← Attribute.readAll pool
  let content ← Read.lift
    (Content.ofAttributes pool (name ++ descriptor) 0 (Attribute.place pos attributes) ⟨none, []⟩)
  return ⟨accessFlags, nameIndex, descriptorIndex, name, descriptor, attributes, content.code,
    content.annotations.reverse.flatten⟩

end Method

namespace ClassFile

def readInterface (pool : Pool) : Read (UInt16 × String) := do
  let index ← Read.u16 "interfaces"
  let name ← Read.lift (pool.className index)
  return (index, name)

def readMarker (pool : Pool) : Read (List String) :=
  Read.counted "marker attribute" do
    Read.lift (pool.utf8 (← Read.u16 "marker attribute"))

/-- The annotation types and applied rules that the class attributes hold, each list in reverse. -/
def readClassAttributes (pool : Pool) :
    List (Nat × Attribute) → List (List String) → List (List String) →
      Except ClassFault (List String × List String)
  | [], annotations, applied => .ok (annotations.reverse.flatten, applied.reverse.flatten)
  | (pos, a) :: rest, annotations, applied =>
    if Annotations.arePresent a.name then
      match a.readBody pos (Annotations.readTypes pool) with
      | .error fault => .error fault
      | .ok types => readClassAttributes pool rest (types :: annotations) applied
    else if a.name = markerName then
      match a.readBody pos (readMarker pool) with
      | .error fault => .error fault
      | .ok rules => readClassAttributes pool rest annotations (rules :: applied)
    else readClassAttributes pool rest annotations applied

def readVersion : Read (UInt16 × UInt16) := do
  let word ← Read.u32 "magic"
  if word = magic then
    let minor ← Read.u16 "version"
    let major ← Read.u16 "version"
    if oldestVersion ≤ major ∧ major ≤ newestVersion then
      return (minor, major)
    else
      Read.fail (.unsupportedVersion major minor)
  else
    Read.fail (.badMagic word)

def read : Read ClassFile := do
  let (minorVersion, majorVersion) ← readVersion
  let pool ← Pool.read
  let accessFlags ← Read.u16 "access flags"
  let thisClass ← Read.u16 "this class"
  let name ← Read.lift (pool.className thisClass)
  let superClass ← Read.u16 "super class"
  let superName ←
    if superClass = 0 then pure none
    else some <$> Read.lift (pool.className superClass)
  let interfaces ← Read.counted "interfaces" (readInterface pool)
  let fields ← Read.counted "fields" (Field.read pool)
  let methods ← Read.counted "methods" (Method.read pool)
  let pos ← Read.offset
  let attributes ← Attribute.readAll pool
  let left ← Read.remaining
  if left = 0 then
    let (annotations, appliedRules) ←
      Read.lift (readClassAttributes pool (Attribute.place pos attributes) [] [])
    return { minorVersion, majorVersion, pool, accessFlags, thisClass, superClass,
             interfaces := interfaces.map (·.1), name, superName,
             interfaceNames := interfaces.map (·.2), fields, methods, attributes,
             annotations, appliedRules }
  else
    Read.fail (.trailingBytes left)

def parse (bytes : Bytes) : Except ClassFault ClassFile := Read.runAt 0 bytes read

end ClassFile

end ClassWeaver
