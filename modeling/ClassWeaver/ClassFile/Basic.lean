import ClassWeaver.ClassFile.Code

/-!
Class files. Every part keeps the bytes it was read from as fields, so that writing a class file that
was read gives its bytes back.
-/

namespace ClassWeaver

structure Field where
  accessFlags : UInt16
  nameIndex : UInt16
  descriptorIndex : UInt16
  attributes : List Attribute
  deriving DecidableEq, Repr

def Field.encode (f : Field) : Bytes :=
  be16 f.accessFlags ++ (be16 f.nameIndex ++ (be16 f.descriptorIndex ++
    Attribute.encodeAll f.attributes))

def Field.size (f : Field) : Nat := 6 + Attribute.sizeAll f.attributes

structure Method where
  accessFlags : UInt16
  nameIndex : UInt16
  descriptorIndex : UInt16
  name : String
  descriptor : String
  attributes : List Attribute
  code : Option (Nat × Code)
  annotations : List String
  deriving DecidableEq, Repr

namespace Method

def signature (m : Method) : String := m.name ++ m.descriptor

def isConstructor (m : Method) : Bool := m.name == "<init>" || m.name == "<clinit>"

def isNative (m : Method) : Bool := m.accessFlags &&& 0x0100 != 0

def isAbstract (m : Method) : Bool := m.accessFlags &&& 0x0400 != 0

def encode (m : Method) : Bytes :=
  be16 m.accessFlags ++ (be16 m.nameIndex ++ (be16 m.descriptorIndex ++
    Attribute.encodeAll m.attributes))

def size (m : Method) : Nat := 6 + Attribute.sizeAll m.attributes

end Method

def dotted (name : String) : String := name.map fun c => if c = '/' then '.' else c

structure ClassFile where
  minorVersion : UInt16
  majorVersion : UInt16
  pool : Pool
  accessFlags : UInt16
  thisClass : UInt16
  superClass : UInt16
  interfaces : List UInt16
  name : String
  superName : Option String
  interfaceNames : List String
  fields : List Field
  methods : List Method
  attributes : List Attribute
  annotations : List String
  appliedRules : List String
  deriving DecidableEq, Repr

namespace ClassFile

def magic : UInt32 := 0xCAFEBABE

def oldestVersion : UInt16 := 45

def newestVersion : UInt16 := 69

/-- The class attribute that records which rules have changed the class. -/
def markerName : String := "AmsInstrumented"

def dottedName (c : ClassFile) : String := dotted c.name

def encodeHead (c : ClassFile) : Bytes :=
  be32 magic ++ (be16 c.minorVersion ++ be16 c.majorVersion)

def encodeRelations (c : ClassFile) : Bytes :=
  be16 c.accessFlags ++ (be16 c.thisClass ++ (be16 c.superClass ++
    (count16 c.interfaces.length ++ c.interfaces.flatMap be16)))

def encodeFields (c : ClassFile) : Bytes :=
  count16 c.fields.length ++ c.fields.flatMap Field.encode

def encodeMethods (methods : List Method) : Bytes :=
  count16 methods.length ++ methods.flatMap Method.encode

def encode (c : ClassFile) : Bytes :=
  c.encodeHead ++ (c.pool.encode ++ (c.encodeRelations ++ (c.encodeFields ++
    (encodeMethods c.methods ++ Attribute.encodeAll c.attributes))))

def fieldsStart (c : ClassFile) : Nat :=
  8 + 2 + c.pool.raw.length + 8 + 2 * c.interfaces.length

def fieldsStop (c : ClassFile) : Nat :=
  c.fieldsStart + 2 + total Field.size c.fields

def placeMethodsFrom : Nat → List Method → List (Nat × Method) → List (Nat × Method)
  | _, [], done => done.reverse
  | pos, m :: rest, done => placeMethodsFrom (pos + m.size) rest ((pos, m) :: done)

def placedMethods (c : ClassFile) : List (Nat × Method) :=
  placeMethodsFrom (c.fieldsStop + 2) c.methods []

def attributesStart (c : ClassFile) : Nat :=
  c.fieldsStop + 2 + total Method.size c.methods

end ClassFile

end ClassWeaver
