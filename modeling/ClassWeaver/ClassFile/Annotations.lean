import ClassWeaver.ClassFile.Attribute

/-!
Annotations. Only the type of an outermost annotation is kept; its values, which nest, are skipped
over by a list of what is still to come.
-/

namespace ClassWeaver

namespace Annotations

inductive Pending where
  | values (n : Nat)
  | pairs (n : Nat)
  deriving DecidableEq, Repr

inductive ValueShape where
  | constant | enumeration | nested | array
  deriving DecidableEq, Repr

def valueShape? (tag : UInt8) : Option ValueShape :=
  match Char.ofNat tag.toNat with
  | 'B' | 'C' | 'D' | 'F' | 'I' | 'J' | 'S' | 'Z' | 's' | 'c' => some .constant
  | 'e' => some .enumeration
  | '@' => some .nested
  | '[' => some .array
  | _ => none

def readHead (pool : Pool) : Read (String × Nat) := do
  let typeIndex ← Read.u16 "annotation"
  let type ← Read.lift (pool.utf8 typeIndex)
  let pairs ← Read.u16 "annotation"
  return (type, pairs.toNat)

def readValue (pool : Pool) : Read (List Pending) := do
  let tag ← Read.u8 "element value"
  match valueShape? tag with
  | some .constant =>
    let _ ← Read.u16 "element value"
    return []
  | some .enumeration =>
    let _ ← Read.u16 "element value"
    let _ ← Read.u16 "element value"
    return []
  | some .nested =>
    let (_, pairs) ← readHead pool
    return [.pairs pairs]
  | some .array =>
    let n ← Read.u16 "element value"
    return [.values n.toNat]
  | none => Read.fail (.truncated "element value tag" ((← Read.offset) - 1))

theorem bounded_readHead (pool : Pool) : Read.Bounded (readHead pool) :=
  (Read.consumes_u16 _).bounded.bind fun _ =>
    (Read.bounded_lift _).bind fun _ =>
      (Read.consumes_u16 _).bounded.bind fun _ => Read.bounded_pure _

theorem consumes_readValue (pool : Pool) : Read.Consumes (readValue pool) := by
  refine (Read.consumes_u8 _).bind fun tag => ?_
  cases valueShape? tag with
  | none => exact Read.bounded_offset.bind fun _ => Read.bounded_fail _
  | some shape =>
    cases shape with
    | constant => exact (Read.consumes_u16 _).bounded.bind fun _ => Read.bounded_pure _
    | enumeration =>
      exact (Read.consumes_u16 _).bounded.bind fun _ =>
        (Read.consumes_u16 _).bounded.bind fun _ => Read.bounded_pure _
    | nested => exact (bounded_readHead pool).bind fun _ => Read.bounded_pure _
    | array => exact (Read.consumes_u16 _).bounded.bind fun _ => Read.bounded_pure _

/-- Passes over everything pending. Each step takes a byte or drops an item. -/
def skip (pool : Pool) : List Pending → Read Unit
  | [], r => .ok ((), r)
  | .values 0 :: rest, r => skip pool rest r
  | .pairs 0 :: rest, r => skip pool rest r
  | .pairs (n + 1) :: rest, r =>
    match h : Read.u16 "annotation element" r with
    | .error fault => .error fault
    | .ok (_, r') =>
      have : r'.rest.length < r.rest.length := Read.consumes_u16 _ _ _ _ h
      skip pool (.values 1 :: .pairs n :: rest) r'
  | .values (n + 1) :: rest, r =>
    match h : readValue pool r with
    | .error fault => .error fault
    | .ok (inner, r') =>
      have : r'.rest.length < r.rest.length := consumes_readValue _ _ _ _ h
      skip pool (inner ++ .values n :: rest) r'
  termination_by pending r => (r.rest.length, pending.length)

def read (pool : Pool) : Read String := do
  let (type, pairs) ← readHead pool
  skip pool [.pairs pairs]
  return type

def readTypes (pool : Pool) : Read (List String) :=
  Read.counted "annotations" (read pool)

def arePresent (name : String) : Bool :=
  name == "RuntimeVisibleAnnotations" || name == "RuntimeInvisibleAnnotations"

end Annotations

end ClassWeaver
