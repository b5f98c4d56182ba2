import ClassWeaver.Code.Opcode

/-!
The operands of `tableswitch` and `lookupswitch`. They begin at a multiple of four in the code, so
the bytes that fill the gap depend on where the instruction stands.
-/

namespace ClassWeaver

structure Switch where
  default : Int32
  /-- The first key of a table, whose keys go on from there; absent where every case has its own. -/
  low : Option Int32
  cases : List (Int32 × Int32)
  deriving DecidableEq, Repr

namespace Switch

def paddingAt (offset : Nat) : Nat := (4 - (offset + 1) % 4) % 4

def size (s : Switch) : Nat :=
  match s.low with
  | some _ => 12 + 4 * s.cases.length
  | none => 8 + 8 * s.cases.length

def sizeAt (offset : Nat) (s : Switch) : Nat := 1 + paddingAt offset + s.size

def encodeWord (w : Int32) : Bytes := be32 w.toUInt32

def count (s : Switch) : Int32 := Int32.ofNat s.cases.length

def spell (s : Switch) : Bytes :=
  encodeWord s.default ++
    match s.low with
    | some low =>
      encodeWord low ++ (encodeWord (low + s.count - 1) ++
        s.cases.flatMap fun c => encodeWord c.2)
    | none =>
      encodeWord s.count ++ s.cases.flatMap fun c => encodeWord c.1 ++ encodeWord c.2

/-- The operands that are written. The last key of a table is one less than its first key and its
count together, and that sum has to be a word as well. -/
def encode? (s : Switch) : Option Bytes :=
  match s.low with
  | some low =>
    let next := low.toInt + s.count.toInt
    if -2147483648 < next ∧ next < 2147483648 then some s.spell else none
  | none => some s.spell

def encodeAt? (opcode : UInt8) (offset : Nat) (s : Switch) : Option Bytes :=
  s.encode?.map fun operands => opcode :: (List.replicate (paddingAt offset) 0 ++ operands)

def readWord? : Bytes → Option (Int32 × Bytes)
  | a :: b :: c :: d :: rest => some ((ofBe32 a b c d).toInt32, rest)
  | _ => none

def readTargets? : Nat → Int32 → Bytes → List (Int32 × Int32) →
    Option (List (Int32 × Int32) × Bytes)
  | 0, _, bs, done => some (done.reverse, bs)
  | n + 1, key, bs, done =>
    match readWord? bs with
    | some (target, bs) => readTargets? n (key + 1) bs ((key, target) :: done)
    | none => none

def readPairs? : Nat → Bytes → List (Int32 × Int32) → Option (List (Int32 × Int32) × Bytes)
  | 0, bs, done => some (done.reverse, bs)
  | n + 1, bs, done =>
    match readWord? bs with
    | some (key, bs) =>
      match readWord? bs with
      | some (target, bs) => readPairs? n bs ((key, target) :: done)
      | none => none
    | none => none

def read? (opcode : UInt8) (bs : Bytes) : Option (Switch × Bytes) := do
  let (default, bs) ← readWord? bs
  if opcode = Opcode.tableswitch then
    let (low, bs) ← readWord? bs
    let (high, bs) ← readWord? bs
    if high < low then none
    else
      let (cases, bs) ← readTargets? (high.toInt - low.toInt + 1).toNat low bs []
      return (⟨default, some low, cases⟩, bs)
  else
    let (count, bs) ← readWord? bs
    if count < 0 then none
    else
      let (cases, bs) ← readPairs? count.toInt.toNat bs []
      return (⟨default, none, cases⟩, bs)

theorem length_of_readWord? {bs rest : Bytes} {w : Int32} (h : readWord? bs = some (w, rest)) :
    rest.length + 4 = bs.length := by
  unfold readWord? at h
  split at h
  · simp only [Option.some.injEq, Prod.mk.injEq] at h
    obtain ⟨-, rfl⟩ := h
    simp
  · cases h

theorem length_le_of_readTargets? {n : Nat} {key : Int32} {bs rest : Bytes}
    {done cases : List (Int32 × Int32)} (h : readTargets? n key bs done = some (cases, rest)) :
    rest.length ≤ bs.length := by
  induction n generalizing key bs done with
  | zero =>
    simp only [readTargets?, Option.some.injEq, Prod.mk.injEq] at h
    simp [h.2]
  | succ n ih =>
    simp only [readTargets?] at h
    split at h
    · next hw => exact Nat.le_trans (ih h) (by have := length_of_readWord? hw; omega)
    · cases h

theorem length_le_of_readPairs? {n : Nat} {bs rest : Bytes} {done cases : List (Int32 × Int32)}
    (h : readPairs? n bs done = some (cases, rest)) : rest.length ≤ bs.length := by
  induction n generalizing bs done with
  | zero =>
    simp only [readPairs?, Option.some.injEq, Prod.mk.injEq] at h
    simp [h.2]
  | succ n ih =>
    simp only [readPairs?] at h
    split at h
    · next hw =>
      split at h
      · next hw' =>
        have := length_of_readWord? hw
        have := length_of_readWord? hw'
        exact Nat.le_trans (ih h) (by omega)
      · cases h
    · cases h

theorem length_le_of_read? {opcode : UInt8} {bs rest : Bytes} {s : Switch}
    (h : read? opcode bs = some (s, rest)) : rest.length ≤ bs.length := by
  simp only [read?, bind, Option.bind_eq_some_iff, Prod.exists] at h
  obtain ⟨default, bs1, h1, h⟩ := h
  have l1 := length_of_readWord? h1
  split at h
  · obtain ⟨low, bs2, h2, high, bs3, h3, h⟩ := by
      simpa only [Option.bind_eq_some_iff, Prod.exists] using h
    have l2 := length_of_readWord? h2
    have l3 := length_of_readWord? h3
    split at h
    · cases h
    · obtain ⟨cases, bs4, h4, h⟩ := by
        simpa only [Option.bind_eq_some_iff, Prod.exists] using h
      have l4 := length_le_of_readTargets? h4
      cases h
      omega
  · obtain ⟨count, bs2, h2, h⟩ := by
      simpa only [Option.bind_eq_some_iff, Prod.exists] using h
    have l2 := length_of_readWord? h2
    split at h
    · cases h
    · obtain ⟨cases, bs4, h4, h⟩ := by
        simpa only [Option.bind_eq_some_iff, Prod.exists] using h
      have l4 := length_le_of_readPairs? h4
      cases h
      omega

end Switch

end ClassWeaver
