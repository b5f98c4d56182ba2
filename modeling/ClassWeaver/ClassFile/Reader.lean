import ClassWeaver.ClassFile.Fault

namespace ClassWeaver

structure Reader where
  offset : Nat
  rest : Bytes
  deriving DecidableEq, Repr

abbrev ReadOr (ε : Type) := StateT Reader (Except ε)

abbrev Read := ReadOr ClassFault

class Truncation (ε : Type) where
  truncated : String → Nat → ε

instance : Truncation ClassFault := ⟨.truncated⟩

namespace Read

variable {ε α β : Type}

def fail (fault : ε) : ReadOr ε α := fun _ => .error fault

def offset : ReadOr ε Nat := fun r => .ok (r.offset, r)

def remaining : ReadOr ε Nat := fun r => .ok (r.rest.length, r)

section Words

variable [Truncation ε]

def u8 (context : String) : ReadOr ε UInt8
  | ⟨pos, a :: rest⟩ => .ok (a, ⟨pos + 1, rest⟩)
  | ⟨pos, _⟩ => .error (Truncation.truncated context pos)

def u16 (context : String) : ReadOr ε UInt16
  | ⟨pos, a :: b :: rest⟩ => .ok (ofBe16 a b, ⟨pos + 2, rest⟩)
  | ⟨pos, _⟩ => .error (Truncation.truncated context pos)

def u32 (context : String) : ReadOr ε UInt32
  | ⟨pos, a :: b :: c :: d :: rest⟩ => .ok (ofBe32 a b c d, ⟨pos + 4, rest⟩)
  | ⟨pos, _⟩ => .error (Truncation.truncated context pos)

/-- Two words, so a cut in the middle is reported at the second one. -/
def u64 (context : String) : ReadOr ε UInt64 := do
  let high ← u32 context
  let low ← u32 context
  return ofBe64 high low

def bytes (n : Nat) (context : String) : ReadOr ε Bytes := fun r =>
  match takeExact? n r.rest with
  | some (front, rest) => .ok (front, ⟨r.offset + n, rest⟩)
  | none => .error (Truncation.truncated context r.offset)

end Words

def timesFrom (item : ReadOr ε α) : Nat → List α → ReadOr ε (List α)
  | 0, done, r => .ok (done.reverse, r)
  | n + 1, done, r =>
    match item r with
    | .error fault => .error fault
    | .ok (a, r) => timesFrom item n (a :: done) r

def times (n : Nat) (item : ReadOr ε α) : ReadOr ε (List α) := timesFrom item n []

def counted [Truncation ε] (context : String) (item : ReadOr ε α) : ReadOr ε (List α) := do
  let n ← u16 context
  times n.toNat item

def runAt (pos : Nat) (bs : Bytes) (item : ReadOr ε α) : Except ε α :=
  (item ⟨pos, bs⟩).map (·.1)

def lift (result : Except ε α) : ReadOr ε α := fun r => result.map ((·, r))

def mapFault {ε' : Type} (f : ε → ε') (item : ReadOr ε α) : ReadOr ε' α := fun r =>
  (item r).mapError f

def spelled (item : ReadOr ε α) : ReadOr ε Bytes := fun r =>
  (item r).map fun (_, r') => (r.rest.take (r'.offset - r.offset), r')

def Consumes (item : ReadOr ε α) : Prop :=
  ∀ r a r', item r = .ok (a, r') → r'.rest.length < r.rest.length

def Bounded (item : ReadOr ε α) : Prop :=
  ∀ r a r', item r = .ok (a, r') → r'.rest.length ≤ r.rest.length

theorem Consumes.bounded {item : ReadOr ε α} (h : Consumes item) : Bounded item :=
  fun r a r' e => Nat.le_of_lt (h r a r' e)

theorem bounded_pure (a : α) : Bounded (pure a : ReadOr ε α) := by
  intro r b r' h
  cases h
  exact Nat.le_refl _

theorem bounded_fail (fault : ε) : Bounded (fail fault : ReadOr ε α) := by
  intro r b r' h
  cases h

theorem bounded_lift (result : Except ε α) : Bounded (lift result) := by
  intro r b r' h
  cases result with
  | error => cases h
  | ok => cases h; exact Nat.le_refl _

theorem bounded_offset : Bounded (offset : ReadOr ε Nat) := by
  intro r b r' h
  cases h
  exact Nat.le_refl _

theorem Bounded.bind {item : ReadOr ε α} {next : α → ReadOr ε β} (h : Bounded item)
    (k : ∀ a, Bounded (next a)) : Bounded (item >>= next) := by
  intro r b r'' e
  simp only [Bind.bind, StateT.bind, Except.bind] at e
  split at e
  · cases e
  · next x hx => exact Nat.le_trans (k _ _ _ _ e) (h _ _ _ hx)

theorem Consumes.bind {item : ReadOr ε α} {next : α → ReadOr ε β} (h : Consumes item)
    (k : ∀ a, Bounded (next a)) : Consumes (item >>= next) := by
  intro r b r'' e
  simp only [Bind.bind, StateT.bind, Except.bind] at e
  split at e
  · cases e
  · next x hx => exact Nat.lt_of_le_of_lt (k _ _ _ _ e) (h _ _ _ hx)

theorem consumes_u8 [Truncation ε] (context : String) :
    Consumes (u8 context : ReadOr ε UInt8) := by
  intro r a r' h
  unfold u8 at h
  split at h <;> cases h
  simp

theorem consumes_u16 [Truncation ε] (context : String) :
    Consumes (u16 context : ReadOr ε UInt16) := by
  intro r a r' h
  unfold u16 at h
  split at h <;> cases h
  simp only [List.length_cons]
  omega

end Read

end ClassWeaver
