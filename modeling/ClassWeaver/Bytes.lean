namespace ClassWeaver

abbrev Bytes := List UInt8

def be16 (w : UInt16) : Bytes :=
  [UInt8.ofNat (w.toNat / 256), UInt8.ofNat w.toNat]

def be32 (w : UInt32) : Bytes :=
  [UInt8.ofNat (w.toNat / 16777216), UInt8.ofNat (w.toNat / 65536),
   UInt8.ofNat (w.toNat / 256), UInt8.ofNat w.toNat]

def be64 (w : UInt64) : Bytes :=
  be32 (UInt32.ofNat (w.toNat / 4294967296)) ++ be32 (UInt32.ofNat w.toNat)

def ofBe16 (a b : UInt8) : UInt16 :=
  UInt16.ofNat (a.toNat * 256 + b.toNat)

def ofBe32 (a b c d : UInt8) : UInt32 :=
  UInt32.ofNat (a.toNat * 16777216 + b.toNat * 65536 + c.toNat * 256 + d.toNat)

def ofBe64 (high low : UInt32) : UInt64 :=
  UInt64.ofNat (high.toNat * 4294967296 + low.toNat)

def count16 (n : Nat) : Bytes := be16 (UInt16.ofNat n)

def count32 (n : Nat) : Bytes := be32 (UInt32.ofNat n)

def total {α : Type} (size : α → Nat) : List α → Nat
  | [] => 0
  | a :: rest => size a + total size rest

def takeExact? (n : Nat) (bs : Bytes) : Option (Bytes × Bytes) :=
  if (bs.take n).length = n then some (bs.take n, bs.drop n) else none

theorem takeExact?_eq_some {n : Nat} {bs front rest : Bytes}
    (h : takeExact? n bs = some (front, rest)) : bs = front ++ rest ∧ front.length = n := by
  unfold takeExact? at h
  split at h
  · next hn =>
    simp only [Option.some.injEq, Prod.mk.injEq] at h
    obtain ⟨rfl, rfl⟩ := h
    exact ⟨(List.take_append_drop n bs).symm, hn⟩
  · cases h

theorem takeExact?_append {n : Nat} {front : Bytes} (h : front.length = n) (rest : Bytes) :
    takeExact? n (front ++ rest) = some (front, rest) := by
  subst h
  simp [takeExact?]

theorem ofBe16_be16 (w : UInt16) :
    ofBe16 (UInt8.ofNat (w.toNat / 256)) (UInt8.ofNat w.toNat) = w := by
  have := w.toNat_lt
  apply UInt16.toNat.inj
  simp only [ofBe16, UInt8.toNat_ofNat', UInt16.toNat_ofNat']
  omega

theorem ofBe32_be32 (w : UInt32) :
    ofBe32 (UInt8.ofNat (w.toNat / 16777216)) (UInt8.ofNat (w.toNat / 65536))
      (UInt8.ofNat (w.toNat / 256)) (UInt8.ofNat w.toNat) = w := by
  have := w.toNat_lt
  apply UInt32.toNat.inj
  simp only [ofBe32, UInt8.toNat_ofNat', UInt32.toNat_ofNat']
  omega

@[simp] theorem length_be16 (w : UInt16) : (be16 w).length = 2 := rfl

@[simp] theorem length_be32 (w : UInt32) : (be32 w).length = 4 := rfl

@[simp] theorem length_be64 (w : UInt64) : (be64 w).length = 8 := rfl

def hexDigit (n : Nat) : Char :=
  if n < 10 then Char.ofNat (48 + n) else Char.ofNat (87 + n)

def hexDigits : Nat → Nat → List Char
  | 0, _ => []
  | width + 1, n => hexDigits width (n / 16) ++ [hexDigit (n % 16)]

def Bytes.toHex (bs : Bytes) : String :=
  String.ofList (bs.flatMap fun b => hexDigits 2 b.toNat)

end ClassWeaver
