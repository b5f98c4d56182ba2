import ClassWeaver.Proofs.Text.ModifiedUtf8

namespace ClassWeaver

namespace Utf8

open ModifiedUtf8 (decodeFrom_one decodeFrom_pair decodeFrom_triple toNat_cases)

lemma decodeFrom_four {a b c d : UInt8} {rest : Bytes} {done : List Char} (h : ¬ a < 0x80)
    (h1 : ¬ a < 0xE0) (h2 : ¬ a < 0xF0) :
    decodeFrom (a :: b :: c :: d :: rest) done =
      if a < 0xF8 && isTail b && isTail c && isTail d &&
          0x10000 ≤ a.toNat % 16 * 262144 + tailBits b * 4096 + tailBits c * 64 + tailBits d &&
          a.toNat % 16 * 262144 + tailBits b * 4096 + tailBits c * 64 + tailBits d < 0x110000 then
        decodeFrom rest (Char.ofNat
          (a.toNat % 16 * 262144 + tailBits b * 4096 + tailBits c * 64 + tailBits d) :: done)
      else none := by
  rw [decodeFrom.eq_def]
  simp only [if_neg h, if_neg h1, if_neg h2]

lemma decodeFrom_quadruple {x y z w : Nat} (hx : x < 8) (hy : y < 64) (hz : z < 64) (hw : w < 64)
    {rest : Bytes} {done : List Char} :
    decodeFrom
        (UInt8.ofNat (0xF0 + x) :: UInt8.ofNat (0x80 + y) :: UInt8.ofNat (0x80 + z) ::
          UInt8.ofNat (0x80 + w) :: rest) done =
      if 0x10000 ≤ x * 262144 + y * 4096 + z * 64 + w ∧
          x * 262144 + y * 4096 + z * 64 + w < 0x110000 then
        decodeFrom rest (Char.ofNat (x * 262144 + y * 4096 + z * 64 + w) :: done)
      else none := by
  obtain ⟨hlow, hlead, hhigh, hmax, hbits⟩ := lead_four hx
  rw [decodeFrom_four hlow hlead hhigh, hbits, tailBits_byte hy, tailBits_byte hz, tailBits_byte hw,
    isTail_byte hy, isTail_byte hz, isTail_byte hw, decide_eq_true hmax]
  simp

lemma decodeFrom_encodeChar (c : Char) (rest : Bytes) (done : List Char) :
    decodeFrom (String.utf8EncodeChar c ++ rest) done = decodeFrom rest (c :: done) := by
  have hvalid := toNat_cases c
  have hchar : Char.ofNat c.toNat = c := Char.ofNat_toNat c
  unfold String.utf8EncodeChar
  rw [show c.val.toNat = c.toNat from rfl]
  generalize c.toNat = n at hvalid hchar
  dsimp only
  by_cases h1 : n ≤ 127
  · rw [if_pos h1, List.singleton_append,
      decodeFrom_one ((byte_lt_iff (by omega) _).2 (show n < 128 by omega)), toNat_byte (by omega),
      hchar]
  rw [if_neg h1]
  by_cases h2 : n ≤ 2047
  · have hvalue : n / 64 % 32 * 64 + n % 64 = n := by omega
    rw [if_pos h2, List.cons_append, List.singleton_append, Nat.add_comm _ 192,
      Nat.add_comm _ 128, decodeFrom_pair (by omega) (by omega), hvalue, if_pos (by omega), hchar]
  rw [if_neg h2]
  by_cases h3 : n ≤ 65535
  · have hvalue : n / 4096 % 16 * 4096 + n / 64 % 64 * 64 + n % 64 = n := by omega
    have hclear : ¬ (0xD800 ≤ n ∧ n < 0xE000) := by omega
    rw [if_pos h3]
    simp only [List.cons_append, List.nil_append]
    rw [Nat.add_comm _ 224, Nat.add_comm _ 128, Nat.add_comm (n % 64) 128,
      decodeFrom_triple (by omega) (by omega) (by omega), hvalue, if_pos ⟨by omega, hclear⟩, hchar]
  · have hvalue : n / 262144 % 8 * 262144 + n / 4096 % 64 * 4096 + n / 64 % 64 * 64 + n % 64 = n := by
      omega
    rw [if_neg h3]
    simp only [List.cons_append, List.nil_append]
    rw [Nat.add_comm _ 240, Nat.add_comm _ 128, Nat.add_comm (n / 64 % 64) 128,
      Nat.add_comm (n % 64) 128, decodeFrom_quadruple (by omega) (by omega) (by omega) (by omega),
      hvalue, if_pos (by omega), hchar]

theorem decode?_encode (text : String) : decode? (encode text) = some text := by
  have hfrom : ∀ cs done : List Char,
      decodeFrom (cs.flatMap String.utf8EncodeChar) done = some (done.reverse ++ cs) := by
    intro cs
    induction cs with
    | nil => intro done; simp [decodeFrom]
    | cons c cs ih =>
      intro done
      rw [List.flatMap_cons, decodeFrom_encodeChar, ih]
      simp
  rw [decode?, encode, hfrom]
  simp

lemma encode_injective : Function.Injective encode := by
  intro text text' h
  have := congrArg decode? h
  rwa [decode?_encode, decode?_encode, Option.some.injEq] at this

end Utf8

end ClassWeaver
