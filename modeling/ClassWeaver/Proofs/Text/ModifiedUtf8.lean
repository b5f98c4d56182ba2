import Mathlib.Tactic.Lemma
import ClassWeaver.Text.ModifiedUtf8

namespace ClassWeaver

section Bytes

lemma toNat_byte {n : Nat} (hn : n < 256) : (UInt8.ofNat n).toNat = n := by
  rw [UInt8.toNat_ofNat', Nat.mod_eq_of_lt hn]

lemma byte_lt_iff {n : Nat} (hn : n < 256) (b : UInt8) : UInt8.ofNat n < b ↔ n < b.toNat := by
  rw [UInt8.lt_iff_toNat_lt, toNat_byte hn]

lemma le_byte_iff {n : Nat} (hn : n < 256) (b : UInt8) : b ≤ UInt8.ofNat n ↔ b.toNat ≤ n := by
  rw [UInt8.le_iff_toNat_le, toNat_byte hn]

lemma tailBits_byte {n : Nat} (hn : n < 64) : Utf8.tailBits (UInt8.ofNat (0x80 + n)) = n := by
  rw [Utf8.tailBits, toNat_byte (by omega)]
  omega

lemma isTail_byte {n : Nat} (hn : n < 64) : Utf8.isTail (UInt8.ofNat (0x80 + n)) = true := by
  have hlow : (0x80 : UInt8) ≤ UInt8.ofNat (0x80 + n) :=
    (le_byte_iff (by omega) _).2 (Nat.le_add_right 128 n)
  have hhigh : UInt8.ofNat (0x80 + n) < 0xC0 :=
    (byte_lt_iff (by omega) _).2 (show 128 + n < 192 by omega)
  rw [Utf8.isTail, Bool.and_eq_true]
  exact ⟨decide_eq_true hlow, decide_eq_true hhigh⟩

lemma lead_two {n : Nat} (hn : n < 32) :
    ¬ UInt8.ofNat (0xC0 + n) < 0x80 ∧ 0xC0 ≤ UInt8.ofNat (0xC0 + n) ∧
      UInt8.ofNat (0xC0 + n) < 0xE0 ∧ (UInt8.ofNat (0xC0 + n)).toNat % 32 = n := by
  have hbyte : 0xC0 + n < 256 := by omega
  rw [byte_lt_iff hbyte, le_byte_iff hbyte, byte_lt_iff hbyte, toNat_byte hbyte]
  exact ⟨show ¬ 192 + n < 128 by omega, Nat.le_add_right 192 n, show 192 + n < 224 by omega,
    by omega⟩

lemma lead_three {n : Nat} (hn : n < 16) :
    ¬ UInt8.ofNat (0xE0 + n) < 0x80 ∧ ¬ UInt8.ofNat (0xE0 + n) < 0xE0 ∧
      UInt8.ofNat (0xE0 + n) < 0xF0 ∧ (UInt8.ofNat (0xE0 + n)).toNat % 16 = n := by
  have hbyte : 0xE0 + n < 256 := by omega
  rw [byte_lt_iff hbyte, byte_lt_iff hbyte, byte_lt_iff hbyte, toNat_byte hbyte]
  exact ⟨show ¬ 224 + n < 128 by omega, Nat.not_lt.2 (Nat.le_add_right 224 n),
    show 224 + n < 240 by omega, by omega⟩

lemma lead_four {n : Nat} (hn : n < 8) :
    ¬ UInt8.ofNat (0xF0 + n) < 0x80 ∧ ¬ UInt8.ofNat (0xF0 + n) < 0xE0 ∧
      ¬ UInt8.ofNat (0xF0 + n) < 0xF0 ∧ UInt8.ofNat (0xF0 + n) < 0xF8 ∧
        (UInt8.ofNat (0xF0 + n)).toNat % 16 = n := by
  have hbyte : 0xF0 + n < 256 := by omega
  rw [byte_lt_iff hbyte, byte_lt_iff hbyte, byte_lt_iff hbyte, byte_lt_iff hbyte, toNat_byte hbyte]
  exact ⟨show ¬ 240 + n < 128 by omega, show ¬ 240 + n < 224 by omega,
    Nat.not_lt.2 (Nat.le_add_right 240 n), show 240 + n < 248 by omega, by omega⟩

end Bytes

namespace ModifiedUtf8

/-! ### Units -/

section Units

variable {a b c : UInt8} {rest : Bytes} {done : List Nat}

lemma unitsFrom_one (h : a < 0x80) :
    unitsFrom (a :: rest) done = unitsFrom rest (a.toNat :: done) := by
  rw [unitsFrom.eq_def]
  simp only [if_pos h]

lemma unitsFrom_two (h : ¬ a < 0x80) (h1 : 0xC0 ≤ a) (h2 : a < 0xE0) :
    unitsFrom (a :: b :: rest) done =
      unitsFrom rest ((a.toNat % 32 * 64 + Utf8.tailBits b) :: done) := by
  rw [unitsFrom.eq_def]
  simp [h, h1, h2]

lemma unitsFrom_three (h : ¬ a < 0x80) (h1 : ¬ a < 0xE0) (h2 : a < 0xF0) :
    unitsFrom (a :: b :: c :: rest) done =
      unitsFrom rest
        ((a.toNat % 16 * 4096 + Utf8.tailBits b * 64 + Utf8.tailBits c) :: done) := by
  have h3 : 0xE0 ≤ a := UInt8.not_lt.1 h1
  rw [unitsFrom.eq_def]
  simp [h, h1, h2, h3]

lemma unitsFrom_encodeUnit {u : Nat} (hu : u < 0x10000) (rest : Bytes) (done : List Nat) :
    unitsFrom (encodeUnit u ++ rest) done = unitsFrom rest (u :: done) := by
  unfold encodeUnit
  by_cases h1 : 0 < u ∧ u < 0x80
  · have ha : UInt8.ofNat u < 0x80 := (byte_lt_iff (by omega) _).2 h1.2
    rw [if_pos (by simpa using h1), List.singleton_append, unitsFrom_one ha, toNat_byte (by omega)]
  rw [if_neg (by simpa using h1)]
  by_cases h2 : u < 0x800
  · obtain ⟨hlow, hlead, hhigh, hbits⟩ := lead_two (n := u / 64) (by omega)
    have hvalue : u / 64 * 64 + u % 64 = u := Nat.div_add_mod' u 64
    rw [if_pos h2, List.cons_append, List.singleton_append, unitsFrom_two hlow hlead hhigh, hbits,
      tailBits_byte (by omega), hvalue]
  · obtain ⟨hlow, hlead, hhigh, hbits⟩ := lead_three (n := u / 4096) (by omega)
    have hvalue : u / 4096 * 4096 + u / 64 % 64 * 64 + u % 64 = u := by omega
    rw [if_neg h2]
    simp only [List.cons_append, List.nil_append]
    rw [unitsFrom_three hlow hlead hhigh, hbits, tailBits_byte (by omega), tailBits_byte (by omega),
      hvalue]

lemma unitsFrom_flatMap {us : List Nat} (hu : ∀ u ∈ us, u < 0x10000) (done : List Nat) :
    unitsFrom (us.flatMap encodeUnit) done = done.reverse ++ us := by
  induction us generalizing done with
  | nil =>
    rw [List.flatMap_nil, unitsFrom.eq_def]
    simp
  | cons u us ih =>
    rw [List.flatMap_cons, unitsFrom_encodeUnit (hu u List.mem_cons_self),
      ih fun v hv => hu v (List.mem_cons_of_mem u hv)]
    simp

end Units

/-! ### Characters -/

lemma toNat_cases (c : Char) :
    c.toNat < 0xD800 ∨ 0xDFFF < c.toNat ∧ c.toNat < 0x110000 := c.valid

lemma units_lt (c : Char) : ∀ u ∈ Utf16.units c, u < 0x10000 := by
  intro u hu
  have hc := toNat_cases c
  unfold Utf16.units at hu
  split at hu
  · rw [List.mem_singleton.1 hu]
    assumption
  · simp only [List.mem_cons, List.not_mem_nil, or_false] at hu
    omega

lemma decodeFrom_units (c : Char) (rest : List Nat) (done : List Char) :
    Utf16.decodeFrom (Utf16.units c ++ rest) done = Utf16.decodeFrom rest (c :: done) := by
  have hc := toNat_cases c
  unfold Utf16.units
  split
  · next hlow =>
    have hhigh : Utf16.isHigh c.toNat = false := by
      simp only [Utf16.isHigh, Bool.and_eq_false_iff, decide_eq_false_iff_not]
      omega
    have hlow' : Utf16.isLow c.toNat = false := by
      simp only [Utf16.isLow, Bool.and_eq_false_iff, decide_eq_false_iff_not]
      omega
    rw [List.singleton_append, Utf16.decodeFrom.eq_def]
    simp [hhigh, hlow', Char.ofNat_toNat]
  · next hwide =>
    have hhigh : Utf16.isHigh (0xD800 + (c.toNat - 0x10000) / 1024) = true := by
      simp only [Utf16.isHigh, Bool.and_eq_true, decide_eq_true_eq]
      omega
    have hlow : Utf16.isLow (0xDC00 + (c.toNat - 0x10000) % 1024) = true := by
      simp only [Utf16.isLow, Bool.and_eq_true, decide_eq_true_eq]
      omega
    have hvalue : 0x10000 + (0xD800 + (c.toNat - 0x10000) / 1024 - 0xD800) * 1024 +
        (0xDC00 + (c.toNat - 0x10000) % 1024 - 0xDC00) = c.toNat := by omega
    rw [List.cons_append, List.singleton_append, Utf16.decodeFrom.eq_def]
    simp only [hhigh, hlow, if_true, hvalue, Char.ofNat_toNat]

lemma decodeFrom_flatMap (cs done : List Char) :
    Utf16.decodeFrom (cs.flatMap Utf16.units) done = done.reverse ++ cs := by
  induction cs generalizing done with
  | nil =>
    rw [List.flatMap_nil, Utf16.decodeFrom.eq_def]
    simp
  | cons c cs ih =>
    rw [List.flatMap_cons, decodeFrom_units, ih]
    simp

lemma encode_eq (text : String) :
    encode text = (text.toList.flatMap Utf16.units).flatMap encodeUnit := by
  rw [encode, List.flatMap_assoc]

lemma flatMap_units_lt (cs : List Char) : ∀ u ∈ cs.flatMap Utf16.units, u < 0x10000 := by
  intro u hu
  obtain ⟨c, -, hc⟩ := List.mem_flatMap.1 hu
  exact units_lt c u hc

lemma decodeUnits_encode (text : String) : decodeUnits (encode text) = text := by
  rw [decodeUnits, encode_eq, unitsFrom_flatMap (flatMap_units_lt _), List.reverse_nil,
    List.nil_append, decodeFrom_flatMap]
  simp

/-! ### Well-formed text -/

section WellFormed

variable {a b c d : UInt8} {rest : Bytes} {done : List Char}

lemma decodeFrom_one (h : a < 0x80) :
    Utf8.decodeFrom (a :: rest) done = Utf8.decodeFrom rest (Char.ofNat a.toNat :: done) := by
  rw [Utf8.decodeFrom.eq_def]
  simp only [if_pos h]

lemma decodeFrom_two (h : ¬ a < 0x80) (h1 : a < 0xE0) :
    Utf8.decodeFrom (a :: b :: rest) done =
      if 0xC0 ≤ a && Utf8.isTail b && 0x80 ≤ a.toNat % 32 * 64 + Utf8.tailBits b then
        Utf8.decodeFrom rest (Char.ofNat (a.toNat % 32 * 64 + Utf8.tailBits b) :: done)
      else none := by
  rw [Utf8.decodeFrom.eq_def]
  simp only [if_neg h, if_pos h1]

lemma decodeFrom_three (h : ¬ a < 0x80) (h1 : ¬ a < 0xE0) (h2 : a < 0xF0) :
    Utf8.decodeFrom (a :: b :: c :: rest) done =
      if Utf8.isTail b && Utf8.isTail c &&
          0x800 ≤ a.toNat % 16 * 4096 + Utf8.tailBits b * 64 + Utf8.tailBits c &&
          !(0xD800 ≤ a.toNat % 16 * 4096 + Utf8.tailBits b * 64 + Utf8.tailBits c &&
            a.toNat % 16 * 4096 + Utf8.tailBits b * 64 + Utf8.tailBits c < 0xE000) then
        Utf8.decodeFrom rest
          (Char.ofNat (a.toNat % 16 * 4096 + Utf8.tailBits b * 64 + Utf8.tailBits c) :: done)
      else none := by
  rw [Utf8.decodeFrom.eq_def]
  simp only [if_neg h, if_neg h1, if_pos h2]

lemma decodeFrom_pair {x y : Nat} (hx : x < 32) (hy : y < 64) :
    Utf8.decodeFrom (UInt8.ofNat (0xC0 + x) :: UInt8.ofNat (0x80 + y) :: rest) done =
      if 0x80 ≤ x * 64 + y then Utf8.decodeFrom rest (Char.ofNat (x * 64 + y) :: done)
      else none := by
  obtain ⟨hlow, hlead, hhigh, hbits⟩ := lead_two hx
  rw [decodeFrom_two hlow hhigh, hbits, tailBits_byte hy, isTail_byte hy, decide_eq_true hlead]
  simp

lemma decodeFrom_triple {x y z : Nat} (hx : x < 16) (hy : y < 64) (hz : z < 64) :
    Utf8.decodeFrom
        (UInt8.ofNat (0xE0 + x) :: UInt8.ofNat (0x80 + y) :: UInt8.ofNat (0x80 + z) :: rest) done =
      if 0x800 ≤ x * 4096 + y * 64 + z ∧
          ¬ (0xD800 ≤ x * 4096 + y * 64 + z ∧ x * 4096 + y * 64 + z < 0xE000) then
        Utf8.decodeFrom rest (Char.ofNat (x * 4096 + y * 64 + z) :: done)
      else none := by
  obtain ⟨hlow, hlead, hhigh, hbits⟩ := lead_three hx
  rw [decodeFrom_three hlow hlead hhigh, hbits, tailBits_byte hy, tailBits_byte hz, isTail_byte hy,
    isTail_byte hz]
  simp [Decidable.imp_iff_not_or]

lemma decodeFrom_encodeUnit {u : Nat} (hu : u < 0x10000) (rest : Bytes) (done : List Char) :
    Utf8.decodeFrom (encodeUnit u ++ rest) done =
      if u = 0 ∨ 0xD800 ≤ u ∧ u < 0xE000 then none
      else Utf8.decodeFrom rest (Char.ofNat u :: done) := by
  unfold encodeUnit
  by_cases h1 : 0 < u ∧ u < 0x80
  · have ha : UInt8.ofNat u < 0x80 := (byte_lt_iff (by omega) _).2 h1.2
    rw [if_pos (by simpa using h1), List.singleton_append, decodeFrom_one ha, toNat_byte (by omega),
      if_neg (by omega)]
  rw [if_neg (by simpa using h1)]
  by_cases h2 : u < 0x800
  · -- only zero takes more bytes than it has to
    have hvalue : u / 64 * 64 + u % 64 = u := Nat.div_add_mod' u 64
    rw [if_pos h2, List.cons_append, List.singleton_append,
      decodeFrom_pair (by omega) (by omega), hvalue]
    by_cases hz : u = 0
    · rw [if_neg (by omega), if_pos (.inl hz)]
    · rw [if_pos (by omega), if_neg (by omega)]
  · have hvalue : u / 4096 * 4096 + u / 64 % 64 * 64 + u % 64 = u := by omega
    rw [if_neg h2]
    simp only [List.cons_append, List.nil_append]
    rw [decodeFrom_triple (by omega) (by omega) (by omega), hvalue]
    by_cases hs : 0xD800 ≤ u ∧ u < 0xE000
    · rw [if_neg fun h => h.2 hs, if_pos (.inr hs)]
    · rw [if_pos ⟨by omega, hs⟩, if_neg (by omega)]

def isPlain (c : Char) : Bool := c.toNat != 0 && c.toNat < 0x10000

lemma isPlain_iff (c : Char) : isPlain c = true ↔ c.toNat ≠ 0 ∧ c.toNat < 0x10000 := by
  simp [isPlain]

lemma decodeFrom_encodeChar (c : Char) (rest : Bytes) (done : List Char) :
    Utf8.decodeFrom ((Utf16.units c).flatMap encodeUnit ++ rest) done =
      if isPlain c then Utf8.decodeFrom rest (c :: done) else none := by
  have hc := toNat_cases c
  simp only [isPlain_iff]
  unfold Utf16.units
  split
  · next hlow =>
    rw [List.flatMap_singleton, decodeFrom_encodeUnit hlow]
    by_cases hz : c.toNat = 0
    · rw [if_pos (.inl hz), if_neg fun h => h.1 hz]
    · have hunit : ¬ (c.toNat = 0 ∨ 0xD800 ≤ c.toNat ∧ c.toNat < 0xE000) := by omega
      rw [if_neg hunit, if_pos ⟨hz, hlow⟩, Char.ofNat_toNat]
  · next hwide =>
    -- the first of two units is a surrogate
    have hsurrogate : 0xD800 + (c.toNat - 0x10000) / 1024 = 0 ∨
        0xD800 ≤ 0xD800 + (c.toNat - 0x10000) / 1024 ∧
          0xD800 + (c.toNat - 0x10000) / 1024 < 0xE000 := by omega
    rw [List.flatMap_cons, List.append_assoc, decodeFrom_encodeUnit (by omega),
      if_pos hsurrogate, if_neg fun h => hwide h.2]

lemma decodeFrom_encodeChars (cs done : List Char) :
    Utf8.decodeFrom (cs.flatMap fun c => (Utf16.units c).flatMap encodeUnit) done =
      if cs.all isPlain then some (done.reverse ++ cs) else none := by
  induction cs generalizing done with
  | nil => simp [Utf8.decodeFrom]
  | cons c cs ih =>
    rw [List.flatMap_cons, decodeFrom_encodeChar, List.all_cons]
    cases hc : isPlain c with
    | true =>
      rw [if_pos rfl, ih, Bool.true_and, List.reverse_cons, List.append_assoc,
        List.singleton_append]
    | false => rfl

lemma utf8_decode?_encode (text : String) :
    Utf8.decode? (encode text) =
      if text.toList.all isPlain then some text else none := by
  rw [Utf8.decode?, encode, decodeFrom_encodeChars]
  split
  · simp
  · rfl

end WellFormed

theorem decode_encode (text : String) : decode (encode text) = text := by
  rw [decode, utf8_decode?_encode]
  split
  · exact Option.getD_some
  · exact decodeUnits_encode text

/-- Both ways to read agree on what is written, and which one is taken is up to the characters. -/
theorem readings_of_encode (text : String) :
    decode (encode text) = text ∧ decodeUnits (encode text) = text ∧
      Utf8.decode? (encode text) =
        if text.toList.all isPlain then some text else none :=
  ⟨decode_encode text, decodeUnits_encode text, utf8_decode?_encode text⟩

end ModifiedUtf8

end ClassWeaver
