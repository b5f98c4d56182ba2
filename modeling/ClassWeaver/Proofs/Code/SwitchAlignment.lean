import ClassWeaver.Proofs.Code.InstructionEncoding

/-! A switch is written for the place where it stands: it reads back there at every alignment, and
one that was read is written with the same bytes, up to those that only fill the gap. -/

namespace ClassWeaver

namespace Opcode

lemma shape?_of_isSwitch {opcode : UInt8} (h : isSwitch opcode = true) :
    shape? opcode = some .switch := by
  rw [isSwitch, Bool.or_eq_true, beq_iff_eq, beq_iff_eq] at h
  rcases h with rfl | rfl <;> decide

end Opcode

namespace Switch

def instructionAt (opcode : UInt8) (offset : Nat) (s : Switch) : Instruction :=
  ⟨offset, opcode, .switch (List.replicate (paddingAt offset) 0) s⟩

lemma size_instructionAt (opcode : UInt8) (offset : Nat) (s : Switch) :
    (s.instructionAt opcode offset).size = s.sizeAt offset := by
  simp only [instructionAt, Instruction.size, Operand.size, List.length_replicate, sizeAt]
  omega

lemma eq_encode_of_encodeAt? {opcode : UInt8} {offset : Nat} {s : Switch} {bs : Bytes}
    (h : s.encodeAt? opcode offset = some bs) : bs = (s.instructionAt opcode offset).encode := by
  obtain ⟨operands, hs, rfl⟩ := Option.map_eq_some_iff.1 h
  rw [eq_spell_of_encode? hs]
  rfl

lemma encodeAt?_eq_none_iff {opcode : UInt8} {s : Switch} (hs : s.Fits opcode) (offset : Nat) :
    s.encodeAt? opcode offset = none ↔ s.Overflows := by
  rw [encodeAt?, Option.map_eq_none_iff, encode?_eq_none_iff hs]

lemma paddingAt_lt (offset : Nat) : paddingAt offset < 4 := Nat.mod_lt _ (by decide)

lemma sizeAt_lt {s : Switch} (hc : s.cases.length < 268435456) (offset : Nat) :
    s.sizeAt offset < 4294967296 := by
  have hp := paddingAt_lt offset
  unfold sizeAt size
  split <;> omega

lemma read?_encode_instructionAt {opcode : UInt8} {s : Switch}
    (ho : Opcode.isSwitch opcode = true) (hs : s.Fits opcode) (offset : Nat) (rest : Bytes) :
    Instruction.read? offset ((s.instructionAt opcode offset).encode ++ rest) =
      some (s.instructionAt opcode offset, rest) := by
  have hf : (s.instructionAt opcode offset).operand.Fits opcode offset :=
    ⟨Opcode.shape?_of_isSwitch ho, List.length_replicate, hs⟩
  have hx := Operand.read?_encode_append hf rest
  rw [Instruction.encode, List.cons_append, Instruction.read?]
  exact congrArg (Option.map _) hx

lemma exists_of_read? {offset : Nat} {bs rest : Bytes} {i : Instruction}
    (h : Instruction.read? offset bs = some (i, rest)) (ho : Opcode.isSwitch i.opcode = true) :
    ∃ padding s, i = ⟨offset, i.opcode, .switch padding s⟩ ∧
      padding.length = paddingAt offset ∧ s.Fits i.opcode ∧
        bs = i.opcode :: (padding ++ s.spell) ++ rest := by
  cases bs with
  | nil => cases h
  | cons opcode bs =>
    obtain ⟨⟨x, rest'⟩, hx, h⟩ := Option.map_eq_some_iff.1 h
    cases h
    obtain ⟨hf, rfl⟩ := Operand.fits_of_read? hx
    have hshape := Opcode.shape?_of_isSwitch ho
    -- no other operand has the shape of a switch
    cases x with
    | plain bytes => rcases hf with hf | ⟨hf, -⟩ <;> rw [hshape] at hf <;> cases hf
    | near delta => exact absurd (hshape.symm.trans hf) (by decide)
    | far delta => exact absurd (hshape.symm.trans hf) (by decide)
    | switch padding s => exact ⟨padding, s, rfl, hf.2.1, hf.2.2, rfl⟩

/-- A switch that is written reads back, and one that was read is written as it was read, but for
the bytes in its gap. Only a table that ends with the greatest word is not written. -/
theorem encodeAt_inverse_of_read (code : Bytes) :
    (∀ (opcode : UInt8) (s : Switch) (before rest : Bytes), Opcode.isSwitch opcode = true →
      s.Fits opcode → s.cases.length < 268435456 →
      (s.encodeAt? opcode before.length = none ↔
        ∃ low, s.low = some low ∧ low.toInt + s.cases.length = 2147483648) ∧
      ∀ written, s.encodeAt? opcode before.length = some written →
        code = before ++ written ++ rest →
        written.length = s.sizeAt before.length ∧ s.sizeAt before.length < 4294967296 ∧
          Instruction.read? before.length (code.drop before.length) =
            some (s.instructionAt opcode before.length, rest) ∧
          (s.instructionAt opcode before.length).size = s.sizeAt before.length) ∧
    ∀ (offset : Nat) (i : Instruction) (rest : Bytes),
      Instruction.read? offset (code.drop offset) = some (i, rest) →
      Opcode.isSwitch i.opcode = true →
      ∃ padding s, i = ⟨offset, i.opcode, .switch padding s⟩ ∧
        code.drop offset = i.opcode :: (padding ++ s.spell) ++ rest ∧
        i.size = s.sizeAt offset ∧ s.Fits i.opcode ∧
        (s.encodeAt? i.opcode offset = none ↔ s.Overflows) ∧
        ∀ written, s.encodeAt? i.opcode offset = some written →
          written = i.opcode :: (List.replicate padding.length 0 ++ s.spell) := by
  constructor
  · intro opcode s before rest ho hs hc
    have hfew : ¬ 2147483648 ≤ s.cases.length := by omega
    refine ⟨by simp only [encodeAt?_eq_none_iff hs, Overflows, hfew, or_false], ?_⟩
    rintro written hw rfl
    have hwritten := eq_encode_of_encodeAt? hw
    have hlength : written.length = s.sizeAt before.length := by
      rw [hwritten, Instruction.length_encode, size_instructionAt]
    refine ⟨hlength, sizeAt_lt hc _, ?_, size_instructionAt ..⟩
    rw [List.append_assoc, List.drop_left, hwritten]
    exact read?_encode_instructionAt ho hs before.length rest
  · intro offset i rest h ho
    obtain ⟨padding, s, hi, hp, hs, hcode⟩ := exists_of_read? h ho
    have hsize : i.size = s.sizeAt offset := by
      rw [hi, ← size_instructionAt i.opcode offset s]
      simp only [instructionAt, Instruction.size, Operand.size, List.length_replicate, hp]
    refine ⟨padding, s, hi, hcode, hsize, hs, encodeAt?_eq_none_iff hs offset, ?_⟩
    intro written hw
    rw [eq_encode_of_encodeAt? hw, hp]
    rfl

theorem encodeAt_inverse_of_read_sample :
    let s : Switch := ⟨9, some 2147483646, [(2147483646, 5)]⟩
    let top : Switch := ⟨9, some 2147483646, [(2147483646, 5), (2147483647, 5)]⟩
    let written : Bytes :=
      [0xaa, 0, 0, 0, 0, 0, 9, 0x7f, 0xff, 0xff, 0xfe, 0x7f, 0xff, 0xff, 0xfe, 0, 0, 0, 5]
    let code : Bytes :=
      [0x00, 0xaa, 7, 8, 0, 0, 0, 9, 0x7f, 0xff, 0xff, 0xfe, 0x7f, 0xff, 0xff, 0xfe, 0, 0, 0, 5]
    Instruction.read? 1 ((0x00 :: written).drop 1) =
        some (s.instructionAt Opcode.tableswitch 1, []) ∧
      top.encodeAt? Opcode.tableswitch 1 = none ∧
      ∃ (padding : Bytes) (s : Switch),
        code.drop 1 = Opcode.tableswitch :: (padding ++ s.spell) ++ [] := by
  intro s top written code
  have hs : s.Fits Opcode.tableswitch := ⟨rfl, by decide, by decide, rfl, trivial⟩
  have htop : top.Fits Opcode.tableswitch := ⟨rfl, by decide, by decide, rfl, by decide, trivial⟩
  have hw : s.encodeAt? Opcode.tableswitch 1 = some written := by decide +kernel
  have hwritten := ((encodeAt_inverse_of_read (0x00 :: written)).1 Opcode.tableswitch s [0x00] []
    (by decide) hs (by decide)).2 written hw (by simp)
  have hnone := ((encodeAt_inverse_of_read []).1 Opcode.tableswitch top [0x00] [] (by decide) htop
    (by decide)).1.2 ⟨2147483646, rfl, by decide⟩
  have hread : Instruction.read? 1 (code.drop 1) =
      some (⟨1, Opcode.tableswitch, .switch [7, 8] s⟩, []) := by decide +kernel
  obtain ⟨padding, s', -, hcode, -⟩ :=
    (encodeAt_inverse_of_read code).2 1 _ [] hread (by decide)
  exact ⟨hwritten.2.2.1, hnone, padding, s', hcode⟩

end Switch

end ClassWeaver
