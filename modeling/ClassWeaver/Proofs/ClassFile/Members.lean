import ClassWeaver.ClassFile.Parser
import ClassWeaver.Proofs.ClassFile.Readers

namespace ClassWeaver

open Read

lemma toNat_count32 {n : Nat} (h : n < 4294967296) : (UInt32.ofNat n).toNat = n := by
  rw [UInt32.toNat_ofNat']
  omega

namespace Attribute

def Fits (pool : Pool) (a : Attribute) : Prop :=
  pool.utf8 a.nameIndex = .ok a.name ∧ a.body.length < 4294967296

lemma length_encode (a : Attribute) : a.encode.length = a.size := by
  simp only [encode, count32, List.length_append, length_be16, length_be32, size, headerSize]
  omega

lemma length_encodeAll (as : List Attribute) : (encodeAll as).length = sizeAll as := by
  simp only [encodeAll, List.length_append, length_flatMap, length_encode]
  rfl

lemma reads (pool : Pool) : Reads (Attribute.read pool) (Fits pool) encode := by
  rintro ⟨pos, bs⟩ a ⟨pos', rest⟩
  simp only [Attribute.read, u16_then_iff, lift_then_iff, u32_then_iff, bytes_then_iff,
    pure_eq_ok_iff, Reader.mk.injEq]
  constructor
  · rintro ⟨nameIndex, _, rfl, name, hname, length, _, rfl, body, _, hlen, rfl, rfl, rfl, rfl⟩
    have hlt := length.toNat_lt
    have hcount : count32 body.length = be32 length := by
      rw [count32, hlen, UInt32.ofNat_toNat]
    refine ⟨⟨hname, by dsimp only; omega⟩, ?_, ?_⟩
    · simp only [encode, hcount, List.append_assoc]
    · simp only [length_encode, size, headerSize]
      omega
  · rintro ⟨⟨hname, hlen⟩, rfl, rfl⟩
    refine ⟨a.nameIndex, _, List.append_assoc .., a.name, hname, UInt32.ofNat a.body.length, _,
      List.append_assoc .., a.body, rest, (toNat_count32 hlen).symm, rfl, rfl, ?_, rfl⟩
    rw [length_encode, size, headerSize]
    omega

lemma reads_all (pool : Pool) : Reads (readAll pool) (AllFit (Fits pool)) encodeAll :=
  (reads pool).counted "attributes"

end Attribute

namespace Handler

def Known (pool : Pool) (h : Handler) : Prop :=
  h.catchType ≠ 0 → ∃ name, pool.className h.catchType = .ok name

end Handler

namespace Code

lemma reads_handler (pool : Pool) (method : String) (length : Nat) :
    Reads (readHandler pool method length) (fun h => h.Fits length ∧ h.Known pool)
      Handler.encode := by
  rintro ⟨pos, bs⟩ h ⟨pos', rest⟩
  simp only [readHandler, u16_then_iff, else_fail_iff]
  constructor
  · rintro ⟨start, _, rfl, stop, _, rfl, target, _, rfl, catchType, _, rfl, hfit, hr⟩
    split at hr
    · obtain ⟨name, hname, hr⟩ := lift_then_iff.1 hr
      cases hr
      exact ⟨⟨hfit, fun _ => ⟨name, hname⟩⟩, by simp [Handler.encode], rfl⟩
    · next hz =>
      cases hr
      exact ⟨⟨hfit, fun h => absurd h hz⟩, by simp [Handler.encode], rfl⟩
  · rintro ⟨⟨hfit, hknown⟩, rfl, rfl⟩
    refine ⟨h.start, _, List.append_assoc .., h.stop, _, List.append_assoc .., h.target, _,
      List.append_assoc .., h.catchType, rest, rfl, hfit, ?_⟩
    split
    · next hz =>
      obtain ⟨name, hname⟩ := hknown hz
      exact lift_then_iff.2 ⟨name, hname, rfl⟩
    · rfl

structure Fits (pool : Pool) (c : Code) : Prop where
  nonempty : c.bytes ≠ []
  length_le : c.bytes.length ≤ maxLength
  handlers : AllFit (fun h => h.Fits c.bytes.length ∧ h.Known pool) c.handlers
  attributes : AllFit (Attribute.Fits pool) c.attributes

lemma read_iff {pool : Pool} {method : String} {pos : Nat} {bs : Bytes} {c : Code} :
    runAt pos bs (Code.read pool method) = .ok c ↔ c.Fits pool ∧ bs = c.encode := by
  simp only [runAt_eq_ok_iff, Code.read, u16_then_iff, u32_then_iff, then_fail_iff,
    bytes_then_iff, ((reads_handler pool method _).counted _).then_iff,
    (Attribute.reads_all pool).then_iff, remaining_then_iff, else_fail_iff]
  constructor
  · rintro ⟨r', maxStack, _, rfl, maxLocals, _, rfl, length, _, rfl, hl, bytes, _, hlen, rfl,
      handlers, _, hh, rfl, attributes, rest, ha, rfl, hz, hr⟩
    cases hr
    have hcount : count32 bytes.length = be32 length := by
      rw [count32, hlen, UInt32.ofNat_toNat]
    rw [← hlen] at hh hl
    refine ⟨⟨?_, ?_, hh, ha⟩, ?_⟩
    · rintro rfl
      exact hl (.inl rfl)
    · exact Nat.le_of_not_lt fun hlt => hl (.inr hlt)
    · rw [List.length_eq_zero_iff.1 hz]
      simp only [encode, hcount, List.append_assoc, List.append_nil]
  · rintro ⟨⟨hne, hle, hh, ha⟩, rfl⟩
    have hlen : (UInt32.ofNat c.bytes.length).toNat = c.bytes.length := by
      rw [maxLength] at hle
      exact toNat_count32 (by omega)
    refine ⟨_, c.maxStack, _, rfl, c.maxLocals, _, rfl, UInt32.ofNat c.bytes.length, _, rfl, ?_,
      c.bytes, _, hlen.symm, rfl, c.handlers, _, ?_, (List.append_assoc ..).symm, c.attributes, [],
      ha, (List.append_nil _).symm, rfl, rfl⟩
    · rw [hlen]
      rintro (hz | hlt)
      · exact hne (List.length_eq_zero_iff.1 hz)
      · exact Nat.not_lt.2 hle hlt
    · rw [hlen]
      exact hh

end Code

namespace Field

structure Fits (pool : Pool) (f : Field) : Prop where
  name : ∃ name, pool.utf8 f.nameIndex = .ok name
  descriptor : ∃ descriptor, pool.utf8 f.descriptorIndex = .ok descriptor
  attributes : AllFit (Attribute.Fits pool) f.attributes

lemma reads (pool : Pool) : Reads (Field.read pool) (Fits pool) encode := by
  rintro ⟨pos, bs⟩ f ⟨pos', rest⟩
  simp only [Field.read, u16_then_iff, lift_then_iff, (Attribute.reads_all pool).then_iff,
    pure_eq_ok_iff, Reader.mk.injEq]
  constructor
  · rintro ⟨accessFlags, _, rfl, nameIndex, _, rfl, descriptorIndex, _, rfl, name, hn, descriptor,
      hd, attributes, _, ha, rfl, rfl, rfl, rfl⟩
    refine ⟨⟨⟨name, hn⟩, ⟨descriptor, hd⟩, ha⟩, ?_, ?_⟩
    · simp only [encode, List.append_assoc]
    · simp only [encode, List.length_append, length_be16]
      omega
  · rintro ⟨⟨⟨name, hn⟩, ⟨descriptor, hd⟩, ha⟩, rfl, rfl⟩
    refine ⟨f.accessFlags, _, List.append_assoc .., f.nameIndex, _, List.append_assoc ..,
      f.descriptorIndex, _, List.append_assoc .., name, hn, descriptor, hd, f.attributes, rest, ha,
      rfl, rfl, ?_, rfl⟩
    simp only [encode, List.length_append, length_be16]
    omega

end Field

end ClassWeaver
