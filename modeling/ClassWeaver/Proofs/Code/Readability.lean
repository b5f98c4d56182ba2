import ClassWeaver.Proofs.ClassFile.Contents
import ClassWeaver.Proofs.Code.Insertion
import ClassWeaver.Proofs.Code.LengthBounds

namespace ClassWeaver

open Instruction Read

namespace Code

variable {pool : Pool} {c : Code}

lemma body_length_le {a : Attribute} (ha : a ∈ c.attributes) : a.body.length ≤ c.encode.length := by
  have hall := total_le_of_mem Attribute.size ha
  simp only [Code.encode, List.length_append, Attribute.length_encodeAll, Attribute.sizeAll]
  rw [Attribute.size] at hall
  omega

lemma Fits.withMaxStack (h : c.Fits pool) (maxStack : UInt16) :
    Code.Fits pool { c with maxStack } :=
  ⟨h.nonempty, h.length_le, h.handlers, h.attributes⟩

end Code

namespace Relocation

variable {pool : Pool} {m : Placement}

def SameName (a b : Attribute) : Prop := a.nameIndex = b.nameIndex ∧ a.name = b.name

lemma moveAttributes_spec {as : List Attribute} {moved moved' : Moved}
    (h : moveAttributes pool m as moved = .ok moved') :
    moved'.attributes.length ≤ moved.attributes.length + as.length ∧
      ∀ b ∈ moved'.attributes, b ∈ moved.attributes ∨ ∃ a ∈ as, SameName a b := by
  induction as generalizing moved with
  | nil =>
    cases h
    exact ⟨Nat.le_refl _, fun b hb => .inl hb⟩
  | cons a as ih =>
    obtain ⟨next, hnext, h⟩ := moveAttributes_cons_iff.1 h
    obtain ⟨hlen, hall⟩ := ih h
    have hstep := moveAttribute_spec hnext
    constructor
    · have hone : next.attributes.length ≤ moved.attributes.length + 1 := by
        rcases hstep with he | ⟨body, -, he⟩ <;> simp [he]
      rw [List.length_cons]
      omega
    · intro b hb
      rcases hall b hb with hold | ⟨c, hc, hs⟩
      · rcases hstep with he | ⟨body, -, he⟩
        · exact .inl (he ▸ hold)
        · rw [he] at hold
          rcases List.mem_cons.1 hold with rfl | hold
          · exact .inr ⟨a, List.mem_cons_self, rfl, rfl⟩
          · exact .inl hold
      · exact .inr ⟨c, List.mem_cons_of_mem a hc, hs⟩

end Relocation

namespace Relocates

variable {filePool pool : Pool} {code : Code} {ins : Insertion} {body : Body}
  {placed : List (Instruction × Place)} {stop : Nat}

lemma handler_fits (h : Relocates filePool code ins body placed stop) {old new : Handler}
    (hmove : Relocation.moveHandler (Placement.of placed stop) old = .ok new)
    (hf : old.Fits code.bytes.length) : new.Fits stop ∧ new.catchType = old.catchType := by
  obtain ⟨start, hs, hmove⟩ := bind_eq_ok_iff.1 hmove
  obtain ⟨last, hl, hmove⟩ := bind_eq_ok_iff.1 hmove
  obtain ⟨target, ht, hmove⟩ := bind_eq_ok_iff.1 hmove
  cases hmove
  obtain ⟨p, hp, hps⟩ := h.pc_spec hs
  obtain ⟨q, hq, hqs⟩ := h.pc_spec hl
  obtain ⟨t, ht, hts⟩ := h.pc_spec ht
  obtain ⟨hrange, -, htarget⟩ := hf
  have hend : (Placement.of placed stop).place? code.bytes.length = some ⟨stop, stop⟩ := by
    rw [h.length_code]
    exact Placement.place?_end h.tiles
  have horder := Placement.place?_lt h.places h.tiles hp hq (UInt16.lt_iff_toNat_lt.1 hrange)
  have hinside := Placement.place?_lt h.places h.tiles ht hend htarget
  have hpb := Placement.block_le h.places h.tiles hp
  have hqb := Placement.block_le h.places h.tiles hq
  have htb := Placement.block_le h.places h.tiles ht
  dsimp only at hinside
  refine ⟨⟨?_, ?_, ?_⟩, rfl⟩
  · rw [UInt16.lt_iff_toNat_lt, hps, hqs]
    omega
  · rw [hqs]
    omega
  · rw [hts]
    omega

lemma fits (h : Relocates filePool code ins body placed stop) {p q : Pool} (hf : code.Fits p)
    (hq : p.Extends q) (hstop : body.code.bytes.length = stop) (hne : body.code.bytes ≠ [])
    (hshort : body.code.encode.length < 4294967296) : body.code.Fits q := by
  refine ⟨hne, hstop ▸ h.stop_le, ⟨?_, ?_⟩, ?_, ?_⟩
  · rw [← h.handlers.length_eq]
    exact hf.handlers.1
  · intro new hnew
    obtain ⟨old, hold, hmove⟩ := exists_of_forall₂ h.handlers.flip hnew
    obtain ⟨hfits, hknown⟩ := hf.handlers.2 old hold
    obtain ⟨hnewFits, hcatch⟩ := h.handler_fits hmove hfits
    rw [hstop]
    refine ⟨hnewFits, ?_⟩
    have hknown' := hknown.mono hq
    unfold Handler.Known at hknown' ⊢
    rwa [hcatch]
  · obtain ⟨moved, hm, ha, -⟩ := h.attributes
    have hlen := (Relocation.moveAttributes_spec hm).1
    rw [ha, List.length_reverse]
    have hold := hf.attributes.1
    simp only [List.length_nil, Nat.zero_add] at hlen
    omega
  · obtain ⟨moved, hm, ha, -⟩ := h.attributes
    intro b hb
    refine ⟨?_, Nat.lt_of_le_of_lt (Code.body_length_le hb) hshort⟩
    rw [ha] at hb
    rcases (Relocation.moveAttributes_spec hm).2 b (List.mem_reverse.1 hb) with
      hnone | ⟨a, hmem, hs⟩
    · cases hnone
    · rw [← hs.1, ← hs.2]
      exact hq.utf8 (hf.attributes.2 a hmem).1

end Relocates

end ClassWeaver
