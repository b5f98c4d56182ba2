import ClassWeaver.Proofs.Pool.PoolBytes
import ClassWeaver.Proofs.Text.ModifiedUtf8

namespace ClassWeaver

open Read

def Constant.IsShort (c : Constant) : Prop :=
  ∀ text, c = .utf8 text → (ModifiedUtf8.encode text).length ≤ 65535

instance (c : Constant) : Decidable c.IsShort :=
  match c with
  | .utf8 text => decidable_of_iff ((ModifiedUtf8.encode text).length ≤ 65535)
    ⟨fun h _ he => Constant.utf8.inj he ▸ h, fun h => h text rfl⟩
  | .integer _ | .float _ | .long _ | .double _ | .classRef _ | .string _ | .fieldRef _ _
  | .methodRef _ _ | .interfaceMethodRef _ _ | .nameAndType _ _ | .methodHandle _ _
  | .methodType _ | .dynamic _ _ | .invokeDynamic _ _ | .moduleRef _ | .packageRef _
  | .unusable => isTrue nofun

lemma Constant.spelledBy_encode {c : Constant} (narrow : c.isWide = false) (usable : c ≠ .unusable)
    (short : c.IsShort) : c.SpelledBy c.encode := by
  intro index pos rest
  cases c with
  | utf8 text =>
    have hlen := short text rfl
    apply u8_then_iff.2
    refine ⟨1, _, rfl, ?_⟩
    apply u16_then_iff.2
    refine ⟨UInt16.ofNat (ModifiedUtf8.encode text).length, _, List.append_assoc .., ?_⟩
    apply bytes_then_iff.2
    refine ⟨ModifiedUtf8.encode text, rest, (toNat_count16 (by omega)).symm, rfl, ?_⟩
    rw [ModifiedUtf8.decode_encode]
    apply pure_eq_ok_iff.2
    refine ⟨rfl, ?_⟩
    simp only [encode, body, count16, List.length_cons, List.length_append, length_be16]
    congr 1
    omega
  | integer value =>
    exact u8_then_iff.2 ⟨3, _, rfl, u32_then_iff.2 ⟨value.toUInt32, rest, rfl, rfl⟩⟩
  | float bits => exact u8_then_iff.2 ⟨4, _, rfl, u32_then_iff.2 ⟨bits, rest, rfl, rfl⟩⟩
  | long value => cases narrow
  | double bits => cases narrow
  | unusable => exact absurd rfl usable
  | methodHandle kind target =>
    exact u8_then_iff.2 ⟨15, _, rfl, u8_then_iff.2 ⟨kind, _, rfl,
      u16_then_iff.2 ⟨target, rest, rfl, rfl⟩⟩⟩
  | classRef i | string i | methodType i | moduleRef i | packageRef i =>
    exact u8_then_iff.2 ⟨_, _, rfl, u16_then_iff.2 ⟨i, rest, rfl, rfl⟩⟩
  | fieldRef a b | methodRef a b | interfaceMethodRef a b | nameAndType a b | dynamic a b
  | invokeDynamic a b =>
    exact u8_then_iff.2 ⟨_, _, rfl, u16_then_iff.2 ⟨a, _, List.append_assoc ..,
      u16_then_iff.2 ⟨b, rest, rfl, rfl⟩⟩⟩

namespace Pool

variable {p q : Pool}

lemma Grown.exists_more (h : p.Grown q) :
    ∃ cs, q.slots.toList = p.slots.toList ++ cs ∧
      ∀ c ∈ cs, c.isWide = false ∧ c ≠ .unusable ∧ c.Links q := by
  induction h with
  | refl => exact ⟨[], (List.append_nil _).symm, nofun⟩
  | @push q c h room narrow usable links ih =>
    obtain ⟨cs, hcs, hall⟩ := ih
    have hext := extends_push q c
    refine ⟨cs ++ [c], by rw [Array.toList_push, hcs, List.append_assoc], fun d hd => ?_⟩
    rcases List.mem_append.1 hd with hd | hd
    · obtain ⟨h1, h2, h3⟩ := hall d hd
      exact ⟨h1, h2, h3.mono hext⟩
    · rw [List.mem_singleton.1 hd]
      exact ⟨narrow, usable, links.mono hext⟩

def settle (p : Pool) : Pool :=
  { p with readSlots := p.count, raw := p.raw ++ p.appended.flatMap Constant.encode }

lemma extends_settle (p : Pool) : p.Extends p.settle := Extends.refl p

lemma spells_encode {cs : List Constant} (h : ∀ c ∈ cs, c.isWide = false ∧ c ≠ .unusable)
    (short : ∀ c ∈ cs, c.IsShort) : Spells cs (cs.flatMap Constant.encode) := by
  induction cs with
  | nil => exact .nil
  | cons c cs ih =>
    obtain ⟨narrow, usable⟩ := h c List.mem_cons_self
    rw [List.flatMap_cons]
    apply Spells.narrow narrow
    · exact Constant.spelledBy_encode narrow usable (short c List.mem_cons_self)
    · exact ih (fun d hd => h d (List.mem_cons_of_mem c hd))
        fun d hd => short d (List.mem_cons_of_mem c hd)

lemma Whole.appended_eq (hp : p.Whole) (h : p.Grown q) {cs : List Constant}
    (hcs : q.slots.toList = p.slots.toList ++ cs) : q.appended = cs := by
  rw [appended, hcs, h.raw_eq.2, hp.readSlots, count, ← Array.length_toList, List.drop_left]

lemma Whole.settle (hp : p.Whole) (h : p.Grown q) (short : ∀ c ∈ q.appended, c.IsShort) :
    q.settle.Whole := by
  obtain ⟨cs, hcs, hall⟩ := h.exists_more
  have happended := hp.appended_eq h hcs
  obtain ⟨ds, hds, hsp⟩ := hp.spelled
  refine ⟨⟨ds ++ cs, ?_, ?_⟩, rfl, h.count_le hp.count_le, ?_⟩
  · exact hcs.trans (by rw [hds, List.cons_append])
  · rw [Pool.settle, happended, h.raw_eq.1]
    exact hsp.append (spells_encode (fun c hc => ⟨(hall c hc).1, (hall c hc).2.1⟩)
      fun c hc => short c (happended ▸ hc))
  · intro c hc
    have hc' : c ∈ p.slots.toList ++ cs := hcs ▸ hc
    have hlinks : c.Links q := by
      rcases List.mem_append.1 hc' with hc | hc
      · exact (hp.links c hc).mono h.extends
      · exact (hall c hc).2.2
    exact hlinks.mono (extends_settle q)

lemma encode_settle (p : Pool) : p.settle.encode = p.encode := by
  have hnone : p.settle.appended = [] := by
    rw [appended, Pool.settle, count, ← Array.length_toList, List.drop_length]
  rw [encode, hnone, encode, Pool.settle, count, count]
  simp

end Pool

end ClassWeaver
