import ClassWeaver.Pool.Reader
import ClassWeaver.Proofs.ClassFile.Readers
import ClassWeaver.Proofs.Pool.GrowthSteps

/-! The bytes of a pool. A constant may be written in several ways, so a pool keeps the bytes it was
read from; what is appended is written in its own way, and the whole reads back. -/

namespace ClassWeaver

open Read

namespace Constant

def SpelledBy (c : Constant) (bs : Bytes) : Prop :=
  ∀ index pos rest, Constant.read index ⟨pos, bs ++ rest⟩ = .ok (c, ⟨pos + bs.length, rest⟩)

lemma carries_read (index index' : UInt16) :
    Carries (Constant.read index) (Constant.read index') := by
  unfold Constant.read
  refine (reads_u8 _).carries.bind fun tag => ?_
  split <;> first
    | exact carries_fail _ _
    | exact (reads_u16 _).carries.bind fun _ => carries_pure _
    | exact (reads_u32 _).carries.bind fun _ => carries_pure _
    | exact (carries_u64 _).bind fun _ => carries_pure _
    | exact (reads_u8 _).carries.bind fun _ => (reads_u16 _).carries.bind fun _ => carries_pure _
    | exact (reads_u16 _).carries.bind fun _ => (reads_u16 _).carries.bind fun _ => carries_pure _
    | exact (reads_u16 _).carries.bind fun _ =>
        (reads_bytes _ _).carries.bind fun _ => carries_pure _

lemma exists_spelling {index : UInt16} {r r' : Reader} {c : Constant}
    (h : Constant.read index r = .ok (c, r')) :
    ∃ bs : Bytes, r.rest = bs ++ r'.rest ∧ r'.offset = r.offset + bs.length ∧ c.SpelledBy bs := by
  obtain ⟨bs, hr, ho, -⟩ := carries_read index index _ _ _ h
  refine ⟨bs, hr, ho, fun index' pos rest => ?_⟩
  obtain ⟨bs', hr', -, h1⟩ := carries_read index index' _ _ _ h
  obtain rfl : bs = bs' := List.append_cancel_right (hr.symm.trans hr')
  exact h1 pos rest

end Constant

namespace Pool

inductive Spells : List Constant → Bytes → Prop
  | nil : Spells [] []
  | narrow {c : Constant} {b bs : Bytes} {cs : List Constant} (hc : c.isWide = false)
    (hb : c.SpelledBy b) (h : Spells cs bs) : Spells (c :: cs) (b ++ bs)
  | wide {c : Constant} {b bs : Bytes} {cs : List Constant} (hc : c.isWide = true)
    (hb : c.SpelledBy b) (h : Spells cs bs) : Spells (c :: .unusable :: cs) (b ++ bs)

lemma Spells.append {cs ds : List Constant} {bs bs' : Bytes} (h : Spells cs bs)
    (h' : Spells ds bs') : Spells (cs ++ ds) (bs ++ bs') := by
  induction h with
  | nil => exact h'
  | narrow hc hb _ ih =>
    rw [List.append_assoc]
    exact .narrow hc hb ih
  | wide hc hb _ ih =>
    rw [List.append_assoc]
    exact .wide hc hb ih

lemma exists_spells {n : Nat} {slots slots' : Array Constant} {r r' : Reader}
    (h : readSlotsFrom n slots r = .ok (slots', r')) :
    ∃ cs bs, slots'.toList = slots.toList ++ cs ∧ cs.length = n ∧ Spells cs bs ∧
      r.rest = bs ++ r'.rest ∧ r'.offset = r.offset + bs.length := by
  induction n using Nat.strongRecOn generalizing slots r with
  | _ n ih =>
    cases n with
    | zero =>
      cases h
      exact ⟨[], [], by simp, rfl, .nil, rfl, rfl⟩
    | succ n =>
      rw [readSlotsFrom] at h
      split at h
      · cases h
      · next c s hc =>
        obtain ⟨b, hr, ho, hb⟩ := Constant.exists_spelling hc
        split at h
        · next hw =>
          cases n with
          | zero => cases h
          | succ n =>
            obtain ⟨cs, bs, hcs, hlen, hsp, hr', ho'⟩ := ih n (by omega) h
            refine ⟨c :: .unusable :: cs, b ++ bs, by simp [hcs], by simp [hlen],
              .wide hw hb hsp, by rw [hr, hr', List.append_assoc], ?_⟩
            rw [ho', ho, List.length_append, Nat.add_assoc]
        · next hw =>
          obtain ⟨cs, bs, hcs, hlen, hsp, hr', ho'⟩ := ih n (by omega) h
          refine ⟨c :: cs, b ++ bs, by simp [hcs], by simp [hlen],
            .narrow (Bool.eq_false_iff.2 hw) hb hsp, by rw [hr, hr', List.append_assoc], ?_⟩
          rw [ho', ho, List.length_append, Nat.add_assoc]

lemma Spells.readSlotsFrom {cs : List Constant} {bs : Bytes} (h : Spells cs bs)
    (slots : Array Constant) (pos : Nat) (rest : Bytes) :
    readSlotsFrom cs.length slots ⟨pos, bs ++ rest⟩ =
      .ok ((slots.toList ++ cs).toArray, ⟨pos + bs.length, rest⟩) := by
  induction h generalizing slots pos with
  | nil => simp [Pool.readSlotsFrom]
  | narrow hc hb _ ih =>
    rw [List.length_cons, Pool.readSlotsFrom, List.append_assoc, hb]
    simp only [hc, Bool.false_eq_true, if_false, ih, List.length_append, Nat.add_assoc]
    simp
  | wide hc hb _ ih =>
    rw [List.length_cons, List.length_cons, Pool.readSlotsFrom, List.append_assoc, hb]
    simp only [hc, if_true, ih, List.length_append, Nat.add_assoc]
    simp

lemma check_eq_ok_iff {p : Pool} : p.check = .ok () ↔ ∀ c ∈ p.slots.toList, c.Links p := by
  have from_ (n : Nat) (cs : List Constant) :
      p.checkReferences n cs = .ok () ↔ ∀ c ∈ cs, c.Links p := by
    induction cs generalizing n with
    | nil => simp [checkReferences]
    | cons c cs ih =>
      rw [checkReferences, List.forall_mem_cons]
      split
      · next hr =>
        constructor
        · intro h
          cases h
        · rintro ⟨⟨refs, hrefs, -⟩, -⟩
          rw [hr] at hrefs
          cases hrefs
      · next refs hr =>
        split
        · next target role hf =>
          constructor
          · intro h
            cases h
          · rintro ⟨⟨refs', hrefs, hp⟩, -⟩
            rw [hr] at hrefs
            cases hrefs
            have hn := List.find?_some hf
            dsimp only at hn
            rw [hp _ (List.mem_of_find?_eq_some hf)] at hn
            cases hn
        · next hf =>
          rw [ih]
          refine (and_iff_right ⟨refs, hr, fun x hx => ?_⟩).symm
          simpa using List.find?_eq_none.1 hf x hx
  exact from_ 0 _

structure Whole (p : Pool) : Prop where
  spelled : ∃ cs, p.slots.toList = .unusable :: cs ∧ Spells cs p.raw
  readSlots : p.readSlots = p.count
  count_le : p.count ≤ maxSlots
  links : ∀ c ∈ p.slots.toList, c.Links p

/-- Only a count of zero is not written back as it was read. -/
lemma read_iff {p : Pool} {pos pos' : Nat} {bs rest : Bytes} :
    Pool.read ⟨pos, bs⟩ = .ok (p, ⟨pos', rest⟩) ↔
      ∃ n : UInt16, p.Whole ∧ p.count = n.toNat - 1 + 1 ∧ bs = be16 n ++ (p.raw ++ rest) ∧
        pos' = pos + 2 + p.raw.length := by
  simp only [Pool.read, u16_then_iff, get_then_iff]
  constructor
  · rintro ⟨n, bs, rfl, h⟩
    obtain ⟨slots, ⟨stop, rest'⟩, hs, h⟩ := Read.bind_eq_ok_iff.1 h
    obtain ⟨cs, spelling, hcs, hlen, hsp, hr, ho⟩ := exists_spells hs
    dsimp only at hr ho
    subst hr ho
    rw [offset_then_iff] at h
    obtain ⟨⟨⟩, hcheck, h⟩ := lift_then_iff.1 h
    have htake : (spelling ++ rest').take (pos + 2 + spelling.length - (pos + 2)) = spelling := by
      rw [Nat.add_sub_cancel_left, List.take_left]
    rw [htake] at h hcheck
    cases h
    have hsize : slots.size = n.toNat - 1 + 1 := by
      rw [← Array.length_toList, hcs, List.length_append, hlen]
      exact Nat.add_comm _ _
    have hlt := n.toNat_lt
    refine ⟨n, ⟨⟨cs, hcs, hsp⟩, rfl, ?_, check_eq_ok_iff.1 hcheck⟩, hsize, rfl, rfl⟩
    rw [count, hsize, maxSlots]
    omega
  · rintro ⟨n, ⟨⟨cs, hcs, hsp⟩, hread, hle, hlinks⟩, hcount, rfl, rfl⟩
    have hlen : cs.length = n.toNat - 1 := by
      have h := congrArg List.length hcs
      rw [Array.length_toList, List.length_cons] at h
      rw [count, h] at hcount
      omega
    refine ⟨n, _, rfl, Read.bind_eq_ok_iff.2 ⟨p.slots, ⟨pos + 2 + p.raw.length, rest⟩, ?_, ?_⟩⟩
    · rw [← hlen, hsp.readSlotsFrom]
      simp [← hcs]
    · have htake : (p.raw ++ rest).take (pos + 2 + p.raw.length - (pos + 2)) = p.raw := by
        rw [Nat.add_sub_cancel_left, List.take_left]
      rw [offset_then_iff, htake]
      obtain ⟨slots, readSlots, raw⟩ := p
      obtain rfl : readSlots = slots.size := hread
      exact lift_then_iff.2 ⟨(), check_eq_ok_iff.2 hlinks, rfl⟩

lemma then_iff {β : Type} {next : Pool → Read β} {pos : Nat} {bs : Bytes} {x : β × Reader} :
    (Pool.read >>= next) ⟨pos, bs⟩ = .ok x ↔
      ∃ p rest, ∃ n : UInt16, p.Whole ∧ p.count = n.toNat - 1 + 1 ∧
        bs = be16 n ++ (p.raw ++ rest) ∧ next p ⟨pos + 2 + p.raw.length, rest⟩ = .ok x := by
  obtain ⟨b, r'⟩ := x
  rw [Read.bind_eq_ok_iff]
  constructor
  · rintro ⟨p, ⟨pos', rest⟩, hp, hb⟩
    obtain ⟨n, hw, hcount, hbs, rfl⟩ := read_iff.1 hp
    exact ⟨p, rest, n, hw, hcount, hbs, hb⟩
  · rintro ⟨p, rest, n, hw, hcount, hbs, hb⟩
    exact ⟨p, _, read_iff.2 ⟨n, hw, hcount, hbs, rfl⟩, hb⟩

lemma Whole.encode_eq {p : Pool} (h : p.Whole) : p.encode = count16 p.count ++ p.raw := by
  have hnone : p.appended = [] := by
    rw [appended, h.readSlots, count, ← Array.length_toList, List.drop_length]
  rw [encode, hnone]
  simp

lemma Whole.first_slot {p : Pool} (h : p.Whole) : p.slots[0]? = some .unusable := by
  obtain ⟨cs, hcs, -⟩ := h.spelled
  rw [← Array.getElem?_toList, hcs]
  rfl

lemma Whole.ne_zero {p : Pool} {i : UInt16} {c : Constant} (h : p.Whole) (hc : p.get? i = some c) :
    i ≠ 0 := by
  rintro rfl
  obtain ⟨hslot, usable⟩ := get?_eq_some_iff.1 hc
  rw [show (0 : UInt16).toNat = 0 from rfl, h.first_slot] at hslot
  exact usable (Option.some.inj hslot).symm

lemma one_lt_count {p : Pool} (hw : p.Whole) {i : UInt16} {name : String}
    (h : p.className i = .ok name) : 1 < p.count := by
  obtain ⟨j, hj, -⟩ := className_eq_ok_iff.1 h
  have hne : i.toNat ≠ 0 := fun hz => hw.ne_zero hj (UInt16.toNat_inj.1 hz)
  obtain ⟨hlt, -⟩ := Array.getElem?_eq_some_iff.1 (get?_eq_some_iff.1 hj).1
  exact Nat.lt_of_le_of_lt (Nat.one_le_iff_ne_zero.2 hne) hlt

lemma Whole.read_encode {p : Pool} (h : p.Whole) (pos : Nat) (rest : Bytes) :
    Pool.read ⟨pos, p.encode ++ rest⟩ = .ok (p, ⟨pos + p.encode.length, rest⟩) := by
  have hpos : 0 < p.count := by
    obtain ⟨hlt, -⟩ := Array.getElem?_eq_some_iff.1 h.first_slot
    exact hlt
  have hcount := toNat_count16 (Nat.lt_succ_of_le h.count_le)
  rw [h.encode_eq, List.append_assoc]
  refine read_iff.2 ⟨UInt16.ofNat p.count, h, ?_, rfl, ?_⟩
  · omega
  · rw [List.length_append, count16, length_be16, Nat.add_assoc]

end Pool

end ClassWeaver
