import Mathlib.Data.List.Chain
import ClassWeaver.Proofs.Code.Woven

/-! Instructions cover their code byte for byte, and what comes later does not change how the code
before it reads. So a code can be cut between two instructions, and two codes can be put together
where the second one finds the alignment that it was read with. A code that is no run of instructions
has a first place where none stands. -/

namespace ClassWeaver

lemma Switch.paddingAt_add {base : Nat} (hb : 4 ∣ base) (offset : Nat) :
    paddingAt (base + offset) = paddingAt offset := by
  simp only [paddingAt]
  omega

namespace Instruction

variable {code more : Bytes} {is js front : List Instruction} {pos : Nat}

def StandsIn (i : Instruction) (code : Bytes) : Prop := i.Fits ∧ i.encode <+: code.drop i.offset

structure Cover (is : List Instruction) (code : Bytes) : Prop where
  first : ∀ i ∈ is.head?, i.offset = 0
  next : is.IsChain fun i j => j.offset = i.offset + i.size
  last : ∀ i ∈ is.getLast?, i.offset + i.size = code.length
  empty : is = [] → code = []
  size_pos : ∀ i ∈ is, 1 ≤ i.size
  opcode : ∀ i ∈ is, code[i.offset]? = some i.opcode
  stands : ∀ i ∈ is, i.StandsIn code

lemma encodeAll_cons (i : Instruction) (is : List Instruction) :
    encodeAll (i :: is) = i.encode ++ encodeAll is := List.flatMap_cons

lemma drop_encodeAll (front : List Instruction) (rest : Bytes) :
    (encodeAll front ++ rest).drop (total size front) = rest := by
  rw [← length_encodeAll, List.drop_left]

lemma take_encodeAll (front : List Instruction) (rest : Bytes) :
    (encodeAll front ++ rest).take (total size front) = encodeAll front := by
  rw [← length_encodeAll, List.take_left]

lemma StandsIn.opcode_eq {i : Instruction} (h : i.StandsIn code) :
    code[i.offset]? = some i.opcode := by
  obtain ⟨rest, hrest⟩ := h.2
  rw [← Nat.add_zero i.offset, ← List.getElem?_drop, ← hrest]
  rfl

lemma Tiles.standsIn (h : Tiles 0 is) {i : Instruction} (hi : i ∈ is) :
    i.StandsIn (encodeAll is) := by
  obtain ⟨front, back, rfl⟩ := List.append_of_mem hi
  refine ⟨h.fits hi, encodeAll back, ?_⟩
  rw [h.offset_eq, Nat.zero_add, encodeAll_append, drop_encodeAll, encodeAll_cons]

lemma Tiles.isChain (h : Tiles pos is) :
    is.IsChain fun i j => j.offset = i.offset + i.size := by
  induction is generalizing pos with
  | nil => exact .nil
  | cons i is ih =>
    refine List.isChain_cons.2 ⟨fun j hj => ?_, ih h.2.2⟩
    obtain ⟨rest, rfl⟩ := List.head?_eq_some_iff.1 hj
    exact h.2.2.1

lemma Tiles.cover (h : Tiles 0 is) : Cover is (encodeAll is) where
  first i hi := by
    obtain ⟨rest, rfl⟩ := List.head?_eq_some_iff.1 hi
    exact h.1
  next := h.isChain
  last i hi := by
    obtain ⟨front, rfl⟩ := List.getLast?_eq_some_iff.1 hi
    rw [h.offset_eq, length_encodeAll]
    simp
  empty hnil := by simp [hnil]
  size_pos i _ := i.size_pos
  opcode i hi := (h.standsIn hi).opcode_eq
  stands i hi := h.standsIn hi

lemma decodeFrom_encodeAll_append (h : Tiles pos is) (more : Bytes) (done : List Instruction) :
    decodeFrom pos (encodeAll is ++ more) done =
      decodeFrom (pos + total size is) more (is.reverse ++ done) := by
  induction is generalizing pos done with
  | nil => rfl
  | cons i is ih =>
    obtain ⟨rfl, hf, ht⟩ := h
    have hread := Operand.read?_encode_append hf (encodeAll is ++ more)
    rw [encodeAll_cons, List.append_assoc, encode, List.cons_append, decodeFrom_cons hread]
    refine (ih ht _).trans ?_
    rw [stop, total_cons, Nat.add_assoc, List.reverse_cons, List.append_assoc]
    rfl

lemma decode_append (h : decode code = .ok is) (hm : decodeFrom code.length more [] = .ok js) :
    decode (code ++ more) = .ok (is ++ js) := by
  obtain ⟨ht, rfl⟩ := decode_eq_ok_iff.1 h
  obtain ⟨_, rfl, hj, rfl⟩ := decodeFrom_eq_ok_iff.1 hm
  rw [decode, decodeFrom_encodeAll_append ht, Nat.zero_add, ← length_encodeAll,
    decodeFrom_eq_ok_iff]
  exact ⟨_, by simp, hj, rfl⟩

lemma decode_take (h : decode code = .ok (front ++ js)) :
    decode (code.take (total size front)) = .ok front := by
  obtain ⟨ht, rfl⟩ := decode_eq_ok_iff.1 h
  rw [encodeAll_append, take_encodeAll]
  exact decode_eq_ok_iff.2 ⟨(Tiles.append_iff.1 ht).1, rfl⟩

lemma Fits.moved {base : Nat} (hb : 4 ∣ base) {i : Instruction} (h : i.Fits) :
    Fits { i with offset := base + i.offset } := by
  obtain ⟨offset, opcode, operand⟩ := i
  cases operand with
  | plain bytes => exact h
  | near delta => exact h
  | far delta => exact h
  | switch padding table =>
    exact ⟨h.1, h.2.1.trans (Switch.paddingAt_add hb offset).symm, h.2.2⟩

lemma decodeFrom_moved {base : Nat} (hb : 4 ∣ base) (h : decodeFrom pos code [] = .ok js) :
    decodeFrom (base + pos) code [] = .ok (layAt base js) := by
  obtain ⟨_, rfl, ht, rfl⟩ := decodeFrom_eq_ok_iff.1 h
  refine decodeFrom_eq_ok_iff.2 ⟨layAt base _, rfl, ?_, (encodeAll_layAt base _).symm⟩
  exact ht.relaid base fun i hi => (ht.fits hi).moved hb

lemma exists_of_decodeFrom_eq_error {bs : Bytes} {done : List Instruction} {fault : CodeFault}
    (h : decodeFrom pos bs done = .error fault) :
    ∃ front opcode rest, Tiles pos front ∧ bs = encodeAll front ++ opcode :: rest ∧
      Operand.read? opcode (pos + total size front) rest = none ∧
      fault = .invalidOpcode (pos + total size front) opcode := by
  induction pos, bs, done using decodeFrom.induct with
  | case1 pos done =>
    rw [decodeFrom] at h
    cases h
  | case2 pos done opcode rest hx =>
    rw [decodeFrom] at h
    split at h
    · cases h
      exact ⟨[], opcode, rest, trivial, rfl, hx, rfl⟩
    · next hx' =>
      rw [hx] at hx'
      cases hx'
  | case3 pos done opcode rest x rest' hx _ i ih =>
    rw [decodeFrom_cons hx] at h
    obtain ⟨front, opcode', rest'', ht, rfl, hnone, rfl⟩ := ih h
    obtain ⟨hf, rfl⟩ := Operand.fits_of_read? hx
    have hpos : pos + total size (i :: front) = i.stop + total size front := by
      rw [total_cons, stop, Nat.add_assoc]
    refine ⟨i :: front, opcode', rest'', ⟨rfl, hf, ht⟩, ?_, ?_, ?_⟩
    · rw [encodeAll_cons, List.append_assoc]
      rfl
    · rw [hpos]
      exact hnone
    · rw [hpos]

lemma not_standsIn {i : Instruction} {opcode : UInt8} {rest : Bytes}
    (hrest : code.drop i.offset = opcode :: rest)
    (hnone : Operand.read? opcode i.offset rest = none) : ¬ i.StandsIn code := by
  rintro ⟨hf, back, hback⟩
  rw [hrest, encode, List.cons_append] at hback
  obtain ⟨rfl, rfl⟩ := List.cons.inj hback
  rw [Operand.read?_encode_append hf] at hnone
  cases hnone

/-- Every code is covered by its instructions or has a first place where none stands. Instructions
are read the same whatever comes behind them, and behind a code that ends at the right alignment. -/
theorem decode_covers (code : Bytes) :
    (∃ is, decode code = .ok is ∧ Cover is code ∧
      (∀ front i back, is = front ++ i :: back → decode (code.take i.offset) = .ok front) ∧
      ∀ base pos more js, 4 ∣ base → code.length = base + pos →
        decodeFrom pos more [] = .ok js → decode (code ++ more) = .ok (is ++ layAt base js)) ∨
    ∃ offset opcode front, decode code = .error (.invalidOpcode offset opcode) ∧
      decode (code.take offset) = .ok front ∧ code[offset]? = some opcode ∧
      ∀ i : Instruction, i.offset = offset → ¬ i.StandsIn code := by
  cases hd : decode code with
  | ok is =>
    obtain ⟨ht, hcode⟩ := decode_eq_ok_iff.1 hd
    refine .inl ⟨is, rfl, hcode ▸ ht.cover, ?_, ?_⟩
    · rintro front i back rfl
      rw [ht.offset_eq, Nat.zero_add]
      exact decode_take hd
    · intro base pos more js hb hlen hm
      apply decode_append hd
      rw [hlen]
      exact decodeFrom_moved hb hm
  | error fault =>
    obtain ⟨front, opcode, rest, ht, rfl, hnone, rfl⟩ := exists_of_decodeFrom_eq_error hd
    rw [Nat.zero_add] at hnone ⊢
    refine .inr ⟨total size front, opcode, front, rfl, ?_, ?_, ?_⟩
    · rw [take_encodeAll]
      exact decode_eq_ok_iff.2 ⟨ht, rfl⟩
    · rw [← length_encodeAll, List.getElem?_append_right (Nat.le_refl _), Nat.sub_self]
      rfl
    · intro i hi
      rw [← hi] at hnone
      apply not_standsIn _ hnone
      rw [hi, drop_encodeAll]

theorem decode_covers_sample :
    let code : Bytes := [0x00, 0x03, 0x57, 0xb1]
    let table : Bytes := [0xaa, 7, 8, 9, 0, 0, 0, 9, 0, 0, 0, 1, 0, 0, 0, 1, 0, 0, 0, 5]
    let last : Instruction := ⟨0, 0xaa, .switch [7, 8, 9] ⟨9, some 1, [(1, 5)]⟩⟩
    ∃ is, decode code = .ok is ∧ decode table = .ok [last] ∧
      decode (code ++ table) = .ok (is ++ layAt 4 [last]) ∧ decode (code.take 2) = .ok (is.take 2) := by
  intro code table last
  have hcode : decode code = .ok [⟨0, 0x00, .plain []⟩, ⟨1, 0x03, .plain []⟩,
      ⟨2, 0x57, .plain []⟩, ⟨3, 0xb1, .plain []⟩] := by decide +kernel
  have htable : decode table = .ok [last] := by decide +kernel
  rcases decode_covers code with ⟨is, his, -, hcut, happend⟩ | ⟨_, _, _, hfault, -⟩
  · obtain rfl := Except.ok.inj (hcode.symm.trans his)
    exact ⟨_, his, htable, happend 4 0 table [last] (Nat.dvd_refl 4) rfl htable,
      hcut [_, _] ⟨2, 0x57, .plain []⟩ [_] rfl⟩
  · rw [hcode] at hfault
    cases hfault

end Instruction

end ClassWeaver
