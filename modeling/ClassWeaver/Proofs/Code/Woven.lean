import ClassWeaver.Proofs.Code.RelocatedCode

namespace ClassWeaver

namespace Instruction

/-- Control does not go on to the next instruction, the wide form of `ret` included. -/
def leaves (i : Instruction) : Bool :=
  i.endsFlow || (i.opcode == Opcode.wide && i.operand.word8 == Opcode.ret)

def IsStraight (i : Instruction) : Prop := i.operand.deltas = [] ∧ i.leaves = false

instance (i : Instruction) : Decidable i.IsStraight := inferInstanceAs (Decidable (_ ∧ _))

def layAt (pos : Nat) (is : List Instruction) : List Instruction :=
  is.map fun i => { i with offset := pos + i.offset }

lemma Fits.of_deltas {i : Instruction} (h : i.Fits) (hs : i.operand.deltas = []) (pos : Nat) :
    Fits { i with offset := pos } := by
  obtain ⟨offset, opcode, operand⟩ := i
  cases operand with
  | plain bytes => exact h
  | near delta => exact h
  | far delta => exact h
  | switch padding table => cases hs

lemma Tiles.relaid {k : Nat} {is : List Instruction} (h : Tiles k is) (pos : Nat)
    (hs : ∀ i ∈ is, Fits { i with offset := pos + i.offset }) : Tiles (pos + k) (layAt pos is) := by
  induction is generalizing k with
  | nil => trivial
  | cons i is ih =>
    obtain ⟨rfl, -, ht⟩ := h
    refine ⟨rfl, hs i List.mem_cons_self, ?_⟩
    have hrest := ih ht fun j hj => hs j (List.mem_cons_of_mem i hj)
    rwa [stop, ← Nat.add_assoc] at hrest

lemma Tiles.layAt {k : Nat} {is : List Instruction} (h : Tiles k is)
    (hs : ∀ i ∈ is, i.operand.deltas = []) (pos : Nat) : Tiles (pos + k) (layAt pos is) :=
  h.relaid pos fun i hi => (h.fits hi).of_deltas (hs i hi) _

@[simp] lemma encodeAll_nil : encodeAll [] = [] := rfl

@[simp] lemma encodeAll_append (is js : List Instruction) :
    encodeAll (is ++ js) = encodeAll is ++ encodeAll js := List.flatMap_append

@[simp] lemma encodeAll_layAt (pos : Nat) (is : List Instruction) :
    encodeAll (layAt pos is) = encodeAll is := by
  induction is with
  | nil => rfl
  | cons i is ih =>
    simp only [layAt, encodeAll, List.map_cons, List.flatMap_cons] at ih ⊢
    rw [ih]
    rfl

@[simp] lemma total_layAt (pos : Nat) (is : List Instruction) :
    total size (layAt pos is) = total size is := by
  rw [← length_encodeAll, encodeAll_layAt, length_encodeAll]

end Instruction

open Instruction

namespace Placement

def start (m : Placement) (old : Nat) : Nat := ((m.place? old).map (·.block)).getD 0

def image (m : Placement) (i : Instruction) : Instruction :=
  match m.place? i.offset with
  | none => i
  | some place =>
    match Relocation.move m (i, place) with
    | .error _ => i
    | .ok j => j

def woven (m : Placement) (epilogue : List Instruction) (i : Instruction) : List Instruction :=
  (if i.isReturn then layAt (m.start i.offset) epilogue else []) ++ [m.image i]

def weave (m : Placement) (prologue epilogue is : List Instruction) : List Instruction :=
  prologue ++ is.flatMap (m.woven epilogue)

end Placement

namespace Relocates

variable {pool : Pool} {code : Code} {ins : Insertion} {body : Body}
  {placed : List (Instruction × Place)} {stop : Nat}

lemma tiles (h : Relocates pool code ins body placed stop) : Tiles 0 (placed.map Prod.fst) :=
  (decode_eq_ok_iff.1 h.decoded).1

lemma length_code (h : Relocates pool code ins body placed stop) :
    code.bytes.length = total size (placed.map Prod.fst) := by
  rw [(decode_eq_ok_iff.1 h.decoded).2, length_encodeAll]

lemma exists_place (_ : Relocates pool code ins body placed stop) {i : Instruction}
    (hi : i ∈ placed.map Prod.fst) : ∃ p, (i, p) ∈ placed := by
  obtain ⟨⟨j, p⟩, hp, rfl⟩ := List.mem_map.1 hi
  exact ⟨p, hp⟩

lemma start_eq (h : Relocates pool code ins body placed stop) {i : Instruction} {p : Place}
    (hp : (i, p) ∈ placed) : (Placement.of placed stop).start i.offset = p.block := by
  rw [Placement.start, Placement.place?_of_mem h.tiles hp]
  rfl

lemma image_spec (h : Relocates pool code ins body placed stop) {i : Instruction} {p : Place}
    (hp : (i, p) ∈ placed) :
    Relocation.move (Placement.of placed stop) (i, p) =
      .ok ((Placement.of placed stop).image i) := by
  obtain ⟨blocks, hb, -⟩ := h.blocks
  obtain ⟨b, -, he⟩ := exists_of_forall₂ hb hp
  obtain ⟨j, hj, -⟩ := Relocation.exists_of_emit he
  rw [Placement.image, Placement.place?_of_mem h.tiles hp]
  simp only [hj]

lemma image_eq (h : Relocates pool code ins body placed stop) {i : Instruction} {p : Place}
    (hp : (i, p) ∈ placed) :
    ∃ x, Relocation.moveOperand (Placement.of placed stop) i p.instruction = .ok x ∧
      (Placement.of placed stop).image i = ⟨p.instruction, i.opcode, x⟩ := by
  obtain ⟨x, hx, hj⟩ := bind_eq_ok_iff.1 (h.image_spec hp)
  exact ⟨x, hx, (Except.ok.inj hj).symm⟩

lemma image_fits (h : Relocates pool code ins body placed stop) {i : Instruction} {p : Place}
    (hp : (i, p) ∈ placed) :
    ((Placement.of placed stop).image i).Fits ∧ i.Alike ((Placement.of placed stop).image i) ∧
      List.Forall₂ (Relocation.Leads (Placement.of placed stop) i p.instruction)
        i.operand.deltas ((Placement.of placed stop).image i).operand.deltas ∧
      ((Placement.of placed stop).image i).size = i.sizeAt p.instruction := by
  obtain ⟨x, hx, he⟩ := h.image_eq hp
  obtain ⟨h1, h2, h3, h4⟩ :=
    Relocation.moveOperand_spec (h.tiles.fits (List.mem_map_of_mem hp)) hx
  rw [he]
  exact ⟨h1, ⟨rfl, h2⟩, h3, h4⟩

end Relocates

section Decoding

variable {pool : Pool} {code : Code} {ins : Insertion} {body : Body}
  {placed : List (Instruction × Place)} {stop : Nat} {prologue epilogue : List Instruction}

lemma Instruction.prologueOf_eq (hp : ins.prologue = encodeAll prologue) (i : Instruction) :
    i.prologueOf ins = encodeAll (if i.offset = 0 then prologue else []) := by
  unfold prologueOf
  split
  · exact hp
  · rfl

lemma Instruction.epilogueOf_eq (he : ins.epilogue = encodeAll epilogue) (i : Instruction)
    (pos : Nat) :
    i.epilogueOf ins = encodeAll (if i.isReturn then layAt pos epilogue else []) := by
  unfold epilogueOf
  split
  · rw [encodeAll_layAt]
    exact he
  · rfl

lemma Relocates.emit_eq (h : Relocates pool code ins body placed stop) {i : Instruction}
    {p : Place} (hi : (i, p) ∈ placed) {b : Bytes}
    (hb : Relocation.emit ins (Placement.of placed stop) (i, p) = .ok b) :
    b = i.prologueOf ins ++ (i.epilogueOf ins ++
      ((Placement.of placed stop).image i).encode) := by
  obtain ⟨j, hj, he⟩ := Relocation.exists_of_emit hb
  rw [h.image_spec hi] at hj
  cases hj
  exact he

def Placement.wovenFirst (m : Placement) (prologue epilogue : List Instruction)
    (i : Instruction) : List Instruction :=
  (if i.offset = 0 then prologue else []) ++ m.woven epilogue i

lemma Placement.weave_eq (m : Placement) {is : List Instruction} (hne : is ≠ [])
    (ht : Tiles 0 is) :
    m.weave prologue epilogue is = is.flatMap (m.wovenFirst prologue epilogue) := by
  cases is with
  | nil => exact absurd rfl hne
  | cons i is =>
    obtain ⟨h0, -, ht⟩ := ht
    have later : is.flatMap (m.wovenFirst prologue epilogue) =
        is.flatMap (m.woven epilogue) := by
      apply List.flatMap_congr
      intro j hj
      have hle := ht.le_offset hj
      have hpos := i.size_pos
      rw [Instruction.stop] at hle
      rw [wovenFirst, if_neg (by omega), List.nil_append]
    simp only [weave, List.flatMap_cons, later, wovenFirst, if_pos h0, List.append_assoc]

lemma Relocates.tiles_block (h : Relocates pool code ins body placed stop)
    (hp : decode ins.prologue = .ok prologue) (he : decode ins.epilogue = .ok epilogue)
    (se : ∀ i ∈ epilogue, i.operand.deltas = []) {i : Instruction} {pos : Nat} {b : Bytes}
    (hi : (i, i.placeAt ins pos) ∈ placed) (hfirst : i.offset = 0 → pos = 0)
    (hb : Relocation.emit ins (Placement.of placed stop) (i, i.placeAt ins pos) = .ok b) :
    Tiles pos ((Placement.of placed stop).wovenFirst prologue epilogue i) ∧
      encodeAll ((Placement.of placed stop).wovenFirst prologue epilogue i) = b ∧
        pos + total size ((Placement.of placed stop).wovenFirst prologue epilogue i) =
          (i.placeAt ins pos).instruction + i.sizeAt (i.placeAt ins pos).instruction := by
  obtain ⟨tp, bp⟩ := decode_eq_ok_iff.1 hp
  obtain ⟨te, be⟩ := decode_eq_ok_iff.1 he
  obtain ⟨hf, -, -, hsize⟩ := h.image_fits hi
  obtain ⟨x, -, hx⟩ := h.image_eq hi
  have hpro := prologueOf_eq bp i
  have hepi := epilogueOf_eq be i ((Placement.of placed stop).start i.offset)
  rw [Placement.wovenFirst, Placement.woven]
  refine ⟨Tiles.append_iff.2 ⟨?_, Tiles.append_iff.2 ⟨?_, ?_, hf, trivial⟩⟩, ?_, ?_⟩
  · split
    · next h0 => rwa [hfirst h0]
    · trivial
  · rw [← length_encodeAll, ← hpro, h.start_eq hi]
    split
    · exact te.layAt se _
    · trivial
  · rw [← length_encodeAll, ← length_encodeAll, ← hpro, ← hepi, hx]
    rfl
  · rw [encodeAll_append, encodeAll_append, ← hpro, ← hepi, h.emit_eq hi hb]
    simp [encodeAll]
  · rw [total_append, total_append, ← length_encodeAll, ← hpro, ← length_encodeAll, ← hepi,
      total_cons, total_nil, hsize, placeAt]
    dsimp only
    omega

lemma Relocates.tiles_tail (h : Relocates pool code ins body placed stop)
    (hp : decode ins.prologue = .ok prologue) (he : decode ins.epilogue = .ok epilogue)
    (se : ∀ i ∈ epilogue, i.operand.deltas = [])
    {tail : List (Instruction × Place)} {blocks : List Bytes} {pos old : Nat}
    (hmem : ∀ a ∈ tail, a ∈ placed) (hplaced : PlacedFrom ins pos tail stop)
    (ht : Tiles old (tail.map Prod.fst)) (hfirst : old = 0 → pos = 0)
    (hb : List.Forall₂
      (fun a b => Relocation.emit ins (Placement.of placed stop) a = .ok b) tail blocks) :
    Tiles pos ((tail.map Prod.fst).flatMap
        ((Placement.of placed stop).wovenFirst prologue epilogue)) ∧
      encodeAll ((tail.map Prod.fst).flatMap
        ((Placement.of placed stop).wovenFirst prologue epilogue)) = blocks.flatten ∧
      pos + total size ((tail.map Prod.fst).flatMap
        ((Placement.of placed stop).wovenFirst prologue epilogue)) = stop := by
  induction hb generalizing pos old with
  | nil => exact ⟨trivial, rfl, hplaced.symm⟩
  | @cons a b tail blocks hab hb ih =>
    obtain ⟨i, p⟩ := a
    obtain ⟨rfl, hplaced⟩ := hplaced
    obtain ⟨ho, -, ht⟩ := ht
    dsimp only at ho ht hplaced
    -- only the first instruction of the code stands at zero
    have hnext : i.stop = 0 → (i.placeAt ins pos).instruction +
        i.sizeAt (i.placeAt ins pos).instruction = 0 := by
      intro hz
      have := i.size_pos
      rw [Instruction.stop] at hz
      omega
    obtain ⟨tblock, bblock, sblock⟩ := h.tiles_block hp he se (hmem _ List.mem_cons_self)
      (fun h0 => hfirst (ho.symm.trans h0)) hab
    obtain ⟨ttail, btail, stail⟩ :=
      ih (fun c hc => hmem c (List.mem_cons_of_mem _ hc)) hplaced ht hnext
    rw [List.map_cons, List.flatMap_cons, Tiles.append_iff, encodeAll_append, total_append,
      sblock, bblock, btail, ← Nat.add_assoc, sblock, List.flatten_cons]
    exact ⟨⟨tblock, ttail⟩, rfl, stail⟩

lemma Relocates.weave_spec (h : Relocates pool code ins body placed stop)
    (hne : code.bytes ≠ []) (hp : decode ins.prologue = .ok prologue)
    (he : decode ins.epilogue = .ok epilogue) (se : ∀ i ∈ epilogue, i.operand.deltas = []) :
    Tiles 0 ((Placement.of placed stop).weave prologue epilogue (placed.map Prod.fst)) ∧
      body.code.bytes =
        encodeAll ((Placement.of placed stop).weave prologue epilogue (placed.map Prod.fst)) ∧
      body.code.bytes.length = stop := by
  obtain ⟨blocks, hb, hbytes⟩ := h.blocks
  have hne' : placed.map Prod.fst ≠ [] := by
    intro hn
    rw [(decode_eq_ok_iff.1 h.decoded).2, hn] at hne
    exact hne rfl
  obtain ⟨ht, hc, hs⟩ :=
    h.tiles_tail hp he se (fun _ ha => ha) h.places h.tiles (fun _ => rfl) hb
  rw [← Placement.weave_eq _ hne' h.tiles] at ht hc hs
  have hcode := hbytes.trans hc.symm
  refine ⟨ht, hcode, ?_⟩
  rw [hcode, length_encodeAll]
  omega

theorem Relocates.decode_weave (h : Relocates pool code ins body placed stop)
    (hne : code.bytes ≠ []) (hp : decode ins.prologue = .ok prologue)
    (he : decode ins.epilogue = .ok epilogue) (se : ∀ i ∈ epilogue, i.operand.deltas = []) :
    decode body.code.bytes =
      .ok ((Placement.of placed stop).weave prologue epilogue (placed.map Prod.fst)) := by
  obtain ⟨ht, hcode, -⟩ := h.weave_spec hne hp he se
  exact decode_eq_ok_iff.2 ⟨ht, hcode⟩

end Decoding

end ClassWeaver
