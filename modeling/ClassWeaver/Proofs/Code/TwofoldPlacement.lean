import ClassWeaver.Proofs.Code.ControlFlow

namespace ClassWeaver

open Instruction

def Insertion.within (inner outer : Insertion) : Insertion :=
  ⟨outer.prologue ++ inner.prologue, inner.epilogue ++ outer.epilogue⟩

namespace Instruction

/-- No branch, no switch and no return. -/
def IsPlain (i : Instruction) : Prop := i.operand.deltas = [] ∧ i.isReturn = false

instance (i : Instruction) : Decidable i.IsPlain := inferInstanceAs (Decidable (_ ∧ _))

lemma IsPlain.operand_eq {i : Instruction} (h : i.IsPlain) :
    ∃ bytes, i.operand = .plain bytes := by
  obtain ⟨hd, -⟩ := h
  cases hx : i.operand with
  | plain bytes => exact ⟨bytes, rfl⟩
  | _ =>
    rw [hx] at hd
    cases hd

lemma IsPlain.epilogueOf {i : Instruction} (h : i.IsPlain) (ins : Insertion) :
    i.epilogueOf ins = [] := by
  simp [Instruction.epilogueOf, h.2]

lemma epilogueOf_append (i : Instruction) (as bs : Bytes) :
    i.epilogueOf ⟨[], as ++ bs⟩ = i.epilogueOf ⟨[], as⟩ ++ i.epilogueOf ⟨[], bs⟩ := by
  unfold Instruction.epilogueOf
  split <;> rfl

lemma IsPlain.sizeAt {i : Instruction} (h : i.IsPlain) (pos : Nat) : i.sizeAt pos = i.size := by
  obtain ⟨bytes, hx⟩ := h.operand_eq
  simp [Instruction.sizeAt, hx]

lemma Alike.sizeAt {i j : Instruction} (h : i.Alike j) (pos : Nat) : j.sizeAt pos = i.sizeAt pos := by
  obtain ⟨offset, opcode, operand⟩ := i
  obtain ⟨offset', opcode', operand'⟩ := j
  obtain ⟨-, h⟩ := h
  cases operand with
  | «switch» padding table =>
    cases operand' with
    | «switch» padding' table' =>
      obtain ⟨hl, hc⟩ := h
      have hlen : table.cases.length = table'.cases.length := by
        simpa using congrArg List.length hc
      simp only [Instruction.sizeAt, Switch.sizeAt, Switch.size, hl, hlen]
    | _ => cases h
  | plain bytes =>
    cases operand' with
    | plain bytes' =>
      obtain rfl : bytes = bytes' := h
      rfl
    | _ => cases h
  | _ => cases operand' <;> first | rfl | cases h

lemma isPlain_layAt {is : List Instruction} (h : ∀ i ∈ is, i.IsPlain) (pos : Nat) :
    ∀ i ∈ layAt pos is, i.IsPlain := by
  intro i hi
  obtain ⟨j, hj, rfl⟩ := List.mem_map.1 hi
  exact h j hj

section Placed

variable {ins : Insertion} {pos stop : Nat} {placed : List (Instruction × Place)}

lemma PlacedFrom.append_iff {as bs : List (Instruction × Place)} :
    PlacedFrom ins pos (as ++ bs) stop ↔
      ∃ mid, PlacedFrom ins pos as mid ∧ PlacedFrom ins mid bs stop := by
  induction as generalizing pos with
  | nil => simp [PlacedFrom]
  | cons a as ih =>
    obtain ⟨i, p⟩ := a
    simp only [List.cons_append, PlacedFrom, ih]
    constructor
    · rintro ⟨hp, mid, h1, h2⟩
      exact ⟨mid, ⟨hp, h1⟩, h2⟩
    · rintro ⟨mid, ⟨hp, h1⟩, h2⟩
      exact ⟨hp, mid, h1, h2⟩

lemma PlacedFrom.without_prologue (h : PlacedFrom ins pos placed stop)
    (hlater : ∀ a ∈ placed, a.1.offset ≠ 0) : PlacedFrom ⟨[], ins.epilogue⟩ pos placed stop := by
  induction placed generalizing pos with
  | nil => exact h
  | cons a placed ih =>
    obtain ⟨i, p⟩ := a
    obtain ⟨hp, h⟩ := h
    have h0 : i.offset ≠ 0 := hlater _ List.mem_cons_self
    refine ⟨?_, ih h fun b hb => hlater b (List.mem_cons_of_mem _ hb)⟩
    rw [hp]
    simp [placeAt, prologueOf, Instruction.epilogueOf, h0]

lemma PlacedFrom.behind (h : PlacedFrom ins 0 placed stop)
    (ht : Tiles 0 (placed.map Prod.fst)) (hne : placed ≠ []) :
    PlacedFrom ⟨[], ins.epilogue⟩ ins.prologue.length placed stop := by
  cases placed with
  | nil => exact absurd rfl hne
  | cons a placed =>
    obtain ⟨i, p⟩ := a
    obtain ⟨hp, h⟩ := h
    obtain ⟨h0, -, ht⟩ := ht
    dsimp only at h0 ht
    refine ⟨?_, h.without_prologue ?_⟩
    · rw [hp]
      simp [placeAt, prologueOf, Instruction.epilogueOf, h0]
    · rintro ⟨j, q⟩ hq
      have hle := ht.le_offset (List.mem_map_of_mem hq)
      have hpos := i.size_pos
      rw [Instruction.stop] at hle
      dsimp only at hle ⊢
      omega

lemma PlacedFrom.pass {epilogue : Bytes} (h : PlacedFrom ⟨[], epilogue⟩ pos placed stop)
    (hplain : ∀ i ∈ placed.map Prod.fst, i.IsPlain) :
    stop = pos + total size (placed.map Prod.fst) := by
  induction placed generalizing pos with
  | nil => exact h
  | cons a placed ih =>
    obtain ⟨i, p⟩ := a
    obtain ⟨hp, h⟩ := h
    have hi : i.IsPlain := hplain i List.mem_cons_self
    have hrest := ih h fun j hj => hplain j (List.mem_cons_of_mem _ hj)
    simp only [hp, placeAt, prologueOf, ite_self, hi.epilogueOf, hi.sizeAt, List.length_nil,
      Nat.add_zero] at hrest
    rw [hrest, List.map_cons, total_cons, Nat.add_assoc]

end Placed

end Instruction

structure Placement.Composes (m₁ m₂ m : Placement) : Prop where
  places : ∀ {old : Nat} {p : Place}, m₁.place? old = some p → ∃ q r s,
    m₂.place? p.block = some q ∧ m₂.place? p.instruction = some r ∧ m.place? old = some s ∧
      q.block = s.block ∧ r.instruction = s.instruction
  bounded : ∀ {old : Nat} {p : Place}, m₁.place? old = some p →
    p.block ≤ p.instruction ∧ p.instruction ≤ Code.maxLength
  ordered : ∀ {a b : Nat} {p q : Place}, m₁.place? a = some p → m₁.place? b = some q → a ≤ b →
    p.block ≤ q.block

structure Stacked (pool pool₁ : Pool) (code : Code) (inner outer : Insertion)
    (prologue epilogue : List Instruction) (body₁ body₂ body : Body)
    (placed₁ placed₂ placed : List (Instruction × Place)) (stop₁ stop₂ stop : Nat) : Prop where
  nonempty : code.bytes ≠ []
  decode_prologue : decode inner.prologue = .ok prologue
  decode_epilogue : decode inner.epilogue = .ok epilogue
  plain_prologue : ∀ i ∈ prologue, i.IsPlain
  plain_epilogue : ∀ i ∈ epilogue, i.IsPlain
  first : Relocates pool code inner body₁ placed₁ stop₁
  second : Relocates pool₁ body₁.code outer body₂ placed₂ stop₂
  both : Relocates pool code (inner.within outer) body placed stop

/-- Where an instruction of the first code stands after the second relocation: as its image under
the first, behind all that was inserted, and the block begins where the first one began. -/
def Arrives (m₁ : Placement) (placed₂ : List (Instruction × Place))
    (a₁ a : Instruction × Place) : Prop :=
  a₁.1 = a.1 ∧ (∃ b ∈ placed₂, b.1.offset = a₁.2.block ∧ b.2.block = a.2.block) ∧
    ∃ q, (m₁.image a₁.1, q) ∈ placed₂ ∧ q.instruction = a.2.instruction

lemma Arrives.mono {m₁ : Placement} {as bs : List (Instruction × Place)}
    {a₁ a : Instruction × Place} (h : Arrives m₁ as a₁ a) (hs : as ⊆ bs) : Arrives m₁ bs a₁ a := by
  obtain ⟨he, ⟨b, hb, hblock⟩, q, hq, hinstruction⟩ := h
  exact ⟨he, ⟨b, hs hb, hblock⟩, q, hs hq, hinstruction⟩

namespace Stacked

variable {pool pool₁ : Pool} {code : Code} {inner outer : Insertion}
  {prologue epilogue : List Instruction} {body₁ body₂ body : Body}
  {placed₁ placed₂ placed : List (Instruction × Place)} {stop₁ stop₂ stop : Nat}

section

variable (h : Stacked pool pool₁ code inner outer prologue epilogue body₁ body₂ body
  placed₁ placed₂ placed stop₁ stop₂ stop)

include h

lemma same_code : placed.map Prod.fst = placed₁.map Prod.fst := by
  have hd := h.both.decoded
  rw [h.first.decoded] at hd
  exact (Except.ok.inj hd).symm

lemma woven_code : placed₂.map Prod.fst =
    (Placement.of placed₁ stop₁).weave prologue epilogue (placed₁.map Prod.fst) := by
  have hd := h.second.decoded
  rw [h.first.decode_weave h.nonempty h.decode_prologue h.decode_epilogue fun i hi =>
    (h.plain_epilogue i hi).1] at hd
  exact (Except.ok.inj hd).symm

lemma image_sizeAt {i : Instruction} {p : Place} (hi : (i, p) ∈ placed₁) (pos : Nat) :
    ((Placement.of placed₁ stop₁).image i).sizeAt pos = i.sizeAt pos :=
  (h.first.image_fits hi).2.1.sizeAt pos

lemma image_isReturn {i : Instruction} {p : Place} (hi : (i, p) ∈ placed₁) :
    ((Placement.of placed₁ stop₁).image i).isReturn = i.isReturn := by
  rw [isReturn, isReturn, (h.first.image_fits hi).2.1.1]

lemma plain_inserted (i : Instruction) (pos : Nat) :
    ∀ j ∈ (if i.isReturn then layAt pos epilogue else []), j.IsPlain := by
  split
  · exact isPlain_layAt h.plain_epilogue pos
  · exact List.forall_mem_nil _

lemma woven_block {i : Instruction} {p : Place} {pos stop' : Nat}
    {block : List (Instruction × Place)} (hi : (i, p) ∈ placed₁)
    (hb : PlacedFrom ⟨[], outer.epilogue⟩ pos block stop')
    (hcode : block.map Prod.fst = (Placement.of placed₁ stop₁).woven epilogue i) :
    ∃ run q, block = run ++ [((Placement.of placed₁ stop₁).image i, q)] ∧
      run.map Prod.fst = (if i.isReturn then layAt p.block epilogue else []) ∧
        total size (run.map Prod.fst) = (i.epilogueOf ⟨[], inner.epilogue⟩).length ∧
          q.block = pos + (i.epilogueOf ⟨[], inner.epilogue⟩).length ∧
            q.instruction = (i.placeAt ⟨[], inner.epilogue ++ outer.epilogue⟩ pos).instruction ∧
              stop' = q.instruction + i.sizeAt q.instruction := by
  obtain ⟨-, hbytes⟩ := decode_eq_ok_iff.1 h.decode_epilogue
  rw [Placement.woven, List.map_eq_append_iff, h.first.start_eq hi] at hcode
  obtain ⟨run, last, rfl, hrun, hlast⟩ := hcode
  obtain ⟨⟨j, q⟩, last, rfl, hj, hnil⟩ := List.map_eq_cons_iff.1 hlast
  rw [List.map_eq_nil_iff] at hnil
  subst hnil hj
  obtain ⟨mid, hr, hq, hstop⟩ := PlacedFrom.append_iff.1 hb
  have hlen : total size (run.map Prod.fst) = (i.epilogueOf ⟨[], inner.epilogue⟩).length := by
    have hinserted : i.epilogueOf ⟨[], inner.epilogue⟩ = encodeAll (run.map Prod.fst) := by
      rw [hrun]
      exact epilogueOf_eq hbytes i _
    rw [hinserted, length_encodeAll]
  have hmid : mid = pos + (i.epilogueOf ⟨[], inner.epilogue⟩).length := by
    have hplain := h.plain_inserted i p.block
    rw [← hrun] at hplain
    rw [hr.pass hplain, hlen]
  have hinner : ((Placement.of placed₁ stop₁).image i).epilogueOf ⟨[], outer.epilogue⟩ =
      i.epilogueOf ⟨[], outer.epilogue⟩ := by
    rw [epilogueOf, epilogueOf, h.image_isReturn hi]
  have hq' : q = ⟨mid, mid + (i.epilogueOf ⟨[], outer.epilogue⟩).length⟩ := by
    rw [hq]
    simp [placeAt, prologueOf, hinner]
  refine ⟨run, q, rfl, hrun, hlen, by rw [hq', hmid], ?_, by rw [hstop, h.image_sizeAt hi]⟩
  rw [hq', hmid]
  simp [placeAt, prologueOf, epilogueOf_append, Nat.add_assoc]

lemma arrives_block {i : Instruction} {pos₁ pos stop' : Nat} {block : List (Instruction × Place)}
    (hi : (i, i.placeAt ⟨[], inner.epilogue⟩ pos₁) ∈ placed₁)
    (hb : PlacedFrom ⟨[], outer.epilogue⟩ pos block stop')
    (hcode : block.map Prod.fst = (Placement.of placed₁ stop₁).woven epilogue i) :
    Arrives (Placement.of placed₁ stop₁) block (i, i.placeAt ⟨[], inner.epilogue⟩ pos₁)
        (i, i.placeAt ⟨[], inner.epilogue ++ outer.epilogue⟩ pos) ∧
      stop' = (i.placeAt ⟨[], inner.epilogue ++ outer.epilogue⟩ pos).instruction +
        i.sizeAt (i.placeAt ⟨[], inner.epilogue ++ outer.epilogue⟩ pos).instruction := by
  obtain ⟨run, q, rfl, hrun, hlen, hblock, hinstruction, hstop⟩ := h.woven_block hi hb hcode
  refine ⟨⟨rfl, ?_, q, by simp, hinstruction⟩, by rw [hstop, hinstruction]⟩
  -- the block begins with the image only where the first relocation inserted nothing
  cases run with
  | nil =>
    obtain ⟨x, -, hx⟩ := h.first.image_eq hi
    rw [List.map_nil, total_nil] at hlen
    refine ⟨_, List.mem_cons_self, ?_, ?_⟩
    · rw [hx]
      simp [placeAt, ← hlen]
    · rw [hblock, ← hlen]
      simp [placeAt, prologueOf]
  | cons b run =>
    obtain ⟨j, r⟩ := b
    obtain ⟨hr, -⟩ := hb
    refine ⟨(j, r), List.mem_cons_self, ?_, ?_⟩
    · split at hrun
      · cases epilogue with
        | nil => cases hrun
        | cons e epilogue =>
          obtain ⟨rfl, -⟩ := List.cons.inj hrun
          dsimp only
          rw [(decode_eq_ok_iff.1 h.decode_epilogue).1.1, Nat.add_zero]
      · cases hrun
    · rw [hr]
      simp [placeAt, prologueOf]

lemma arrives {pos₁ pos : Nat} {tail₁ tail₂ tail : List (Instruction × Place)}
    (hmem : ∀ a ∈ tail₁, a ∈ placed₁)
    (h₁ : PlacedFrom ⟨[], inner.epilogue⟩ pos₁ tail₁ stop₁)
    (h₂ : PlacedFrom ⟨[], outer.epilogue⟩ pos tail₂ stop₂)
    (hb : PlacedFrom ⟨[], inner.epilogue ++ outer.epilogue⟩ pos tail stop)
    (hcode : tail.map Prod.fst = tail₁.map Prod.fst)
    (hwoven : tail₂.map Prod.fst =
      (tail₁.map Prod.fst).flatMap ((Placement.of placed₁ stop₁).woven epilogue)) :
    stop₂ = stop ∧
      List.Forall₂ (Arrives (Placement.of placed₁ stop₁) tail₂) tail₁ tail := by
  induction tail₁ generalizing pos₁ pos tail₂ tail with
  | nil =>
    obtain rfl : tail = [] := List.map_eq_nil_iff.1 hcode
    obtain rfl : tail₂ = [] := List.map_eq_nil_iff.1 hwoven
    obtain rfl : stop₂ = pos := h₂
    exact ⟨hb.symm, .nil⟩
  | cons a₁ tail₁ ih =>
    obtain ⟨i, p₁⟩ := a₁
    obtain ⟨⟨i', p⟩, tail, rfl, hi, hrest⟩ := List.map_eq_cons_iff.1 hcode
    obtain rfl : i' = i := hi
    rw [List.map_cons, List.flatMap_cons, List.map_eq_append_iff] at hwoven
    obtain ⟨block, tail₂, rfl, hblock, hwoven⟩ := hwoven
    obtain ⟨mid, hmid, h₂⟩ := PlacedFrom.append_iff.1 h₂
    obtain ⟨hp₁, h₁⟩ := h₁
    obtain ⟨hp, hb⟩ := hb
    subst hp₁ hp
    obtain ⟨harrives, rfl⟩ := h.arrives_block (hmem _ List.mem_cons_self) hmid hblock
    obtain ⟨hstop, hall⟩ :=
      ih (fun a ha => hmem a (List.mem_cons_of_mem _ ha)) h₁ h₂ hb hrest hwoven
    refine ⟨hstop, .cons (harrives.mono (List.subset_append_left _ _)) ?_⟩
    exact hall.imp fun _ _ ha => ha.mono (List.subset_append_right _ _)

lemma placed₂_ne_nil : placed₂ ≠ [] := by
  rintro rfl
  have hwoven := h.woven_code
  rw [List.map_nil, Placement.weave, eq_comm, List.append_eq_nil_iff] at hwoven
  cases placed₁ with
  | nil => exact h.first.placed_ne_nil h.nonempty rfl
  | cons a placed₁ => simp [Placement.woven] at hwoven

lemma arrives_all : stop₂ = stop ∧
    List.Forall₂ (Arrives (Placement.of placed₁ stop₁) placed₂) placed₁ placed := by
  have hne₁ := h.first.placed_ne_nil h.nonempty
  have hne : placed ≠ [] := by
    rintro rfl
    exact hne₁ (List.map_eq_nil_iff.1 h.same_code.symm)
  have hwoven := h.woven_code
  rw [Placement.weave, List.map_eq_append_iff] at hwoven
  obtain ⟨head, tail₂, hsplit, hhead, hwoven⟩ := hwoven
  have hplaces₂ := h.second.places.behind h.second.tiles h.placed₂_ne_nil
  rw [hsplit] at hplaces₂
  obtain ⟨mid, hmid, hplaces₂⟩ := PlacedFrom.append_iff.1 hplaces₂
  have hlen := hmid.pass (hhead ▸ h.plain_prologue)
  have hplaces := h.both.places.behind h.both.tiles hne
  have hstart : (inner.within outer).prologue.length = mid := by
    rw [hlen, hhead, ← length_encodeAll, ← (decode_eq_ok_iff.1 h.decode_prologue).2]
    exact List.length_append
  rw [hstart] at hplaces
  obtain ⟨hstop, hall⟩ := h.arrives (fun _ ha => ha)
    (h.first.places.behind h.first.tiles hne₁) hplaces₂ hplaces h.same_code hwoven
  rw [hsplit]
  exact ⟨hstop, hall.imp fun _ _ ha => ha.mono (List.subset_append_right _ _)⟩

theorem composes : Placement.Composes (Placement.of placed₁ stop₁) (Placement.of placed₂ stop₂)
    (Placement.of placed stop) := by
  obtain ⟨rfl, hall⟩ := h.arrives_all
  refine ⟨?_, ?_, ?_⟩
  · intro old p hp
    rcases (Placement.place?_eq_some_iff h.first.tiles).1 hp with ⟨i, hi, rfl⟩ | ⟨rfl, rfl⟩
    · obtain ⟨⟨j, s⟩, hj, he, ⟨b, hb, hblock, hblock'⟩, q, hq, hinstruction⟩ :=
        exists_of_forall₂ hall hi
      obtain rfl : i = j := he
      obtain ⟨x, -, hx⟩ := h.first.image_eq hi
      have hat : (Placement.of placed₂ stop₂).place? p.instruction = some q := by
        have hfound : (Placement.of placed₂ stop₂).place? _ = some q :=
          Placement.place?_of_mem h.second.tiles hq
        rwa [hx] at hfound
      exact ⟨b.2, q, s, hblock ▸ Placement.place?_of_mem h.second.tiles hb, hat,
        Placement.place?_of_mem h.both.tiles hj, hblock', hinstruction⟩
    · obtain ⟨-, hbytes, hlen⟩ := h.first.weave_spec h.nonempty h.decode_prologue
        h.decode_epilogue fun i hi => (h.plain_epilogue i hi).1
      have hend : total size (placed₂.map Prod.fst) = stop₁ := by
        rw [h.woven_code, ← length_encodeAll, ← hbytes, hlen]
      have hold : total size (placed.map Prod.fst) = total size (placed₁.map Prod.fst) := by
        rw [h.same_code]
      exact ⟨_, _, _, hend ▸ Placement.place?_end h.second.tiles,
        hend ▸ Placement.place?_end h.second.tiles,
        hold ▸ Placement.place?_end h.both.tiles, rfl, rfl⟩
  · intro old p hp
    have := Placement.block_le h.first.places h.first.tiles hp
    have := h.first.stop_le
    omega
  · intro a b p q hp hq hle
    rcases Nat.eq_or_lt_of_le hle with rfl | hlt
    · rw [hp] at hq
      cases hq
      exact Nat.le_refl _
    · have := Placement.place?_lt h.first.places h.first.tiles hp hq hlt
      have := Placement.block_le h.first.places h.first.tiles hp
      omega

end

end Stacked

end ClassWeaver
