import ClassWeaver.Proofs.Code.RelocatedCode

namespace ClassWeaver

@[simp] lemma mapError_fault_ne_overflow {ε α : Type} {x : Except ε α} :
    x.mapError Abort.fault ≠ .error .overflow := by
  cases x <;> simp [Except.mapError]

lemma Instruction.Alike.overflows_iff {i j : Instruction} (h : i.Alike j) :
    i.Overflows ↔ j.Overflows := by
  obtain ⟨offset, opcode, x⟩ := i
  obtain ⟨offset', opcode', y⟩ := j
  have hxy : x.Alike y := h.2
  cases x with
  | switch padding s =>
    cases y with
    | switch padding' t =>
      obtain ⟨hlow, hkeys⟩ := hxy
      have hlength : s.cases.length = t.cases.length := by simpa using congrArg List.length hkeys
      simp [Instruction.Overflows, Switch.Overflows, hlow, hlength]
    | _ => cases hxy
  | _ =>
    refine iff_of_false (by rintro ⟨_, _, h, -⟩; cases h) ?_
    rintro ⟨padding, t, rfl, -⟩
    cases hxy

namespace Relocation

variable {m : Placement} {ins : Insertion} {placed : List (Instruction × Place)}

lemma emit_eq_overflow_iff {x : Instruction × Place} (hx : x.1.Fits) :
    emit ins m x = .error .overflow ↔ x.1.Overflows ∧ ∃ j, move m x = .ok j := by
  have written : ∀ j, move m x = .ok j → (j.encode? = none ↔ x.1.Overflows) := by
    intro j hj
    obtain ⟨operand, hoperand, hj⟩ := bind_eq_ok_iff.1 hj
    cases hj
    obtain ⟨hfits, halike, -⟩ := moveOperand_spec hx hoperand
    have hj : Instruction.Fits ⟨x.2.instruction, x.1.opcode, operand⟩ := hfits
    rw [Instruction.encode?_eq_none_iff hj]
    have hx' : x.1.Alike ⟨x.2.instruction, x.1.opcode, operand⟩ := ⟨rfl, halike⟩
    exact hx'.overflows_iff.symm
  rw [emit, bind_eq_error_iff, or_iff_right mapError_fault_ne_overflow]
  simp only [mapError_eq_ok_iff]
  constructor
  · rintro ⟨j, hj, h⟩
    split at h
    · cases h
    · next hnone => exact ⟨(written j hj).1 hnone, j, hj⟩
  · rintro ⟨hover, j, hj⟩
    exact ⟨j, hj, by rw [(written j hj).2 hover]⟩

lemma emit_mapM_eq_overflow_iff (hplaced : ∀ x ∈ placed, x.1.Fits) :
    placed.mapM (emit ins m) = .error .overflow ↔ ∃ before x after,
      placed = before ++ x :: after ∧ x.1.Overflows ∧
        ∀ y ∈ before ++ [x], ∃ j, move m y = .ok j := by
  constructor
  · intro h
    obtain ⟨before, x, after, rfl, hbefore, hx⟩ := mapM_eq_error_iff.1 h
    obtain ⟨hover, hmove⟩ := (emit_eq_overflow_iff (hplaced x (by simp))).1 hx
    refine ⟨before, x, after, rfl, hover, fun y hy => ?_⟩
    rcases List.mem_append.1 hy with hy | hy
    · obtain ⟨bs, hbs⟩ := hbefore y hy
      obtain ⟨j, hj, -⟩ := exists_of_emit hbs
      exact ⟨j, hj⟩
    · rw [List.mem_singleton.1 hy]
      exact hmove
  · rintro ⟨before, x, after, rfl, hover, hmove⟩
    -- An instruction before `x` may overflow as well; the first one that does ends the emission.
    induction before with
    | nil =>
      have hx : emit ins m x = .error .overflow :=
        (emit_eq_overflow_iff (hplaced x (by simp))).2 ⟨hover, hmove x (by simp)⟩
      exact mapM_eq_error_iff.2 ⟨[], x, after, rfl, by simp, hx⟩
    | cons y before ih =>
      have hrest := ih (fun z hz => hplaced z (List.mem_cons_of_mem y hz))
        fun z hz => hmove z (List.mem_cons_of_mem y hz)
      rw [List.cons_append, List.mapM_cons, bind_eq_error_iff]
      cases hy : emit ins m y with
      | ok bs => exact .inr ⟨bs, rfl, bind_eq_error_iff.2 (.inl hrest)⟩
      | error abort =>
        refine .inl ?_
        cases abort with
        | overflow => rfl
        | fault fault =>
          obtain ⟨j, hj⟩ := hmove y (by simp)
          rw [emit, hj] at hy
          dsimp only [Except.mapError, bind, Except.bind] at hy
          split at hy <;> cases hy

end Relocation

/-- The end of the new code is no word of 32 bits; or it is an end that a code can have, and a table
that overflows can be moved, as can every instruction before it. -/
def Code.Overflows (code : Code) (ins : Insertion) : Prop :=
  ∃ is placed stop, Instruction.decode code.bytes = .ok is ∧
    Instruction.placeFrom ins 0 is [] = (placed, stop) ∧
    (UInt32.size ≤ stop ∨ stop ≤ Code.maxLength ∧ ∃ before x after,
      placed = before ++ x :: after ∧ x.1.Overflows ∧
        ∀ y ∈ before ++ [x], ∃ j, Relocation.move (Placement.of placed stop) y = .ok j)

theorem Code.relocate_eq_overflow_iff {pool : Pool} {code : Code} {ins : Insertion} :
    code.relocate pool ins = .error .overflow ↔ code.Overflows ins := by
  rw [relocate, bind_eq_error_iff, or_iff_right mapError_fault_ne_overflow, Overflows]
  simp only [mapError_eq_ok_iff]
  refine exists_congr fun is => ?_
  obtain ⟨tail, hplaced, hfst, -⟩ := Instruction.placeFrom_placed ins 0 is []
  generalize Instruction.placeFrom ins 0 is [] = result at hplaced ⊢
  obtain ⟨placed, stop⟩ := result
  obtain rfl : placed = tail := hplaced
  simp only [Prod.mk.injEq, and_assoc, exists_and_left, exists_eq_left']
  refine and_congr_right fun hdecode => ?_
  have hfits : ∀ x ∈ placed, x.1.Fits := fun x hx =>
    (Instruction.decode_eq_ok_iff.1 hdecode).1.fits (hfst ▸ List.mem_map_of_mem hx)
  have hmax : Code.maxLength < UInt32.size := by decide
  by_cases hbig : UInt32.size ≤ stop
  · simp [hbig]
  by_cases hlarge : Code.maxLength < stop
  · simp [hbig, hlarge, Nat.not_le.2 hlarge]
  rw [if_neg hbig, if_neg hlarge, or_iff_right hbig, and_iff_right (Nat.le_of_not_lt hlarge),
    ← Relocation.emit_mapM_eq_overflow_iff hfits, bind_eq_error_iff]
  refine or_iff_left ?_
  rintro ⟨blocks, -, h⟩
  obtain h | ⟨handlers, -, h⟩ := bind_eq_error_iff.1 h
  · exact mapError_fault_ne_overflow h
  obtain h | ⟨moved, -, h⟩ := bind_eq_error_iff.1 h
  · exact mapError_fault_ne_overflow h
  · cases h

namespace Instruction

variable {ins : Insertion} {placed : List (Instruction × Place)} {pos old stop : Nat}

lemma sizeAt_le (i : Instruction) (pos : Nat) : i.sizeAt pos ≤ 4 * i.size := by
  unfold sizeAt
  split
  · next padding table hx =>
    rw [Switch.sizeAt, Switch.paddingAt, size, hx, Operand.size]
    omega
  · omega

lemma PlacedFrom.stop_le (h : PlacedFrom ins pos placed stop)
    (ht : Tiles old (placed.map Prod.fst)) :
    stop ≤ pos + (if old = 0 then ins.prologue.length else 0) +
      (4 + ins.epilogue.length) * total size (placed.map Prod.fst) := by
  induction placed generalizing pos old with
  | nil =>
    rw [show stop = pos from h]
    omega
  | cons x placed ih =>
    obtain ⟨i, p⟩ := x
    obtain ⟨rfl, h⟩ := h
    obtain ⟨rfl, -, ht⟩ := ht
    have hrest := ih h ht
    have hpos := i.size_pos
    have hsize := i.sizeAt_le (i.placeAt ins pos).instruction
    have hprologue : (i.prologueOf ins).length =
        if i.offset = 0 then ins.prologue.length else 0 := by
      unfold prologueOf
      split <;> rfl
    have hepilogue : (i.epilogueOf ins).length ≤ ins.epilogue.length * i.size := by
      unfold epilogueOf
      split
      · exact Nat.le_mul_of_pos_right _ hpos
      · exact Nat.zero_le _
    have hlater : i.stop ≠ 0 := by
      unfold Instruction.stop
      omega
    dsimp only at hrest
    rw [if_neg hlater] at hrest
    rw [List.map_cons, total_cons, Nat.mul_add, Nat.add_mul]
    simp only [placeAt, hprologue] at hsize hrest ⊢
    omega

end Instruction

def Code.HasBoundedTables (code : Code) : Prop :=
  ∀ is, Instruction.decode code.bytes = .ok is → ∀ i ∈ is, ¬ i.Overflows

open Instruction in
lemma Code.not_overflows {code : Code} {ins : Insertion} (short : code.bytes.length ≤ maxLength)
    (few : ins.prologue.length + ins.epilogue.length ≤ 65532) (tables : code.HasBoundedTables) :
    ¬ code.Overflows ins := by
  rintro ⟨is, placed, stop, hdecode, hplaced, hover⟩
  obtain ⟨tail, htail, hfst, hfrom⟩ := placeFrom_placed ins 0 is []
  rw [hplaced] at htail hfrom
  obtain rfl : placed = tail := htail
  obtain ⟨tiles, hbytes⟩ := decode_eq_ok_iff.1 hdecode
  rcases hover with hbig | ⟨-, before, x, after, rfl, hx, -⟩
  · have hstop := hfrom.stop_le (hfst ▸ tiles)
    -- at the worst every byte is a return with all calls in front of it
    have hsize : total size is ≤ 65535 := by
      rw [← length_encodeAll, ← hbytes]
      exact short
    have hmul := Nat.mul_le_mul_left (4 + ins.epilogue.length) hsize
    rw [if_pos rfl, hfst] at hstop
    rw [UInt32.size] at hbig
    dsimp only at hstop
    omega
  · exact tables is hdecode x.1 (hfst ▸ List.mem_map_of_mem (by simp)) hx

end ClassWeaver
