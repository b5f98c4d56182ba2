import ClassWeaver.Proofs.Code.StackSimulation

namespace ClassWeaver

open Instruction Function

namespace Placement

/-- The offset that a value remembers in the new code. What is no instruction goes behind the end. -/
def rename (m : Placement) (stop old : Nat) : Nat := (m.instruction? old).getD (stop + 1 + old)

lemma rename_of_place {m : Placement} {old : Nat} {p : Place} (h : m.place? old = some p)
    (stop : Nat) : m.rename stop old = p.instruction := by
  rw [rename, instruction?, h]
  rfl

lemma rename_of_none {m : Placement} {old : Nat} (h : m.place? old = none) (stop : Nat) :
    m.rename stop old = stop + 1 + old := by
  rw [rename, instruction?, h]
  rfl

lemma start_of_place {m : Placement} {old : Nat} {p : Place} (h : m.place? old = some p) :
    m.start old = p.block := by
  rw [start, h]
  rfl

lemma block_eq_ok_iff {m : Placement} {old new : Nat} :
    m.block old = .ok new ↔ ∃ p, m.place? old = some p ∧ p.block = new := by
  unfold block
  cases m.place? old <;> simp

variable {ins : Insertion} {placed : List (Instruction × Place)} {stop : Nat}

lemma rename_injective (h : PlacedFrom ins 0 placed stop) (ht : Tiles 0 (placed.map Prod.fst)) :
    Injective ((of placed stop).rename stop) := by
  intro a b hab
  cases hp : (of placed stop).place? a with
  | none =>
    rw [rename_of_none hp] at hab
    cases hq : (of placed stop).place? b with
    | none =>
      rw [rename_of_none hq] at hab
      omega
    | some q =>
      have hle := (block_le h ht hq).2
      rw [rename_of_place hq] at hab
      omega
  | some p =>
    rw [rename_of_place hp] at hab
    cases hq : (of placed stop).place? b with
    | none =>
      have hle := (block_le h ht hp).2
      rw [rename_of_none hq] at hab
      omega
    | some q =>
      rw [rename_of_place hq] at hab
      exact place?_inj h ht hp hq hab

end Placement

namespace Relocates

variable {filePool pool : Pool} {code : Code} {ins : Insertion} {body : Body}
  {placed : List (Instruction × Place)} {stop extra : Nat} {prologue epilogue : List Instruction}

lemma lands_of_place (h : Relocates filePool code ins body placed stop) (hne : code.bytes ≠ [])
    (hp : decode ins.prologue = .ok prologue) (he : decode ins.epilogue = .ok epilogue)
    (se : ∀ i ∈ epilogue, i.IsStraight) {old : Nat} {p : Place}
    (hold : (Placement.of placed stop).place? old = some p) :
    (Placement.of placed stop).Lands (placed.map Prod.fst)
      ((Placement.of placed stop).weave prologue epilogue (placed.map Prod.fst)) old := by
  have hstart := Placement.start_of_place hold
  rcases (Placement.place?_eq_some_iff h.tiles).1 hold with ⟨i, hi, ho⟩ | ⟨-, rfl⟩
  · exact .inl ⟨i, List.mem_map_of_mem hi, ho⟩
  · apply Or.inr
    intro x hx
    obtain ⟨ht, hcode, hlen⟩ := h.weave_spec hne hp he fun i hi => (se i hi).1
    have hle := ht.stop_le hx
    have hpos := x.size_pos
    rw [hcode, length_encodeAll] at hlen
    rw [Instruction.stop] at hle
    rw [hstart]
    dsimp only
    omega

lemma exists_place_stop (h : Relocates filePool code ins body placed stop) {i : Instruction}
    (hi : i ∈ placed.map Prod.fst) :
    ∃ p, (Placement.of placed stop).place? i.stop = some p ∧
      p.block = ((Placement.of placed stop).image i).stop := by
  obtain ⟨p, hip⟩ := h.exists_place hi
  obtain ⟨x, -, hx⟩ := h.image_eq hip
  have hstop : ((Placement.of placed stop).image i).stop =
      p.instruction + i.sizeAt p.instruction := by
    rw [Instruction.stop, (h.image_fits hip).2.2.2, hx]
  rw [hstop]
  obtain ⟨as, bs, hsplit⟩ := List.append_of_mem hip
  have hplaces := h.places
  have ht := h.tiles
  rw [hsplit, List.map_append, List.map_cons] at ht
  rw [hsplit] at hplaces
  have hnext := hplaces.next
  -- behind the last instruction is the end of the code, behind any other one is a block
  cases bs with
  | nil =>
    have hend : i.stop = total size (placed.map Prod.fst) := by
      rw [Instruction.stop, ht.offset_eq, hsplit, List.map_append, List.map_cons, List.map_nil,
        total_append, total_cons, total_nil]
      dsimp only
      omega
    rw [hend]
    exact ⟨_, Placement.place?_end h.tiles, hnext⟩
  | cons b bs =>
    obtain ⟨j, q⟩ := b
    have hj : (j, q) ∈ placed := by simp [hsplit]
    have ho : j.offset = i.stop := ht.offset_of_append_cons
    have hpos := i.size_pos
    have hprologue : j.prologueOf ins = [] := by
      rw [prologueOf, if_neg]
      rw [ho, Instruction.stop]
      omega
    refine ⟨q, ho ▸ Placement.place?_of_mem h.tiles hj, ?_⟩
    rw [hnext.1, placeAt, hprologue]
    rfl

lemma pc_spec (h : Relocates filePool code ins body placed stop) {old new : UInt16}
    (hpc : (Placement.of placed stop).pc old = .ok new) :
    ∃ p, (Placement.of placed stop).place? old.toNat = some p ∧ new.toNat = p.block := by
  obtain ⟨block, hb, rfl⟩ := map_eq_ok_iff.1 hpc
  obtain ⟨p, hold, rfl⟩ := Placement.block_eq_ok_iff.1 hb
  have hle := Placement.block_le h.places h.tiles hold
  have hmax := h.stop_le
  rw [Code.maxLength] at hmax
  refine ⟨p, hold, ?_⟩
  rw [UInt16.toNat_ofNat']
  omega

lemma mirrors (h : Relocates filePool code ins body placed stop) (hne : code.bytes ≠ [])
    (hp : decode ins.prologue = .ok prologue) (he : decode ins.epilogue = .ok epilogue)
    (np : Neutral pool extra prologue) (ne : Neutral pool extra epilogue) :
    Mirrors pool code.asBody body (Placement.of placed stop)
      ((Placement.of placed stop).rename stop) extra prologue epilogue (placed.map Prod.fst) := by
  have sp := fun i hi => (np.straight i hi).1
  have se := fun i hi => (ne.straight i hi).1
  refine ⟨h.isWoven hne hp he sp se, ?_, np, ne, Placement.rename_injective h.places h.tiles, ?_,
    ?_, ?_, ?_⟩
  · intro hnil
    exact h.placed_ne_nil hne (List.map_eq_nil_iff.1 hnil)
  · intro i hi
    obtain ⟨p, hip⟩ := h.exists_place hi
    obtain ⟨x, -, hx⟩ := h.image_eq hip
    rw [hx, Placement.rename_of_place (Placement.place?_of_mem h.tiles hip)]
  · intro i hi
    obtain ⟨p, hold, hstop⟩ := h.exists_place_stop hi
    exact ⟨h.lands_of_place hne hp he se hold, by rw [← hstop, Placement.start_of_place hold]⟩
  · apply h.handlers.imp
    intro handler handler' hmove
    obtain ⟨start, -, hmove⟩ := bind_eq_ok_iff.1 hmove
    obtain ⟨last, -, hmove⟩ := bind_eq_ok_iff.1 hmove
    obtain ⟨target, ht, hmove⟩ := bind_eq_ok_iff.1 hmove
    cases hmove
    obtain ⟨p, hold, hnew⟩ := h.pc_spec ht
    exact ⟨h.lands_of_place hne hp he se hold, by rw [Placement.start_of_place hold, hnew]⟩
  · apply h.frames_carried.1.imp
    intro frame frame' hmove
    obtain ⟨offset, ho, hmove⟩ := bind_eq_ok_iff.1 hmove
    obtain ⟨kind, hk, hmove⟩ := bind_eq_ok_iff.1 hmove
    cases hmove
    obtain ⟨p, hold, rfl⟩ := Placement.block_eq_ok_iff.1 ho
    refine ⟨h.lands_of_place hne hp he se hold, (Placement.start_of_place hold).symm,
      FrameKind.declaredStack_mapOffset ?_ hk⟩
    intro old new hnew
    rw [Placement.rename]
    unfold Relocation.moveNew at hnew
    split at hnew
    · next n hn =>
      cases hnew
      rw [hn]
      rfl
    · cases hnew

lemma length_bytes (h : Relocates filePool code ins body placed stop) (hne : code.bytes ≠ [])
    (hp : decode ins.prologue = .ok prologue) (he : decode ins.epilogue = .ok epilogue)
    (se : ∀ i ∈ epilogue, i.operand.deltas = []) :
    1 ≤ body.code.bytes.length ∧ body.code.bytes.length ≤ Code.maxLength := by
  obtain ⟨-, -, hlen⟩ := h.weave_spec hne hp he se
  obtain ⟨⟨i, p⟩, rest, hcons⟩ := List.exists_cons_of_ne_nil (h.placed_ne_nil hne)
  have hmem : (i, p) ∈ placed := by simp [hcons]
  have hbound := (h.places.mem_bounds hmem).2.2
  have hsize : 0 < i.sizeAt p.instruction := sizeAt_pos i
  have hmax := h.stop_le
  omega

lemma check_iff (h : Relocates filePool code ins body placed stop) (hne : code.bytes ≠ [])
    (hp : decode ins.prologue = .ok prologue) (he : decode ins.epilogue = .ok epilogue)
    (se : ∀ i ∈ epilogue, i.IsStraight) {n : Nat} :
    body.check pool = .ok n ↔
      Flows pool body
        ((Placement.of placed stop).weave prologue epilogue (placed.map Prod.fst)) ∧
      IsGreatest (pathDepths pool body
        ((Placement.of placed stop).weave prologue epilogue (placed.map Prod.fst))) n := by
  obtain ⟨hpos, hmax⟩ := h.length_bytes hne hp he fun i hi => (se i hi).1
  rw [Body.check_iff_flows h.frames_carried.2, and_iff_right hpos, and_iff_right hmax,
    h.decode_weave hne hp he fun i hi => (se i hi).1]
  simp

lemma exists_check (h : Relocates filePool code ins body placed stop) (hne : code.bytes ≠ [])
    (hp : decode ins.prologue = .ok prologue) (he : decode ins.epilogue = .ok epilogue)
    (se : ∀ i ∈ epilogue, i.IsStraight) (hf : Flows pool body
      ((Placement.of placed stop).weave prologue epilogue (placed.map Prod.fst))) :
    ∃ n, body.check pool = .ok n := by
  obtain ⟨hpos, hmax⟩ := h.length_bytes hne hp he fun i hi => (se i hi).1
  exact Body.exists_check_of_flows h.frames_carried.2 hpos hmax
    (h.decode_weave hne hp he fun i hi => (se i hi).1) hf

end Relocates

section Comparison

variable {pool : Pool} {old : Body} {is : List Instruction}

lemma Flows.maxDepth_mem (h : Flows pool old is) :
    Flow.maxDepth ∈ upperBounds (pathDepths pool old is) := by
  rintro n (⟨-, rfl⟩ | ⟨i, hi, before, after, hr, ha, rfl⟩)
  · decide
  · obtain ⟨after', ha', hmax, -⟩ := h.step i hi before hr
    rw [ha] at ha'
    cases ha'
    exact hmax

end Comparison

/-- Neutral code that needs at most `extra` more slots keeps a body accepted, and deepens it by no
more than that; and it makes no body accepted that was not. -/
theorem Code.relocate_neutral {filePool pool : Pool} {code : Code} {ins : Insertion}
    {plain woven : Body} {prologue epilogue : List Instruction} {extra : Nat}
    (hne : code.bytes ≠ []) (hplain : code.relocate filePool ⟨[], []⟩ = .ok plain)
    (hwoven : code.relocate filePool ins = .ok woven) (hp : decode ins.prologue = .ok prologue)
    (he : decode ins.epilogue = .ok epilogue) (np : Neutral pool extra prologue)
    (ne : Neutral pool extra epilogue) :
    (∀ n, plain.check pool = .ok n → n + extra ≤ Flow.maxDepth →
      ∃ n', woven.check pool = .ok n' ∧ n ≤ n' ∧ n' ≤ n + extra) ∧
      ∀ n', woven.check pool = .ok n' → ∃ n, plain.check pool = .ok n := by
  obtain ⟨placed, stop, hr⟩ := relocates hplain
  obtain ⟨placed', stop', hr'⟩ := relocates hwoven
  have hnil : decode [] = .ok [] := decode_eq_ok_iff.2 ⟨trivial, rfl⟩
  have se := fun i hi => (ne.straight i hi).1
  -- both mirror the same body, whose instructions do not depend on what is inserted
  have hsame : placed'.map Prod.fst = placed.map Prod.fst := by
    have hd := hr.decoded
    rw [hr'.decoded] at hd
    exact Except.ok.inj hd
  have nothing : Neutral pool 0 [] := .nil
  have hm := hr.mirrors hne hnil hnil nothing nothing
  have hm' := hr'.mirrors hne hp he np ne
  rw [hsame] at hm'
  constructor
  · intro n hn hroom
    obtain ⟨hf, hg⟩ := (hr.check_iff hne hnil hnil nofun).1 hn
    have hold := hm.flows_old hf
    have hbound : n ∈ upperBounds (pathDepths pool code.asBody (placed.map Prod.fst)) :=
      fun k hk => hg.2 (hm.depths_subset hk)
    have hnew := hm'.flows_new hold hbound hroom
    rw [← hsame] at hnew
    obtain ⟨n', hn'⟩ := hr'.exists_check hne hp he se hnew
    obtain ⟨-, hg'⟩ := (hr'.check_iff hne hp he se).1 hn'
    rw [hsame] at hg'
    refine ⟨n', hn', ?_, hm'.depths_le hold hbound hg'.1⟩
    have hbound' : n' ∈ upperBounds (pathDepths pool code.asBody (placed.map Prod.fst)) :=
      fun k hk => hg'.2 (hm'.depths_subset hk)
    exact hm.depths_le hold hbound' hg.1
  · intro n' hn'
    obtain ⟨hf', -⟩ := (hr'.check_iff hne hp he se).1 hn'
    rw [hsame] at hf'
    have hold := hm'.flows_old hf'
    exact hr.exists_check hne hnil hnil nofun
      (hm.flows_new hold hold.maxDepth_mem (Nat.le_refl _))

end ClassWeaver
