import ClassWeaver.Proofs.Code.Placements

namespace ClassWeaver

def Operand.Alike : Operand → Operand → Prop
  | .plain a, .plain b => a = b
  | .near _, .near _ => True
  | .far _, .far _ => True
  | .switch _ s, .switch _ t => s.low = t.low ∧ s.cases.map (·.1) = t.cases.map (·.1)
  | _, _ => False

def Instruction.Alike (i j : Instruction) : Prop :=
  i.opcode = j.opcode ∧ i.operand.Alike j.operand

lemma Operand.Alike.words {x y : Operand} (h : x.Alike y) :
    x.word8 = y.word8 ∧ x.word16 = y.word16 ∧ x.third = y.third := by
  cases x with
  | plain bytes =>
    cases y with
    | plain bytes' =>
      obtain rfl : bytes = bytes' := h
      exact ⟨rfl, rfl, rfl⟩
    | _ => cases h
  | _ => cases y <;> first | exact ⟨rfl, rfl, rfl⟩ | cases h

lemma Switch.Consecutive.of_map_fst {key : Int32} {as bs : List (Int32 × Int32)}
    (h : Consecutive key as) (he : as.map (·.1) = bs.map (·.1)) : Consecutive key bs := by
  induction as generalizing key bs with
  | nil =>
    cases bs with
    | nil => trivial
    | cons b bs => cases he
  | cons a as ih =>
    cases bs with
    | nil => cases he
    | cons b bs =>
      obtain ⟨hk, hrest⟩ := List.cons.inj he
      exact ⟨hk.symm.trans h.1, ih h.2 hrest⟩

lemma Switch.Fits.of_alike {opcode : UInt8} {s t : Switch} (h : s.Fits opcode)
    (hl : s.low = t.low) (hc : s.cases.map (·.1) = t.cases.map (·.1)) : t.Fits opcode := by
  have hlen : s.cases.length = t.cases.length := by
    simpa using congrArg List.length hc
  obtain ⟨default, low, cases⟩ := s
  obtain ⟨default', low', cases'⟩ := t
  dsimp only at hl hc hlen
  subst hl
  cases low with
  | some low =>
    obtain ⟨hop, hne, hle, hk⟩ := h
    refine ⟨hop, ?_, ?_, Consecutive.of_map_fst hk hc⟩
    · rintro rfl
      rw [List.length_nil, List.length_eq_zero_iff] at hlen
      exact hne hlen
    · dsimp only at hle ⊢
      omega
  | none =>
    obtain ⟨hop, hle⟩ := h
    refine ⟨hop, ?_⟩
    dsimp only at hle ⊢
    omega

namespace Relocation

variable {m : Placement} {i : Instruction} {pos : Nat}

def Leads (m : Placement) (i : Instruction) (pos : Nat) (old new : Int) : Prop :=
  ∃ block : Nat, m.branch i.offset (i.offset + old) = .ok block ∧ pos + new = block

lemma near_toInt {source : Nat} {delta : Int} {d : Int16} (h : near source delta = .ok d) :
    d.toInt = delta := by
  unfold near at h
  split at h
  · next hd =>
    cases h
    rw [Int16.toInt_ofInt_of_le] <;> omega
  · cases h

lemma far_toInt {source : Nat} {delta : Int} {d : Int32} (h : far source delta = .ok d) :
    d.toInt = delta := by
  unfold far at h
  split at h
  · next hd =>
    cases h
    rw [Int32.toInt_ofInt_of_le] <;> omega
  · cases h

lemma leads_of_retarget {old new : Int} (h : retarget m i pos old = .ok new) :
    Leads m i pos old new := by
  obtain ⟨block, hb, rfl⟩ := map_eq_ok_iff.1 h
  exact ⟨block, hb, by omega⟩

lemma leads_of_retargetFar {old new : Int32} (h : retargetFar m i pos old = .ok new) :
    Leads m i pos old.toInt new.toInt := by
  obtain ⟨delta, hd, h⟩ := bind_eq_ok_iff.1 h
  rw [far_toInt h]
  exact leads_of_retarget hd

inductive Redirects (m : Placement) (i : Instruction) (pos : Nat) : Operand → Operand → Prop
  | plain {bytes : Bytes} : Redirects m i pos (.plain bytes) (.plain bytes)
  | near {old new : Int16} (h : Leads m i pos old.toInt new.toInt) :
    Redirects m i pos (.near old) (.near new)
  | far {old new : Int32} (h : Leads m i pos old.toInt new.toInt) :
    Redirects m i pos (.far old) (.far new)
  | table {padding : Bytes} {s : Switch} {default : Int32} {cases : List (Int32 × Int32)}
    (hdefault : Leads m i pos s.default.toInt default.toInt)
    (hcases : List.Forall₂ (fun c c' => c.1 = c'.1 ∧ Leads m i pos c.2.toInt c'.2.toInt)
      s.cases cases) :
    Redirects m i pos (.switch padding s)
      (.switch (List.replicate (Switch.paddingAt pos) 0) { s with default, cases })

lemma redirects_of_moveOperand {x : Operand} (h : moveOperand m i pos = .ok x) :
    Redirects m i pos i.operand x := by
  unfold moveOperand at h
  split at h
  · next bytes hx =>
    cases h
    rw [hx]
    exact .plain
  · next delta hx =>
    obtain ⟨d, hd, h⟩ := bind_eq_ok_iff.1 h
    obtain ⟨n, hn, h⟩ := bind_eq_ok_iff.1 h
    cases h
    rw [hx]
    exact .near (near_toInt hn ▸ leads_of_retarget hd)
  · next delta hx =>
    obtain ⟨d, hd, rfl⟩ := map_eq_ok_iff.1 h
    rw [hx]
    exact .far (leads_of_retargetFar hd)
  · next padding s hx =>
    obtain ⟨default, hd, h⟩ := bind_eq_ok_iff.1 h
    obtain ⟨cases, hc, h⟩ := bind_eq_ok_iff.1 h
    cases h
    rw [hx]
    refine .table (leads_of_retargetFar hd) ((mapM_eq_ok_iff.1 hc).imp fun c c' hc => ?_)
    obtain ⟨target, ht, hc⟩ := bind_eq_ok_iff.1 hc
    cases hc
    exact ⟨rfl, leads_of_retargetFar ht⟩

lemma moveOperand_spec {x : Operand} (hf : i.Fits) (h : moveOperand m i pos = .ok x) :
    x.Fits i.opcode pos ∧ i.operand.Alike x ∧
      List.Forall₂ (Leads m i pos) i.operand.deltas x.deltas ∧ 1 + x.size = i.sizeAt pos := by
  have hredirects := redirects_of_moveOperand h
  obtain ⟨offset, opcode, operand⟩ := i
  cases hredirects with
  | plain => exact ⟨hf, rfl, .nil, rfl⟩
  | near hlead => exact ⟨hf, trivial, .cons hlead .nil, rfl⟩
  | far hlead => exact ⟨hf, trivial, .cons hlead .nil, rfl⟩
  | @table padding s default cases hdefault hcases =>
    have hkeys : s.cases.map (·.1) = cases.map (·.1) := by
      rw [← List.forall₂_eq_eq_eq, List.forall₂_map_left_iff, List.forall₂_map_right_iff]
      exact hcases.imp fun _ _ => And.left
    refine ⟨⟨hf.1, by simp, hf.2.2.of_alike rfl hkeys⟩, ⟨rfl, hkeys⟩, .cons hdefault ?_, ?_⟩
    · rw [List.forall₂_map_left_iff, List.forall₂_map_right_iff]
      exact hcases.imp fun _ _ => And.right
    · simp only [Instruction.sizeAt, Operand.size, List.length_replicate, Switch.sizeAt,
        Switch.size, hcases.length_eq]
      omega

lemma exists_of_emit {ins : Insertion} {place : Place} {bs : Bytes}
    (h : emit ins m (i, place) = .ok bs) : ∃ j, move m (i, place) = .ok j ∧
      bs = i.prologueOf ins ++ (i.epilogueOf ins ++ j.encode) := by
  obtain ⟨j, hj, h⟩ := bind_eq_ok_iff.1 h
  refine ⟨j, mapError_eq_ok_iff.1 hj, ?_⟩
  split at h
  · next bytes hb =>
    cases h
    rw [Instruction.eq_encode_of_encode? hb]
  · cases h

end Relocation

structure Relocates (pool : Pool) (code : Code) (ins : Insertion) (body : Body)
    (placed : List (Instruction × Place)) (stop : Nat) : Prop where
  decoded : Instruction.decode code.bytes = .ok (placed.map Prod.fst)
  places : Instruction.PlacedFrom ins 0 placed stop
  stop_le : stop ≤ Code.maxLength
  blocks : ∃ blocks, List.Forall₂
    (fun a b => Relocation.emit ins (Placement.of placed stop) a = .ok b) placed blocks ∧
      body.code.bytes = blocks.flatten
  handlers : List.Forall₂
    (fun h h' => Relocation.moveHandler (Placement.of placed stop) h = .ok h')
    code.handlers body.code.handlers
  attributes : ∃ moved, Relocation.moveAttributes pool (Placement.of placed stop)
      code.attributes ⟨[], []⟩ = .ok moved ∧
    body.code.attributes = moved.attributes.reverse ∧ body.frames = moved.frames

lemma Code.relocates {pool : Pool} {code : Code} {ins : Insertion} {body : Body}
    (h : code.relocate pool ins = .ok body) :
    ∃ placed stop, Relocates pool code ins body placed stop := by
  obtain ⟨is, hd, h⟩ := bind_eq_ok_iff.1 h
  rw [mapError_eq_ok_iff] at hd
  obtain ⟨tail, h1, h2, h3⟩ := Instruction.placeFrom_placed ins 0 is []
  generalize Instruction.placeFrom ins 0 is [] = result at h h1 h3
  obtain ⟨placed, stop⟩ := result
  simp only [List.reverse_nil, List.nil_append] at h1 h3
  subst h1 h2
  dsimp only at h h3
  split at h
  · cases h
  split at h
  · cases h
  · next hle =>
    obtain ⟨blocks, hb, h⟩ := bind_eq_ok_iff.1 h
    obtain ⟨handlers, hh, h⟩ := bind_eq_ok_iff.1 h
    obtain ⟨moved, hm, h⟩ := bind_eq_ok_iff.1 h
    rw [mapError_eq_ok_iff] at hh hm
    cases h
    exact ⟨placed, stop, hd, h3, Nat.le_of_not_lt hle, ⟨blocks, mapM_eq_ok_iff.1 hb, rfl⟩,
      mapM_eq_ok_iff.1 hh, moved, hm, rfl, rfl⟩

end ClassWeaver
