import ClassWeaver.Proofs.Code.Acceptance
import ClassWeaver.Proofs.Code.EffectEquivariance
import ClassWeaver.Proofs.Code.Woven

/-! A body is said to fall off its end only if a path reaches its last instruction and the code of
that one lets control go on. It is the code alone that decides, so of all the instructions that
control does not leave, the wide form of `ret` counts with those that it does. -/

namespace ClassWeaver

open Instruction

def CodeFault.offset? : CodeFault → Option Nat
  | stackUnderflow offset | inconsistentStack offset .. | inconsistentTypes offset ..
  | operandType offset .. | frameMismatch offset .. | frameTypeMismatch offset ..
  | badBranchTarget offset _ | branchOutOfRange offset | invalidOpcode offset _
  | unresolvedConstant offset _ => some offset
  | _ => none

variable {pool : Pool} {body : Body} {is : List Instruction} {fault : CodeFault} {s : Stack}

namespace Effect

variable {offset : Nat}

lemma offset?_of_popSlot {d : Demand} (h : popSlot offset d s = .error fault) :
    fault.offset? = some offset := by
  cases s with
  | nil =>
    cases h
    rfl
  | cons t s =>
    rw [popSlot] at h
    split at h <;> cases h
    rfl

lemma offset?_of_popSlots {d : Demand} {n : Nat} (h : popSlots offset d n s = .error fault) :
    fault.offset? = some offset := by
  induction n generalizing s with
  | zero => cases h
  | succ n ih =>
    rw [popSlots_succ, bind_eq_error_iff] at h
    obtain h | ⟨t, -, h⟩ := h
    · exact offset?_of_popSlot h
    · exact ih h

lemma offset?_of_popAll {ds : List Demand} (h : popAll offset ds s = .error fault) :
    fault.offset? = some offset := by
  induction ds generalizing s with
  | nil => cases h
  | cons d ds ih =>
    rw [popAll_cons, bind_eq_error_iff] at h
    obtain h | ⟨t, -, h⟩ := h
    · exact offset?_of_popSlots h
    · exact ih h

lemma offset?_of_popReceiver (h : popReceiver offset s = .error fault) :
    fault.offset? = some offset := by
  unfold popReceiver at h
  split at h <;> cases h <;> rfl

lemma offset?_of_apply {e : Effect} (h : e.apply offset s = .error fault) :
    fault.offset? = some offset := by
  cases e with
  | exchange pops pushes => exact offset?_of_popAll (map_eq_error_iff.1 h)
  | shuffle taken order =>
    rw [apply] at h
    split at h <;> cases h
    rfl
  | construct arguments pushes =>
    rw [apply_construct, bind_eq_error_iff] at h
    obtain hpop | ⟨u, -, h⟩ := h
    · exact offset?_of_popAll hpop
    · exact offset?_of_popReceiver (map_eq_error_iff.1 h)

lemma offset?_of_ofInstruction {i : Instruction} (h : ofInstruction pool i = .error fault) :
    fault.offset? = some i.offset := by
  unfold ofInstruction at h
  dsimp only at h
  repeat' split at h
  all_goals cases h <;> rfl

end Effect

lemma Instruction.offset?_of_apply {i : Instruction} (h : i.apply pool s = .error fault) :
    fault.offset? = some i.offset := by
  unfold Instruction.apply at h
  split at h
  · next he =>
    cases h
    exact Effect.offset?_of_ofInstruction he
  · exact Effect.offset?_of_apply h

structure Chart.IsOf (c : Chart) (pool : Pool) (is : List Instruction) : Prop where
  pool_eq : c.pool = pool
  size_eq : c.instructions.size = total size is
  instruction : ∀ pos i, Flow.instruction? c pos = some i → i ∈ is ∧ i.offset = pos

namespace Chart

variable {c c' : Chart}

lemma isOf_ofInstructions (pool : Pool) (ht : Tiles 0 is) : (ofInstructions pool is).IsOf pool is :=
  have hshows := shows_ofInstructions pool ht
  ⟨hshows.pool_eq, hshows.size_eq, fun pos i => (hshows.instruction_iff pos i).1⟩

lemma IsOf.declare {frames : List Frame} (h : c.IsOf pool is) (hd : c.declare frames = .ok c') :
    c'.IsOf pool is := by
  induction frames generalizing c with
  | nil =>
    cases hd
    exact h
  | cons frame frames ih =>
    rw [Chart.declare] at hd
    split at hd
    · cases hd
    · have hnoted : Chart.IsOf { c with
          declared := note c.declared frame.offset frame.kind.declaredStack } pool is :=
        ⟨h.pool_eq, h.size_eq, h.instruction⟩
      exact ih hnoted hd

lemma declare_ne_fallsOffEnd {frames : List Frame} : c.declare frames ≠ .error .fallsOffEnd := by
  intro h
  induction frames generalizing c with
  | nil => cases h
  | cons frame frames ih =>
    rw [Chart.declare] at h
    split at h
    · cases h
    · exact ih h

end Chart

namespace Flow

variable {c : Chart} {f g : Flow} {source target : Nat} {i : Instruction}

lemma offset?_of_checkFrame {pos : Nat} {declared : List StackType}
    (h : checkFrame pos declared s = .error fault) : fault.offset? = some pos := by
  unfold checkFrame at h
  split at h
  · cases h
    rfl
  · split at h <;> cases h
    rfl

lemma offset?_of_checkMerge {pos : Nat} {known : Stack}
    (h : checkMerge pos known s = .error fault) : fault.offset? = some pos := by
  unfold checkMerge at h
  split at h
  · cases h
    rfl
  · split at h <;> cases h
    rfl

lemma offset?_of_enter (h : f.enter c source target s = .error fault) :
    fault.offset? = some source ∨ fault.offset? = some target := by
  have hmerge {known : Stack}
      (h : (do checkMerge target known s; pure f : Except CodeFault Flow) = .error fault) :
      fault.offset? = some target := by
    obtain h | ⟨_, -, h⟩ := bind_eq_error_iff.1 h
    · exact offset?_of_checkMerge h
    · cases h
  unfold enter at h
  split at h
  · cases h
    exact .inl rfl
  · refine .inr ?_
    cases hd : declared? c target with
    | none =>
      cases hk : f.state? target with
      | none =>
        rw [hd, hk] at h
        cases h
      | some known =>
        rw [hd, hk] at h
        exact hmerge h
    | some declared =>
      rw [hd] at h
      obtain h | ⟨_, -, h⟩ := bind_eq_error_iff.1 h
      · exact offset?_of_checkFrame h
      · cases hk : f.state? target with
        | none =>
          rw [hk] at h
          cases h
        | some known =>
          rw [hk] at h
          exact hmerge h

lemma enter_ne_fallsOffEnd : f.enter c source target s ≠ .error .fallsOffEnd := by
  intro h
  obtain h | h := offset?_of_enter h <;> cases h

lemma enterAll_ne_fallsOffEnd {targets : List Int} :
    f.enterAll c source s targets ≠ .error .fallsOffEnd := by
  intro h
  induction targets generalizing f with
  | nil => cases h
  | cons target targets ih =>
    rw [enterAll, enterBranch] at h
    split at h
    · next he =>
      cases h
      split at he
      · cases he
      · exact enter_ne_fallsOffEnd he
    · exact ih h

lemma enterHandlers_ne_fallsOffEnd {handlers : List Handler} :
    f.enterHandlers c handlers ≠ .error .fallsOffEnd := by
  intro h
  induction handlers generalizing f with
  | nil => cases h
  | cons handler handlers ih =>
    rw [enterHandlers] at h
    split at h
    · next he =>
      cases h
      exact enter_ne_fallsOffEnd he
    · exact ih h

lemma falls_of_follow {before : Stack} (h : f.follow c i before = .error .fallsOffEnd) :
    i.endsFlow = false ∧ c.instructions.size ≤ i.stop ∧
      ∃ after, i.apply c.pool before = .ok after := by
  unfold follow at h
  obtain h | ⟨after, ha, h⟩ := bind_eq_error_iff.1 h
  · cases i.offset?_of_apply h
  · split at h
    · cases h
    · obtain h | ⟨g, -, h⟩ := bind_eq_error_iff.1 h
      · exact absurd h enterAll_ne_fallsOffEnd
      · split at h
        · cases h
        · next hends =>
          split at h
          · next hsize => exact ⟨Bool.eq_false_iff.2 hends, hsize, after, ha⟩
          · exact absurd h enter_ne_fallsOffEnd

structure Grounded (c : Chart) (pool : Pool) (body : Body) (is : List Instruction) (f : Flow) :
    Prop where
  size_eq : f.states.size = c.instructions.size
  reached : ∀ pos s, f.state? pos = some s → Reaches pool body is pos s

lemma Grounded.meets {es : List (Nat × Stack)} (h : f.Grounded c pool body is)
    (hm : Meets c es f g) (he : ∀ e ∈ es, Reaches pool body is e.1 e.2) :
    g.Grounded c pool body is := by
  refine ⟨hm.size_eq.trans h.size_eq, fun pos s hs => ?_⟩
  rcases (hm.work h.size_eq).2.1 pos s hs with hold | ⟨hnew, -⟩
  · exact h.reached pos s hold
  · exact he _ hnew

lemma Grounded.follow (h : f.Grounded c pool body is) (hc : c.IsOf pool is) (hi : i ∈ is)
    {before : Stack} (hb : f.state? i.offset = some before) (hf : f.follow c i before = .ok g) :
    g.Grounded c pool body is := by
  obtain ⟨after, ha, -, -, hm⟩ := follow_eq_ok_iff.1 hf
  rw [hc.pool_eq] at ha
  have hdeep : Grounded c pool body is { f with deepest := max f.deepest after.length } :=
    ⟨h.size_eq, h.reached⟩
  refine hdeep.meets hm fun e he => ?_
  obtain ⟨edge, hedge, rfl⟩ := List.mem_map.1 he
  exact .edge hi (h.reached _ _ hb) ha hedge

/-- A run that ends so took up an instruction, on some path, behind which there is no place. -/
lemma Grounded.run (h : f.Grounded c pool body is) (hc : c.IsOf pool is) {turns : Nat}
    (hr : run c turns f = .error .fallsOffEnd) :
    ∃ i ∈ is, i.endsFlow = false ∧ total size is ≤ i.stop ∧
      ∃ before after, Reaches pool body is i.offset before ∧ i.apply pool before = .ok after := by
  induction turns generalizing f with
  | zero => cases hr
  | succ turns ih =>
    rw [Flow.run] at hr
    split at hr
    · cases hr
    · next pos work hw =>
      have hwork : Grounded c pool body is { f with work } := ⟨h.size_eq, h.reached⟩
      split at hr
      · next i before hi hb =>
        obtain ⟨hmem, rfl⟩ := hc.instruction pos i hi
        split at hr
        · next hfollow =>
          cases hr
          obtain ⟨hends, hsize, after, ha⟩ := falls_of_follow hfollow
          rw [hc.size_eq] at hsize
          rw [hc.pool_eq] at ha
          exact ⟨i, hmem, hends, hsize, before, after, h.reached _ _ hb, ha⟩
        · next g hfollow => exact ih (hwork.follow hc hmem hb hfollow) hr
      · exact ih hwork hr

end Flow

namespace Body

lemma grounded_blank {c : Chart} (hc : c.IsOf pool is) (hd : decode body.code.bytes = .ok is) :
    body.blank.Grounded c pool body is := by
  refine ⟨size_blank hd hc.size_eq, fun pos s hs => ?_⟩
  rw [state?_blank] at hs
  cases hs

lemma falls_of_check {last : Instruction} (hd : decode body.code.bytes = .ok is)
    (hlast : is.getLast? = some last) (h : body.check pool = .error .fallsOffEnd) :
    last.endsFlow = false ∧ ∃ before after, Reaches pool body is last.offset before ∧
      last.apply pool before = .ok after := by
  obtain ⟨ht, hbytes⟩ := decode_eq_ok_iff.1 hd
  unfold Body.check at h
  dsimp only at h
  split at h
  · cases h
  split at h
  · next hempty =>
    have hle := total_le_of_mem size (List.mem_of_getLast? hlast)
    rw [← length_encodeAll, ← hbytes, List.isEmpty_iff.1 hempty, List.length_nil] at hle
    exact absurd last.size_pos (by omega)
  obtain h | ⟨is', hd', h⟩ := bind_eq_error_iff.1 h
  · rw [hd] at h
    cases h
  rw [hd] at hd'
  cases hd'
  obtain h | ⟨c, hdeclare, h⟩ := bind_eq_error_iff.1 h
  · exact absurd h Chart.declare_ne_fallsOffEnd
  obtain h | ⟨f, hf, h⟩ := bind_eq_error_iff.1 h
  · exact absurd h Flow.enter_ne_fallsOffEnd
  obtain h | ⟨g, hg, h⟩ := bind_eq_error_iff.1 h
  · exact absurd h Flow.enterHandlers_ne_fallsOffEnd
  obtain h | ⟨k, -, h⟩ := bind_eq_error_iff.1 h
  · have hc := (Chart.isOf_ofInstructions pool ht).declare hdeclare
    obtain ⟨g, hm, rfl⟩ := Flow.enterHandlers_eq_ok_iff.1 hg
    have hground := (grounded_blank hc hd).meets ((Flow.meets_cons_iff 0).2 ⟨f, hf, hm⟩)
      fun e he => .entry he
    have hopening : (body.opening g).Grounded c pool body is :=
      ⟨hground.size_eq, hground.reached⟩
    obtain ⟨i, hi, hends, hstop, hreach⟩ := hopening.run hc h
    rw [ht.getLast?_eq hi (by rwa [Nat.zero_add])] at hlast
    cases hlast
    exact ⟨hends, hreach⟩
  · cases h

lemma endsFlow_of_check {last : Instruction} {before : Stack} {m : Nat}
    (distinct : (body.frames.map (·.offset)).Nodup) (hd : decode body.code.bytes = .ok is)
    (hlast : is.getLast? = some last) (hr : Reaches pool body is last.offset before)
    (h : body.check pool = .ok m) : last.endsFlow = true := by
  obtain ⟨is', hd', -, T, hT, -⟩ := check_spec distinct h
  rw [hd] at hd'
  cases hd'
  have ht := (decode_eq_ok_iff.1 hd).1
  obtain ⟨pre, rfl⟩ := List.getLast?_eq_some_iff.1 hlast
  by_contra hends
  obtain ⟨after, -, -, hedges⟩ := hT.step last (by simp) before (hT.of_reaches hr)
  obtain ⟨-, hstop⟩ := hedges (last.stop, last.fallStack before after)
    (List.mem_append_right _ (by rw [if_neg hends]; exact List.mem_singleton_self _))
  obtain ⟨i, hi, ho⟩ := hT.domain _ _ hstop
  obtain ⟨rest, hrest⟩ := ht.next_eq hi ho
  cases hrest

end Body

namespace Instruction

def widened : List UInt8 :=
  [0x15, 0x16, 0x17, 0x18, 0x19, 0x36, 0x37, 0x38, 0x39, 0x3a, 0x84, Opcode.ret]

lemma mem_widened {inner : UInt8} {n : Nat} (h : Opcode.wideOperands? inner = some n) :
    inner ∈ widened := by
  have hall : ∀ k : Fin 256, (Opcode.wideOperands? (UInt8.ofFin k)).isSome = true →
      UInt8.ofFin k ∈ widened := by decide +kernel
  exact hall inner.toFin (Option.isSome_of_eq_some h)

lemma Fits.word8_mem {i : Instruction} (hi : i.Fits) (hw : i.opcode = Opcode.wide) :
    i.operand.word8 ∈ widened := by
  obtain ⟨offset, opcode, operand⟩ := i
  subst hw
  have hshape : Opcode.shape? Opcode.wide = some .wide := by decide
  cases operand with
  | plain bytes =>
    obtain h | ⟨-, inner, rest, rfl, hinner⟩ := hi
    · rw [hshape] at h
      cases h
    · exact mem_widened hinner
  | near => cases hshape.symm.trans hi
  | far => cases hshape.symm.trans hi
  | switch => cases hshape.symm.trans hi.1

lemma ofInstruction_of_widened {j : Instruction} (h : j.opcode ∈ widened) :
    ∃ e, Effect.fixed? j.opcode = some e ∧ Effect.ofInstruction pool j = .ok e := by
  have hother : ∀ opcode ∈ widened, opcode ≠ Opcode.ldc ∧
      ¬ (opcode = Opcode.ldcW ∨ opcode = Opcode.ldc2W) ∧
      ¬ (Opcode.getstatic ≤ opcode ∧ opcode ≤ Opcode.putfield) ∧
      ¬ (Opcode.invokevirtual ≤ opcode ∧ opcode ≤ Opcode.invokedynamic) ∧ opcode ≠ Opcode.new ∧
      opcode ≠ Opcode.multianewarray ∧ opcode ≠ Opcode.wide ∧ Effect.shuffle? opcode = none ∧
      (Effect.fixed? opcode).isSome = true := by decide +kernel
  obtain ⟨h1, h2, h3, h4, h5, h6, h7, hshuffle, hfixed⟩ := hother _ h
  obtain ⟨e, he⟩ := Option.isSome_iff_exists.1 hfixed
  refine ⟨e, he, Effect.ofInstruction_eq_ok_iff.2 ?_⟩
  rw [Effect.of?, if_neg h1, if_neg h2, if_neg h3, if_neg h4, if_neg h5, if_neg h6, if_neg h7,
    hshuffle, Option.none_or, he]

lemma apply_wide {i j : Instruction} (hi : i.Fits) (hw : i.opcode = Opcode.wide)
    (hj : j.opcode = i.operand.word8) (ho : j.offset = i.offset) (s : Stack) :
    i.apply pool s = j.apply pool s := by
  have hmem := hi.word8_mem hw
  rw [← hj] at hmem
  obtain ⟨e, he, hshort⟩ : ∃ e, Effect.fixed? j.opcode = some e ∧
      Effect.ofInstruction pool j = .ok e := ofInstruction_of_widened hmem
  have hwide : Effect.ofInstruction pool i = .ok e := by
    rw [Effect.ofInstruction_eq_ok_iff, hw, ← he, hj]
    rfl
  rw [apply, apply, hwide, hshort]
  exact congrArg (e.apply · s) ho.symm

lemma endsFlow_wide {i j : Instruction} (hi : i.Fits) (hw : i.opcode = Opcode.wide)
    (hj : j.opcode = i.operand.word8) : i.endsFlow = j.endsFlow ↔ j.opcode ≠ Opcode.ret := by
  have hends : ∀ opcode ∈ widened, Opcode.endsFlow opcode = (opcode == Opcode.ret) := by
    decide +kernel
  have hmem := hi.word8_mem hw
  rw [← hj] at hmem
  have hwide : i.endsFlow = false := by
    rw [endsFlow, hw]
    rfl
  rw [hwide, endsFlow, hends _ hmem, eq_comm, beq_eq_false_iff_ne]

def IsWideRet (i : Instruction) : Prop := i.opcode = Opcode.wide ∧ i.operand.word8 = Opcode.ret

lemma IsWideRet.endsFlow_eq {i : Instruction} (h : i.IsWideRet) : i.endsFlow = false := by
  rw [endsFlow, h.1]
  rfl

lemma endsFlow_eq_false_iff {i : Instruction} :
    i.endsFlow = false ↔ i.leaves = false ∨ i.IsWideRet := by
  constructor
  · intro hends
    by_cases hwide : i.IsWideRet
    · exact .inr hwide
    · refine .inl ?_
      rw [leaves, hends, Bool.false_or, Bool.and_eq_false_iff, beq_eq_false_iff_ne,
        beq_eq_false_iff_ne]
      exact not_and_or.1 hwide
  · rintro (h | h)
    · exact (Bool.or_eq_false_iff.1 h).1
    · exact h.endsFlow_eq

end Instruction

/-- A body falls off its end only where a path reaches its last instruction and control can go on
from there, but for a wide `ret`: that does the same to the stack as the short form and control
leaves it no less, yet no body is accepted in which a path reaches one at the end. -/
theorem Body.fallsOffEnd_at_last_instruction (pool : Pool) :
    (∀ body is last, decode body.code.bytes = .ok is → is.getLast? = some last →
      body.check pool = .error .fallsOffEnd →
        (last.leaves = false ∨ last.IsWideRet) ∧
          ∃ before after, Reaches pool body is last.offset before ∧
            last.apply pool before = .ok after) ∧
    (∀ body is last before, (body.frames.map (·.offset)).Nodup →
      decode body.code.bytes = .ok is → is.getLast? = some last →
      Reaches pool body is last.offset before → last.leaves = false ∨ last.IsWideRet →
        ∀ m, body.check pool ≠ .ok m) ∧
    ∀ i j : Instruction, i.Fits → i.opcode = Opcode.wide → j.opcode = i.operand.word8 →
      j.offset = i.offset →
        (∀ s, i.apply pool s = j.apply pool s) ∧
          (i.endsFlow = j.endsFlow ↔ j.opcode ≠ Opcode.ret) := by
  refine ⟨fun body is last hd hlast h => ?_, fun body is last before hn hd hlast hr hgoes m h => ?_,
    fun i j hi hw hj ho => ⟨apply_wide hi hw hj ho, endsFlow_wide hi hw hj⟩⟩
  · obtain ⟨hends, hreach⟩ := falls_of_check hd hlast h
    exact ⟨endsFlow_eq_false_iff.1 hends, hreach⟩
  · have hends := endsFlow_of_check hn hd hlast hr h
    rw [endsFlow_eq_false_iff.2 hgoes] at hends
    cases hends

namespace Sample

def shortRet : Instruction := ⟨0, Opcode.ret, .plain [0]⟩

def wideRet : Instruction := ⟨0, Opcode.wide, .plain [Opcode.ret, 0, 0]⟩

def bodyOf (i : Instruction) : Body := ⟨⟨0, 1, i.encode, [], []⟩, []⟩

end Sample

theorem Body.fallsOffEnd_at_last_instruction_sample :
    (Sample.bodyOf Sample.shortRet).check ⟨#[], 0, []⟩ = .ok 0 ∧
    (Sample.bodyOf Sample.wideRet).check ⟨#[], 0, []⟩ = .error .fallsOffEnd ∧
    Sample.wideRet.leaves = true ∧ Sample.wideRet.IsWideRet ∧
    (∃ before after, Reaches ⟨#[], 0, []⟩ (Sample.bodyOf Sample.wideRet) [Sample.wideRet] 0 before ∧
      Sample.wideRet.apply ⟨#[], 0, []⟩ before = .ok after) ∧
    (∀ m, (Sample.bodyOf Sample.wideRet).check ⟨#[], 0, []⟩ ≠ .ok m) ∧
    (∀ s, Sample.wideRet.apply ⟨#[], 0, []⟩ s = Sample.shortRet.apply ⟨#[], 0, []⟩ s) ∧
    Sample.wideRet.endsFlow ≠ Sample.shortRet.endsFlow := by
  have hfalls : (Sample.bodyOf Sample.wideRet).check ⟨#[], 0, []⟩ = .error .fallsOffEnd := by
    decide +kernel
  have hdecode : decode (Sample.bodyOf Sample.wideRet).code.bytes = .ok [Sample.wideRet] := by
    decide +kernel
  have hwide : Sample.wideRet.IsWideRet := ⟨rfl, rfl⟩
  have hfits : Sample.wideRet.Fits := .inr ⟨by decide, Opcode.ret, [0, 0], rfl, by decide⟩
  obtain ⟨hreached, hrefused, hforms⟩ := fallsOffEnd_at_last_instruction ⟨#[], 0, []⟩
  obtain ⟨hsame, hends⟩ := hforms Sample.wideRet Sample.shortRet hfits rfl rfl rfl
  refine ⟨by decide +kernel, hfalls, rfl, hwide, (hreached _ _ _ hdecode rfl hfalls).2,
    hrefused _ _ _ [] List.nodup_nil hdecode rfl (.entry List.mem_cons_self) (.inr hwide), hsame,
    fun he => hends.1 he rfl⟩

end ClassWeaver
