import ClassWeaver.Code.Flow
import ClassWeaver.Proofs.Code.Positions

/-! What it means that the operand stacks of a body are consistent: a stack for each instruction that
can be reached, which the effects of the instructions carry along every edge. -/

namespace ClassWeaver

open Instruction

def Agrees (declared : List StackType) (s : Stack) : Prop :=
  List.Forall₂ (fun d t => d = .top ∨ d = t) declared s.reverse

namespace Instruction

/-- The stack that the next instruction gets, as the return address of a subroutine call is gone. -/
def fallStack (i : Instruction) (before after : Stack) : Stack :=
  if Opcode.isSubroutineCall i.opcode then before else after

def edges (i : Instruction) (before after : Stack) : List (Int × Stack) :=
  i.targets.map (·, after) ++
    if i.endsFlow then [] else [((i.stop : Int), i.fallStack before after)]

end Instruction

def Body.entries (body : Body) : List (Nat × Stack) :=
  (0, []) :: body.code.handlers.map fun h => (h.target.toNat, [.reference])

/-- A partial assignment of stacks to instructions that every path agrees with. -/
structure Consistent (pool : Pool) (body : Body) (is : List Instruction)
    (T : Nat → Option Stack) : Prop where
  domain : ∀ pos s, T pos = some s → ∃ i ∈ is, i.offset = pos
  entries : ∀ e ∈ body.entries, T e.1 = some e.2
  step : ∀ i ∈ is, ∀ before, T i.offset = some before →
    ∃ after, i.apply pool before = .ok after ∧ after.length ≤ Flow.maxDepth ∧
      ∀ e ∈ i.edges before after, 0 ≤ e.1 ∧ T e.1.toNat = some e.2
  frames : ∀ f ∈ body.frames, ∀ s, T f.offset = some s → Agrees f.kind.declaredStack s

namespace Flow

lemma clash?_eq_none_iff {agree : StackType → StackType → Bool} {as bs : List StackType}
    (hl : as.length = bs.length) (slot : Nat) :
    clash? agree slot as bs = none ↔ List.Forall₂ (fun a b => agree a b = true) as bs := by
  induction as generalizing bs slot with
  | nil =>
    cases bs with
    | nil => simp [clash?]
    | cons b bs => cases hl
  | cons a as ih =>
    cases bs with
    | nil => cases hl
    | cons b bs =>
      rw [clash?, List.forall₂_cons]
      split
      · next h =>
        rw [ih (by simpa using hl)]
        simp [h]
      · next h => simp [h]

lemma checkFrame_eq_ok_iff {pos : Nat} {declared : List StackType} {s : Stack} :
    checkFrame pos declared s = .ok () ↔ Agrees declared s := by
  have agree : ∀ a b, admits a b = true ↔ a = .top ∨ a = b := by
    intro a b
    simp [admits]
  unfold checkFrame Agrees
  split
  · next hne =>
    constructor
    · intro h
      cases h
    · intro h
      exact absurd (by simpa using h.length_eq) hne
  · next hl =>
    have hl' : declared.length = s.reverse.length := by simpa using hl
    have hc := @clash?_eq_none_iff admits declared s.reverse hl' 0
    simp only [agree] at hc
    rw [← hc]
    split
    · next h => simp [h]
    · next h => simp [h]

lemma checkMerge_eq_ok_iff {pos : Nat} {known s : Stack} :
    checkMerge pos known s = .ok () ↔ known = s := by
  unfold checkMerge
  split
  · next hne =>
    constructor
    · intro h
      cases h
    · rintro rfl
      exact absurd rfl hne
  · next hl =>
    have hl' : known.reverse.length = s.reverse.length := by simpa using hl
    have hc := @clash?_eq_none_iff (· == ·) known.reverse s.reverse hl' 0
    simp only [beq_iff_eq, List.forall₂_eq_eq_eq, List.reverse_inj] at hc
    rw [← hc]
    split
    · next h => simp [h]
    · next h => simp [h]

end Flow

lemma join_note {α : Type} {slots : Array (Option α)} {pos : Nat} (h : pos < slots.size) (x : α)
    (k : Nat) :
    ((note slots pos x)[k]?).join = if k = pos then some x else (slots[k]?).join := by
  rw [note, Array.getElem?_setIfInBounds]
  by_cases hk : k = pos
  · subst hk
    simp [h]
  · rw [if_neg (Ne.symm hk), if_neg hk]

namespace Chart

open ClassWeaver.Flow

def Admits (c : Chart) (pos : Nat) (s : Stack) : Prop :=
  (∃ i, instruction? c pos = some i) ∧ ∀ d, declared? c pos = some d → Agrees d s

structure Shows (c : Chart) (pool : Pool) (frames : List Frame) (is : List Instruction) : Prop where
  pool_eq : c.pool = pool
  size_eq : c.instructions.size = total size is
  declared_size : c.declared.size = total size is
  instruction_iff : ∀ pos i, instruction? c pos = some i ↔ i ∈ is ∧ i.offset = pos
  declared_iff : ∀ pos d, declared? c pos = some d ↔
    ∃ f ∈ frames, f.offset = pos ∧ f.kind.declaredStack = d

lemma shows_ofInstructions (pool : Pool) {is : List Instruction} (ht : Tiles 0 is) :
    (ofInstructions pool is).Shows pool [] is := by
  have hlen : (slots id size is).length = total size is :=
    length_slots id size fun i _ => i.size_pos
  refine ⟨rfl, ?_, ?_, ?_, ?_⟩
  · rw [← hlen]
    exact List.size_toArray
  · rw [← hlen]
    exact Array.size_replicate
  · intro pos i
    rw [← ht.slot_eq_some_iff]
    simp [instruction?, ofInstructions, slots]
  · intro pos d
    constructor
    · intro h
      rw [declared?, ofInstructions, Array.getElem?_replicate] at h
      split at h <;> cases h
    · rintro ⟨f, hf, -⟩
      cases hf

variable {c c' : Chart} {pool : Pool} {is : List Instruction} {frames done : List Frame}

lemma lt_size {pos : Nat} {i : Instruction} (hi : instruction? c pos = some i) :
    pos < c.instructions.size := by
  unfold instruction? at hi
  by_contra hn
  rw [Array.getElem?_eq_none (Nat.le_of_not_lt hn)] at hi
  cases hi

lemma Shows.note_frame (h : c.Shows pool done is) {f : Frame} {i : Instruction}
    (hi : instruction? c f.offset = some i) (hn : ∀ g ∈ done, g.offset ≠ f.offset) :
    Chart.Shows { c with declared := note c.declared f.offset f.kind.declaredStack } pool
      (f :: done) is := by
  have hlt := lt_size hi
  rw [h.size_eq, ← h.declared_size] at hlt
  refine ⟨h.pool_eq, h.size_eq, by simpa [note] using h.declared_size, h.instruction_iff, ?_⟩
  intro pos d
  have hold := h.declared_iff pos d
  rw [declared?] at hold ⊢
  rw [join_note hlt, List.exists_mem_cons_iff]
  split
  · next he =>
    subst he
    rw [Option.some.injEq]
    constructor
    · intro hd
      exact .inl ⟨rfl, hd⟩
    · rintro (⟨-, hd⟩ | ⟨g, hg, ho, -⟩)
      · exact hd
      · exact absurd ho (hn g hg)
  · next hne =>
    rw [hold]
    constructor
    · exact .inr
    · rintro (⟨ho, -⟩ | hg)
      · exact absurd ho.symm hne
      · exact hg

lemma nodup_next {f : Frame} (hn : ((f :: frames ++ done).map (·.offset)).Nodup) :
    (∀ g ∈ done, g.offset ≠ f.offset) ∧ ((frames ++ f :: done).map (·.offset)).Nodup := by
  have hp : (f :: frames ++ done).Perm (frames ++ f :: done) := List.perm_middle.symm
  refine ⟨fun g hg he => ?_, (hp.map _).nodup_iff.1 hn⟩
  rw [List.cons_append, List.map_cons, List.nodup_cons, ← he] at hn
  exact hn.1 (List.mem_map_of_mem (List.mem_append_right _ hg))

lemma Shows.declare_iff (h : c.Shows pool done is) (hn : ((frames ++ done).map (·.offset)).Nodup) :
    (∃ c', c.declare frames = .ok c') ↔ ∀ f ∈ frames, ∃ i ∈ is, i.offset = f.offset := by
  induction frames generalizing c done with
  | nil => simp [Chart.declare]
  | cons f frames ih =>
    rw [Chart.declare, List.forall_mem_cons]
    cases hi : instruction? c f.offset with
    | none =>
      constructor
      · rintro ⟨c', hc⟩
        cases hc
      · rintro ⟨⟨i, hmem, ho⟩, -⟩
        rw [(h.instruction_iff _ i).2 ⟨hmem, ho⟩] at hi
        cases hi
    | some i =>
      obtain ⟨hne, hn⟩ := nodup_next hn
      rw [and_iff_right ⟨i, (h.instruction_iff _ i).1 hi⟩]
      exact ih (h.note_frame hi hne) hn

lemma Shows.of_declare (h : c.Shows pool done is) (hn : ((frames ++ done).map (·.offset)).Nodup)
    (hc : c.declare frames = .ok c') : c'.Shows pool (frames.reverse ++ done) is := by
  induction frames generalizing c done with
  | nil =>
    cases hc
    exact h
  | cons f frames ih =>
    rw [Chart.declare] at hc
    cases hi : instruction? c f.offset with
    | none =>
      rw [hi] at hc
      cases hc
    | some i =>
      rw [hi] at hc
      obtain ⟨hne, hn'⟩ := nodup_next hn
      rw [List.reverse_cons, List.append_assoc]
      exact ih (h.note_frame hi hne) hn' hc

end Chart

end ClassWeaver
