import Mathlib.Logic.Function.Basic
import ClassWeaver.Code.Effect
import ClassWeaver.Proofs.Code.RelocatedCode

/-! An instruction does to a stack what its image does to the renamed stack. Only the values whose
constructor has not run remember an offset, and only their equality is ever asked for, so it is
enough that the renaming is injective. -/

namespace ClassWeaver

open Function

namespace StackType

def rename (f : Nat → Nat) : StackType → StackType
  | uninitialized offset => uninitialized (f offset)
  | t => t

def isFree : StackType → Bool
  | uninitialized _ => false
  | _ => true

variable {f : Nat → Nat}

lemma rename_of_free {t : StackType} (h : t.isFree = true) : t.rename f = t := by
  cases t <;> first | rfl | cases h

lemma rename_injective (hf : Injective f) : Injective (rename f) := by
  intro s t h
  cases s <;> cases t <;> simp_all [rename, hf.eq_iff]

lemma rename_eq_top_iff {t : StackType} : t.rename f = .top ↔ t = .top := by
  cases t <;> simp [rename]

lemma accepts_rename (d : Demand) (t : StackType) : d.accepts (t.rename f) = d.accepts t := by
  cases t with
  | uninitialized offset =>
    cases d with
    | value kind => cases kind <;> rfl
    | storable => rfl
    | constructible => rfl
  | _ => rfl

end StackType

namespace Effect

variable {f : Nat → Nat} {offset' : Nat} {s t : Stack}

lemma bind_rename_iff {g g' k k' : Stack → Except CodeFault Stack}
    (hg : ∀ s t, g' (s.map (StackType.rename f)) = .ok t ↔
      ∃ r, g s = .ok r ∧ t = r.map (StackType.rename f))
    (hk : ∀ s t, k' (s.map (StackType.rename f)) = .ok t ↔
      ∃ r, k s = .ok r ∧ t = r.map (StackType.rename f)) :
    (g' (s.map (StackType.rename f)) >>= k') = .ok t ↔
      ∃ r, (g s >>= k) = .ok r ∧ t = r.map (StackType.rename f) := by
  simp only [bind_eq_ok_iff, hg]
  constructor
  · rintro ⟨_, ⟨u, hu, rfl⟩, h⟩
    obtain ⟨r, hr, rfl⟩ := (hk u t).1 h
    exact ⟨r, ⟨u, hu, hr⟩, rfl⟩
  · rintro ⟨r, ⟨u, hu, hr⟩, rfl⟩
    exact ⟨_, ⟨u, hu, rfl⟩, (hk u _).2 ⟨r, hr, rfl⟩⟩

lemma popSlot_rename_iff (offset : Nat) {d : Demand} :
    popSlot offset' d (s.map (StackType.rename f)) = .ok t ↔
      ∃ r, popSlot offset d s = .ok r ∧ t = r.map (StackType.rename f) := by
  cases s with
  | nil => simp [popSlot]
  | cons a s =>
    simp only [List.map_cons, popSlot, StackType.accepts_rename]
    split <;> simp [eq_comm]

lemma popSlots_succ (offset : Nat) (d : Demand) (n : Nat) (s : Stack) :
    popSlots offset d (n + 1) s = popSlot offset d s >>= popSlots offset d n := by
  rw [popSlots]
  cases popSlot offset d s <;> rfl

lemma popAll_cons (offset : Nat) (d : Demand) (ds : List Demand) (s : Stack) :
    popAll offset (d :: ds) s = popSlots offset d d.width s >>= popAll offset ds := by
  rw [popAll]
  cases popSlots offset d d.width s <;> rfl

lemma popSlots_rename_iff (offset : Nat) {d : Demand} {n : Nat} :
    popSlots offset' d n (s.map (StackType.rename f)) = .ok t ↔
      ∃ r, popSlots offset d n s = .ok r ∧ t = r.map (StackType.rename f) := by
  induction n generalizing s t with
  | zero => simp [popSlots, eq_comm]
  | succ n ih =>
    rw [popSlots_succ, popSlots_succ]
    apply bind_rename_iff
    · intro s t
      exact popSlot_rename_iff offset
    · intro s t
      exact ih

lemma popAll_rename_iff (offset : Nat) {ds : List Demand} :
    popAll offset' ds (s.map (StackType.rename f)) = .ok t ↔
      ∃ r, popAll offset ds s = .ok r ∧ t = r.map (StackType.rename f) := by
  induction ds generalizing s t with
  | nil => simp [popAll, eq_comm]
  | cons d ds ih =>
    rw [popAll_cons, popAll_cons]
    apply bind_rename_iff
    · intro s t
      exact popSlots_rename_iff offset
    · intro s t
      exact ih

lemma markConstructed_rename (hf : Injective f) (created : Nat) (s : Stack) :
    markConstructed (f created) (s.map (StackType.rename f)) =
      (markConstructed created s).map (StackType.rename f) := by
  rw [markConstructed, markConstructed, List.map_map, List.map_map]
  apply List.map_congr_left
  intro a _
  have h : a.rename f = .uninitialized (f created) ↔ a = .uninitialized created :=
    (StackType.rename_injective hf).eq_iff (b := .uninitialized created)
  simp only [comp_apply, h]
  split <;> rfl

lemma popReceiver_rename_iff (hf : Injective f) (offset : Nat) :
    popReceiver offset' (s.map (StackType.rename f)) = .ok t ↔
      ∃ r, popReceiver offset s = .ok r ∧ t = r.map (StackType.rename f) := by
  cases s with
  | nil => simp [popReceiver]
  | cons a s =>
    cases a with
    | uninitialized created =>
      simp [popReceiver, StackType.rename, markConstructed_rename hf, eq_comm]
    | reference => simp [popReceiver, StackType.rename, eq_comm]
    | _ => simp [popReceiver, StackType.rename]

def pushes : Effect → Stack
  | exchange _ pushes => pushes
  | shuffle _ _ => []
  | construct _ pushes => pushes

def rename (f : Nat → Nat) : Effect → Effect
  | exchange pops pushes => exchange pops (pushes.map (StackType.rename f))
  | shuffle taken order => shuffle taken order
  | construct arguments pushes => construct arguments (pushes.map (StackType.rename f))

lemma apply_construct (offset : Nat) (s : Stack) (arguments : List Demand) (pushes : Stack) :
    (construct arguments pushes).apply offset s =
      popAll offset arguments.reverse s >>= fun s => (popReceiver offset s).map (pushes ++ ·) := by
  rw [Effect.apply]
  cases popAll offset arguments.reverse s <;> rfl

lemma push_rename_iff {x x' : Except CodeFault Stack}
    (h : ∀ t, x' = .ok t ↔ ∃ r, x = .ok r ∧ t = r.map (StackType.rename f)) (pushes t : Stack) :
    x'.map (pushes.map (StackType.rename f) ++ ·) = .ok t ↔
      ∃ r, x.map (pushes ++ ·) = .ok r ∧ t = r.map (StackType.rename f) := by
  simp only [map_eq_ok_iff, h]
  constructor
  · rintro ⟨_, ⟨r, hr, rfl⟩, rfl⟩
    exact ⟨pushes ++ r, ⟨r, hr, rfl⟩, by rw [List.map_append]⟩
  · rintro ⟨_, ⟨r, hr, rfl⟩, rfl⟩
    exact ⟨_, ⟨r, hr, rfl⟩, by rw [List.map_append]⟩

lemma apply_rename_iff (hf : Injective f) (offset : Nat) (e : Effect) :
    (e.rename f).apply offset' (s.map (StackType.rename f)) = .ok t ↔
      ∃ r, e.apply offset s = .ok r ∧ t = r.map (StackType.rename f) := by
  cases e with
  | exchange pops pushes => exact push_rename_iff (fun _ => popAll_rename_iff offset) pushes t
  | shuffle taken order =>
    simp only [rename, Effect.apply, List.length_map]
    split
    · simp
    · simp [eq_comm, List.map_filterMap]
  | construct arguments pushes =>
    rw [rename, apply_construct, apply_construct]
    apply bind_rename_iff
    · intro s t
      exact popAll_rename_iff offset
    · intro s t
      exact push_rename_iff (fun _ => popReceiver_rename_iff hf offset) pushes t

def of? (pool : Pool) (opcode : UInt8) (x : Operand) (offset : Nat) : Option Effect :=
  if opcode = Opcode.ldc then load? pool opcode x.word8.toUInt16
  else if opcode = Opcode.ldcW ∨ opcode = Opcode.ldc2W then load? pool opcode x.word16
  else if Opcode.getstatic ≤ opcode ∧ opcode ≤ Opcode.putfield then
    fieldAccess? pool opcode x.word16
  else if Opcode.invokevirtual ≤ opcode ∧ opcode ≤ Opcode.invokedynamic then
    invoke? pool opcode x.word16
  else if opcode = Opcode.new then some (exchange [] [.uninitialized offset])
  else if opcode = Opcode.multianewarray then
    some (exchange (List.replicate x.third.toNat (.value .int)) ValueKind.reference.slots)
  else if opcode = Opcode.wide then fixed? x.word8
  else (shuffle? opcode).or (fixed? opcode)

lemma ofInstruction_eq_ok_iff {pool : Pool} {i : Instruction} {e : Effect} :
    ofInstruction pool i = .ok e ↔ of? pool i.opcode i.operand i.offset = some e := by
  unfold ofInstruction of?
  dsimp only
  split
  · split <;> simp_all
  split
  · split <;> simp [*]
  split
  · split <;> simp [*]
  split
  · split <;> simp [*]
  split
  · simp
  split
  · simp
  split
  · split <;> simp [*]
  · split <;> simp [*]

def IsFree (e : Effect) : Prop := ∀ t ∈ e.pushes, t.isFree = true

lemma IsFree.rename_eq {e : Effect} (h : e.IsFree) : e.rename f = e := by
  have hid : ∀ s : Stack, (∀ t ∈ s, t.isFree = true) → s.map (StackType.rename f) = s := by
    intro s hs
    conv_rhs => rw [← List.map_id s]
    exact List.map_congr_left fun t ht => StackType.rename_of_free (hs t ht)
  cases e with
  | exchange pops pushes => rw [rename, hid pushes h]
  | shuffle taken order => rfl
  | construct arguments pushes => rw [rename, hid pushes h]

def LeavesValue (e : Effect) : Prop :=
  e.pushes = [] ∨ e.pushes = [.returnAddress] ∨ ∃ kind : ValueKind, e.pushes = kind.slots

lemma LeavesValue.isFree {e : Effect} (h : e.LeavesValue) : e.IsFree := by
  unfold IsFree
  rcases h with h | h | ⟨kind, h⟩ <;> rw [h]
  · exact nofun
  · decide
  · cases kind <;> decide

lemma leavesValue_invoke {pool : Pool} {opcode : UInt8} {index : UInt16} {e : Effect}
    (h : invoke? pool opcode index = some e) : e.LeavesValue := by
  obtain ⟨signature, -, rfl⟩ := Option.map_eq_some_iff.1 h
  have hresult : (signature.result.map ValueKind.slots).getD [] = [] ∨
      ∃ kind : ValueKind, (signature.result.map ValueKind.slots).getD [] = kind.slots := by
    cases signature.result with
    | none => exact .inl rfl
    | some kind => exact .inr ⟨kind, rfl⟩
  dsimp only
  split
  · exact hresult.imp_right .inr
  split <;> exact hresult.imp_right .inr

lemma leavesValue_shuffle {opcode : UInt8} {e : Effect} (h : shuffle? opcode = some e) :
    e.LeavesValue := by
  unfold shuffle? at h
  split at h <;> cases h <;> exact .inl rfl

inductive Origin (pool : Pool) (opcode : UInt8) (x : Operand) (offset : Nat) : Effect → Prop
  | exchange {pops : List Demand} {pushes : Stack} (h : LeavesValue (.exchange pops pushes)) :
    Origin pool opcode x offset (.exchange pops pushes)
  | new (h : opcode = Opcode.new) :
    Origin pool opcode x offset (.exchange [] [.uninitialized offset])
  | shuffle {e : Effect} (h : shuffle? opcode = some e) : Origin pool opcode x offset e
  | invoke {e : Effect} (h : invoke? pool opcode x.word16 = some e) :
    Origin pool opcode x offset e

section Origins

variable {pool : Pool} {opcode code : UInt8} {index : UInt16} {x : Operand} {offset : Nat}
  {e : Effect}

lemma origin_of_load? (h : load? pool code index = some e) : Origin pool opcode x offset e := by
  obtain ⟨kind, -, h⟩ := Option.bind_eq_some_iff.1 h
  split at h
  · cases h
    exact .exchange (.inr (.inr ⟨kind, rfl⟩))
  · cases h

lemma origin_of_fieldAccess? (h : fieldAccess? pool code index = some e) :
    Origin pool opcode x offset e := by
  obtain ⟨kind, -, rfl⟩ := Option.map_eq_some_iff.1 h
  split
  · exact .exchange (.inr (.inr ⟨kind, rfl⟩))
  split
  · exact .exchange (.inl rfl)
  split
  · exact .exchange (.inr (.inr ⟨kind, rfl⟩))
  · exact .exchange (.inl rfl)

lemma origin_of_fixed? (h : fixed? code = some e) : Origin pool opcode x offset e := by
  have hrows : ∀ r ∈ rows, r.pushes = [] ∨ r.pushes = [.returnAddress] ∨
      ∃ kind ∈ ValueKind.reference :: numeric, r.pushes = kind.slots := by decide +kernel
  obtain ⟨r, hr, rfl⟩ := Option.map_eq_some_iff.1 h
  refine .exchange ?_
  rcases hrows r (List.mem_of_find?_eq_some hr) with h | h | ⟨kind, -, h⟩
  · exact .inl h
  · exact .inr (.inl h)
  · exact .inr (.inr ⟨kind, h⟩)

lemma origin_of_of? (h : of? pool opcode x offset = some e) : Origin pool opcode x offset e := by
  unfold of? at h
  split at h
  · exact origin_of_load? h
  split at h
  · exact origin_of_load? h
  split at h
  · exact origin_of_fieldAccess? h
  split at h
  · exact .invoke h
  split at h
  · next hnew =>
    cases h
    exact .new hnew
  split at h
  · cases h
    exact .exchange (.inr (.inr ⟨.reference, rfl⟩))
  split at h
  · exact origin_of_fixed? h
  · rcases Option.or_eq_some_iff.1 h with h | ⟨-, h⟩
    · exact .shuffle h
    · exact origin_of_fixed? h

lemma of?_cases (h : of? pool opcode x offset = some e) :
    opcode = Opcode.new ∧ e = exchange [] [.uninitialized offset] ∨
      opcode ≠ Opcode.new ∧ e.LeavesValue ∧ ∀ offset', of? pool opcode x offset' = some e := by
  by_cases hn : opcode = Opcode.new
  · subst hn
    exact .inl ⟨rfl, (Option.some.inj h).symm⟩
  · have hsame : ∀ offset', of? pool opcode x offset' = some e := by
      intro offset'
      rw [← h]
      simp only [of?, if_neg hn]
    refine .inr ⟨hn, ?_, hsame⟩
    cases origin_of_of? h with
    | exchange hvalue => exact hvalue
    | new hnew => exact absurd hnew hn
    | shuffle hs => exact leavesValue_shuffle hs
    | invoke hi => exact leavesValue_invoke hi

end Origins

lemma of?_rename_iff {pool : Pool} {opcode : UInt8} {x : Operand} {offset : Nat} {e' : Effect} :
    of? pool opcode x (f offset) = some e' ↔
      ∃ e, of? pool opcode x offset = some e ∧ e' = e.rename f := by
  constructor
  · intro h
    rcases of?_cases h with ⟨rfl, rfl⟩ | ⟨-, hvalue, hsame⟩
    · exact ⟨exchange [] [.uninitialized offset], rfl, rfl⟩
    · exact ⟨e', hsame offset, hvalue.isFree.rename_eq.symm⟩
  · rintro ⟨e, h, rfl⟩
    rcases of?_cases h with ⟨rfl, rfl⟩ | ⟨-, hvalue, hsame⟩
    · rfl
    · rw [hvalue.isFree.rename_eq]
      exact hsame (f offset)

end Effect

namespace Instruction

variable {pool : Pool} {i j : Instruction} {s t : Stack}

lemma apply_eq_ok_iff : i.apply pool s = .ok t ↔
    ∃ e, Effect.of? pool i.opcode i.operand i.offset = some e ∧ e.apply i.offset s = .ok t := by
  simp only [← Effect.ofInstruction_eq_ok_iff]
  unfold Instruction.apply
  cases Effect.ofInstruction pool i <;> simp

lemma Alike.of?_eq (h : i.Alike j) (offset : Nat) :
    Effect.of? pool j.opcode j.operand offset = Effect.of? pool i.opcode i.operand offset := by
  obtain ⟨h8, h16, h3⟩ := h.2.words
  rw [← h.1]
  unfold Effect.of?
  rw [h8, h16, h3]

lemma apply_rename_iff {f : Nat → Nat} (hf : Injective f) (ha : i.Alike j)
    (ho : j.offset = f i.offset) :
    j.apply pool (s.map (StackType.rename f)) = .ok t ↔
      ∃ r, i.apply pool s = .ok r ∧ t = r.map (StackType.rename f) := by
  simp only [apply_eq_ok_iff, ha.of?_eq, ho, Effect.of?_rename_iff]
  constructor
  · rintro ⟨_, ⟨e, he, rfl⟩, h⟩
    obtain ⟨r, hr, rfl⟩ := (e.apply_rename_iff hf i.offset).1 h
    exact ⟨r, ⟨e, he, hr⟩, rfl⟩
  · rintro ⟨r, ⟨e, he, hr⟩, rfl⟩
    exact ⟨_, ⟨e, he, rfl⟩, (e.apply_rename_iff hf i.offset).2 ⟨r, hr, rfl⟩⟩

end Instruction

end ClassWeaver
