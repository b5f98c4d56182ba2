import ClassWeaver.Proofs.Code.Insertion
import ClassWeaver.Proofs.Code.TwofoldPlacement

namespace ClassWeaver

open Instruction

def Composed {ε α : Type} (f₁ f₂ f : α → Except ε α) : Prop :=
  ∀ a b c, f₁ a = .ok b → f a = .ok c → f₂ b = .ok c

lemma Composed.mapM {ε α : Type} {f₁ f₂ f : α → Except ε α} (h : Composed f₁ f₂ f) :
    Composed (List.mapM f₁) (List.mapM f₂) (List.mapM f) := by
  intro as bs cs hb hc
  have hb' := mapM_eq_ok_iff.1 hb
  have hc' := mapM_eq_ok_iff.1 hc
  apply mapM_eq_ok_iff.2
  clear hb hc
  induction hb' generalizing cs with
  | nil =>
    cases hc'
    exact .nil
  | cons hab _ ih =>
    cases hc' with
    | cons hac hrest => exact .cons (h _ _ _ hab hac) (ih _ hrest)

lemma Placement.block_of_branch {m : Placement} {source new : Nat} {target : Int}
    (h : m.branch source target = .ok new) : m.block target.toNat = .ok new := by
  unfold branch at h
  split at h
  · cases h
  · split at h
    · next p hp =>
      cases h
      exact block_eq_ok_iff.2 ⟨p, hp, rfl⟩
    · cases h

namespace Placement.Composes

variable {m₁ m₂ m : Placement}

lemma block (h : m₁.Composes m₂ m) : Composed m₁.block m₂.block m.block := by
  intro old new new' hnew hnew'
  obtain ⟨p, hp, rfl⟩ := block_eq_ok_iff.1 hnew
  obtain ⟨s, hs, rfl⟩ := block_eq_ok_iff.1 hnew'
  obtain ⟨q, r, s', hq, -, hs', hblock, -⟩ := h.places hp
  rw [hs] at hs'
  cases hs'
  exact block_eq_ok_iff.2 ⟨q, hq, hblock⟩

lemma block_le (h : m₁.Composes m₂ m) {old new : Nat} (hnew : m₁.block old = .ok new) :
    new ≤ Code.maxLength := by
  obtain ⟨p, hp, rfl⟩ := block_eq_ok_iff.1 hnew
  obtain ⟨hle, hmax⟩ := h.bounded hp
  exact Nat.le_trans hle hmax

lemma pc (h : m₁.Composes m₂ m) : Composed m₁.pc m₂.pc m.pc := by
  intro old new new' hnew hnew'
  obtain ⟨b, hb, rfl⟩ := map_eq_ok_iff.1 hnew
  obtain ⟨b', hb', rfl⟩ := map_eq_ok_iff.1 hnew'
  have hle := h.block_le hb
  rw [Code.maxLength] at hle
  refine map_eq_ok_iff.2 ⟨b', ?_, rfl⟩
  rw [Read.toNat_count16 (by omega)]
  exact h.block _ _ _ hb hb'

lemma instruction (h : m₁.Composes m₂ m) {old new new' : Nat} (hnew : m₁.instruction? old = some new)
    (hnew' : m.instruction? old = some new') :
    m₂.instruction? new = some new' ∧ new ≤ Code.maxLength := by
  obtain ⟨p, hp, rfl⟩ := Option.map_eq_some_iff.1 hnew
  obtain ⟨s, hs, rfl⟩ := Option.map_eq_some_iff.1 hnew'
  obtain ⟨q, r, s', -, hr, hs', -, hinstruction⟩ := h.places hp
  rw [hs] at hs'
  cases hs'
  exact ⟨Option.map_eq_some_iff.2 ⟨r, hr, hinstruction⟩, (h.bounded hp).2⟩

end Placement.Composes

namespace Relocation

variable {m₁ m₂ m : Placement}

section Operands

variable {i j : Instruction} {pos : Nat}

lemma leads_again (h : m₁.Composes m₂ m) {delta delta₁ delta₂ delta' : Int}
    (h₁ : Leads m₁ i j.offset delta delta₁) (h₂ : Leads m₂ j pos delta₁ delta₂)
    (h' : Leads m i pos delta delta') : delta₂ = delta' := by
  obtain ⟨b₁, hb₁, ho₁⟩ := h₁
  obtain ⟨b₂, hb₂, ho₂⟩ := h₂
  obtain ⟨b', hb', ho'⟩ := h'
  have hagain := h.block _ _ _ (Placement.block_of_branch hb₁) (Placement.block_of_branch hb')
  have hsecond := Placement.block_of_branch hb₂
  have htarget : ((j.offset : Int) + delta₁).toNat = b₁ := by omega
  rw [htarget, hagain] at hsecond
  cases hsecond
  omega

lemma cases_again (h : m₁.Composes m₂ m) {cases cases₁ cases₂ cases' : List (Int32 × Int32)}
    (h₁ : List.Forall₂ (fun c c' => c.1 = c'.1 ∧ Leads m₁ i j.offset c.2.toInt c'.2.toInt)
      cases cases₁)
    (h₂ : List.Forall₂ (fun c c' => c.1 = c'.1 ∧ Leads m₂ j pos c.2.toInt c'.2.toInt)
      cases₁ cases₂)
    (h' : List.Forall₂ (fun c c' => c.1 = c'.1 ∧ Leads m i pos c.2.toInt c'.2.toInt)
      cases cases') : cases₂ = cases' := by
  induction h₁ generalizing cases₂ cases' with
  | nil =>
    cases h₂
    cases h'
    rfl
  | cons hc₁ _ ih =>
    obtain ⟨c₂, rest₂, hc₂, hr₂, rfl⟩ := List.forall₂_cons_left_iff.1 h₂
    obtain ⟨c', rest', hc', hr', rfl⟩ := List.forall₂_cons_left_iff.1 h'
    have hkey : c₂.1 = c'.1 := hc₂.1.symm.trans (hc₁.1.symm.trans hc'.1)
    have htarget : c₂.2 = c'.2 := Int32.toInt.inj (leads_again h hc₁.2 hc₂.2 hc'.2)
    rw [Prod.ext hkey htarget, ih hr₂ hr']

lemma moveOperand_again (h : m₁.Composes m₂ m) {x₁ x₂ x' : Operand}
    (h₁ : moveOperand m₁ i j.offset = .ok x₁) (hj : j.operand = x₁)
    (h₂ : moveOperand m₂ j pos = .ok x₂) (h' : moveOperand m i pos = .ok x') : x₂ = x' := by
  have r₁ := redirects_of_moveOperand h₁
  have r₂ := redirects_of_moveOperand h₂
  have r' := redirects_of_moveOperand h'
  rw [hj] at r₂
  generalize i.operand = x at r₁ r'
  cases r₁ with
  | plain =>
    cases r₂
    cases r'
    rfl
  | near hlead₁ =>
    obtain - | hlead₂ := r₂
    obtain - | hlead' := r'
    rw [Int16.toInt.inj (leads_again h hlead₁ hlead₂ hlead')]
  | far hlead₁ =>
    obtain - | - | hlead₂ := r₂
    obtain - | - | hlead' := r'
    rw [Int32.toInt.inj (leads_again h hlead₁ hlead₂ hlead')]
  | table hdefault₁ hcases₁ =>
    obtain - | - | - | ⟨hdefault₂, hcases₂⟩ := r₂
    obtain - | - | - | ⟨hdefault', hcases'⟩ := r'
    rw [Int32.toInt.inj (leads_again h hdefault₁ hdefault₂ hdefault'),
      cases_again h hcases₁ hcases₂ hcases']

end Operands

lemma moveNew_eq_ok_iff {m : Placement} {old new : Nat} :
    moveNew m old = .ok new ↔ m.instruction? old = some new := by
  unfold moveNew
  cases m.instruction? old <;> simp

lemma composed_moveNew (h : m₁.Composes m₂ m) : Composed (moveNew m₁) (moveNew m₂) (moveNew m) := by
  intro old new new' hnew hnew'
  rw [moveNew_eq_ok_iff] at hnew hnew' ⊢
  exact (h.instruction hnew hnew').1

lemma composed_moveHandler (h : m₁.Composes m₂ m) :
    Composed (moveHandler m₁) (moveHandler m₂) (moveHandler m) := by
  intro handler new new' hnew hnew'
  obtain ⟨start, hstart, hnew⟩ := bind_eq_ok_iff.1 hnew
  obtain ⟨stop, hstop, hnew⟩ := bind_eq_ok_iff.1 hnew
  obtain ⟨target, htarget, hnew⟩ := bind_eq_ok_iff.1 hnew
  cases hnew
  obtain ⟨start', hstart', hnew'⟩ := bind_eq_ok_iff.1 hnew'
  obtain ⟨stop', hstop', hnew'⟩ := bind_eq_ok_iff.1 hnew'
  obtain ⟨target', htarget', hnew'⟩ := bind_eq_ok_iff.1 hnew'
  cases hnew'
  refine bind_eq_ok_iff.2 ⟨start', h.pc _ _ _ hstart hstart', ?_⟩
  refine bind_eq_ok_iff.2 ⟨stop', h.pc _ _ _ hstop hstop', ?_⟩
  exact bind_eq_ok_iff.2 ⟨target', h.pc _ _ _ htarget htarget', rfl⟩

section Frames

variable {g₁ g₂ g : Nat → Except CodeFault Nat}

lemma composed_mapOffset (hg : Composed g₁ g₂ g) : Composed (FrameType.mapOffset g₁)
    (FrameType.mapOffset g₂) (FrameType.mapOffset g) := by
  intro t new new' hnew hnew'
  cases t with
  | uninitialized old =>
    obtain ⟨b, hb, rfl⟩ := map_eq_ok_iff.1 hnew
    obtain ⟨c, hc, rfl⟩ := map_eq_ok_iff.1 hnew'
    exact map_eq_ok_iff.2 ⟨c, hg _ _ _ hb hc, rfl⟩
  | _ =>
    cases hnew
    exact hnew'

lemma composed_mapOffset_kind (hg : Composed g₁ g₂ g) : Composed (FrameKind.mapOffset g₁)
    (FrameKind.mapOffset g₂) (FrameKind.mapOffset g) := by
  have htypes := (composed_mapOffset hg).mapM
  intro k new new' hnew hnew'
  cases k with
  | same =>
    cases hnew
    exact hnew'
  | chop count =>
    cases hnew
    exact hnew'
  | sameLocals1 t =>
    obtain ⟨b, hb, rfl⟩ := map_eq_ok_iff.1 hnew
    obtain ⟨c, hc, rfl⟩ := map_eq_ok_iff.1 hnew'
    exact map_eq_ok_iff.2 ⟨c, composed_mapOffset hg _ _ _ hb hc, rfl⟩
  | append locals =>
    obtain ⟨b, hb, rfl⟩ := map_eq_ok_iff.1 hnew
    obtain ⟨c, hc, rfl⟩ := map_eq_ok_iff.1 hnew'
    exact map_eq_ok_iff.2 ⟨c, htypes _ _ _ hb hc, rfl⟩
  | full locals stack =>
    obtain ⟨b, hb, hnew⟩ := bind_eq_ok_iff.1 hnew
    obtain ⟨d, hd, hnew⟩ := bind_eq_ok_iff.1 hnew
    cases hnew
    obtain ⟨b', hb', hnew'⟩ := bind_eq_ok_iff.1 hnew'
    obtain ⟨d', hd', hnew'⟩ := bind_eq_ok_iff.1 hnew'
    cases hnew'
    refine bind_eq_ok_iff.2 ⟨b', htypes _ _ _ hb hb', ?_⟩
    exact bind_eq_ok_iff.2 ⟨d', htypes _ _ _ hd hd', rfl⟩

end Frames

lemma composed_moveFrame (h : m₁.Composes m₂ m) :
    Composed (moveFrame m₁) (moveFrame m₂) (moveFrame m) := by
  intro frame new new' hnew hnew'
  obtain ⟨offset, ho, hnew⟩ := bind_eq_ok_iff.1 hnew
  obtain ⟨kind, hk, hnew⟩ := bind_eq_ok_iff.1 hnew
  cases hnew
  obtain ⟨offset', ho', hnew'⟩ := bind_eq_ok_iff.1 hnew'
  obtain ⟨kind', hk', hnew'⟩ := bind_eq_ok_iff.1 hnew'
  cases hnew'
  refine bind_eq_ok_iff.2 ⟨offset', h.block _ _ _ ho ho', ?_⟩
  exact bind_eq_ok_iff.2
    ⟨kind', composed_mapOffset_kind (composed_moveNew h) _ _ _ hk hk', rfl⟩

section Tables

lemma moveRange_again (h : m₁.Composes m₂ m) {start length : UInt16} {new new' : Bytes}
    (hnew : moveRange m₁ start length = .ok new) (hnew' : moveRange m start length = .ok new') :
    ∃ start₁ length₁ : UInt16, new = be16 start₁ ++ be16 length₁ ∧
      moveRange m₂ start₁ length₁ = .ok new' := by
  obtain ⟨start₁, hs₁, hnew⟩ := bind_eq_ok_iff.1 hnew
  obtain ⟨stop₁, ht₁, hnew⟩ := bind_eq_ok_iff.1 hnew
  cases hnew
  obtain ⟨start', hs, hnew'⟩ := bind_eq_ok_iff.1 hnew'
  obtain ⟨stop', ht, hnew'⟩ := bind_eq_ok_iff.1 hnew'
  cases hnew'
  refine ⟨start₁, UInt16.ofNat (stop₁ - start₁.toNat), rfl, ?_⟩
  have hpc := h.pc _ _ _ hs₁ hs
  have hblock := h.block _ _ _ ht₁ ht
  obtain ⟨b, hb, hb'⟩ := map_eq_ok_iff.1 hs₁
  have hbounded := h.block_le hb
  have hbounded' := h.block_le ht₁
  rw [Code.maxLength] at hbounded hbounded'
  have hstart : start₁.toNat = b := by rw [← hb', Read.toNat_count16 (by omega)]
  have hordered : b ≤ stop₁ := by
    obtain ⟨p, hp, rfl⟩ := Placement.block_eq_ok_iff.1 hb
    obtain ⟨q, hq, rfl⟩ := Placement.block_eq_ok_iff.1 ht₁
    exact h.ordered hp hq (Nat.le_add_right _ _)
  refine bind_eq_ok_iff.2 ⟨start', hpc, bind_eq_ok_iff.2 ⟨stop', ?_, rfl⟩⟩
  rw [Read.toNat_count16 (by omega), hstart, Nat.add_sub_cancel' hordered]
  exact hblock

lemma composed_moveLineNumber (h : m₁.Composes m₂ m) :
    Composed (moveLineNumber m₁) (moveLineNumber m₂) (moveLineNumber m) := by
  intro entry new new' hnew hnew'
  rcases entry with - | ⟨a, - | ⟨b, rest⟩⟩
  · cases hnew
    exact hnew'
  · cases hnew
    exact hnew'
  · obtain ⟨pc₁, h₁, rfl⟩ := map_eq_ok_iff.1 hnew
    obtain ⟨pc', h', rfl⟩ := map_eq_ok_iff.1 hnew'
    simp only [be16, List.cons_append, List.nil_append, moveLineNumber, ofBe16_be16]
    exact map_eq_ok_iff.2 ⟨pc', h.pc _ _ _ h₁ h', rfl⟩

lemma composed_moveLocalVariable (h : m₁.Composes m₂ m) :
    Composed (moveLocalVariable m₁) (moveLocalVariable m₂) (moveLocalVariable m) := by
  intro entry new new' hnew hnew'
  rcases entry with - | ⟨a, - | ⟨b, - | ⟨c, - | ⟨d, rest⟩⟩⟩⟩
  case cons.cons.cons.cons =>
    obtain ⟨range₁, h₁, rfl⟩ := map_eq_ok_iff.1 hnew
    obtain ⟨range', h', rfl⟩ := map_eq_ok_iff.1 hnew'
    obtain ⟨start, length, rfl, hagain⟩ := moveRange_again h h₁ h'
    simp only [be16, List.cons_append, List.nil_append, moveLocalVariable, ofBe16_be16]
    exact map_eq_ok_iff.2 ⟨range', hagain, rfl⟩
  all_goals
    cases hnew
    exact hnew'

lemma chunks_eq {size n : Nat} {bs : Bytes} (hlen : bs.length = n * size) (done : List Bytes) :
    ∃ entries, chunks size n bs done = done.reverse ++ entries ∧ entries.length = n ∧
      (∀ e ∈ entries, e.length = size) ∧ entries.flatten = bs := by
  induction n generalizing bs done with
  | zero =>
    rw [Nat.zero_mul, List.length_eq_zero_iff] at hlen
    exact ⟨[], by simp [chunks], rfl, nofun, hlen.symm⟩
  | succ n ih =>
    rw [Nat.add_mul, Nat.one_mul] at hlen
    have hdrop : (bs.drop size).length = n * size := by
      rw [List.length_drop]
      omega
    obtain ⟨entries, he, hn, hall, hflat⟩ := ih hdrop (bs.take size :: done)
    refine ⟨bs.take size :: entries, by simp [chunks, he], by simp [hn], ?_, by simp [hflat]⟩
    rintro e (- | ⟨-, hmem⟩)
    · simp
      omega
    · exact hall e hmem

lemma chunks_flatten {size : Nat} {entries : List Bytes} (h : ∀ e ∈ entries, e.length = size)
    (done : List Bytes) :
    chunks size entries.length entries.flatten done = done.reverse ++ entries := by
  induction entries generalizing done with
  | nil => simp [chunks]
  | cons e entries ih =>
    have he : e.length = size := h e List.mem_cons_self
    rw [List.length_cons, chunks, List.flatten_cons, List.take_left' he, List.drop_left' he,
      ih fun e' he' => h e' (List.mem_cons_of_mem e he')]
    simp

lemma length_flatten_of_all {size : Nat} {entries : List Bytes}
    (h : ∀ e ∈ entries, e.length = size) : entries.flatten.length = entries.length * size := by
  induction entries with
  | nil => simp
  | cons e entries ih =>
    rw [List.flatten_cons, List.length_append, h e List.mem_cons_self, List.length_cons,
      ih fun e' he' => h e' (List.mem_cons_of_mem e he'), Nat.add_mul, Nat.one_mul, Nat.add_comm]

lemma composed_moveTable {size : Nat} {f₁ f₂ f : Bytes → Except CodeFault Bytes}
    (h : Composed f₁ f₂ f) (hlen : ∀ old new, f₁ old = .ok new → new.length = old.length) :
    Composed (moveTable size f₁) (moveTable size f₂) (moveTable size f) := by
  intro body new new' hnew hnew'
  unfold moveTable at hnew hnew'
  split at hnew
  · next a b rest =>
    dsimp only at hnew hnew'
    split at hnew
    · next hsize =>
      rw [if_pos hsize] at hnew'
      obtain ⟨entries₁, h₁, rfl⟩ := map_eq_ok_iff.1 hnew
      obtain ⟨entries', h', rfl⟩ := map_eq_ok_iff.1 hnew'
      obtain ⟨old, hold, hn, hall, -⟩ := chunks_eq hsize []
      rw [List.reverse_nil, List.nil_append] at hold
      rw [hold] at h₁ h'
      have hpairs := mapM_eq_ok_iff.1 h₁
      have hn₁ : entries₁.length = (ofBe16 a b).toNat := by rw [← hpairs.length_eq, hn]
      have hall₁ : ∀ e ∈ entries₁, e.length = size := by
        intro e he
        obtain ⟨o, ho, hoe⟩ := exists_of_forall₂ hpairs.flip he
        rw [hlen o e hoe, hall o ho]
      simp only [moveTable]
      rw [if_pos (by rw [length_flatten_of_all hall₁, hn₁]), ← hn₁, chunks_flatten hall₁]
      exact map_eq_ok_iff.2 ⟨entries', h.mapM _ _ _ h₁ h', rfl⟩
    · cases hnew
  · cases hnew

end Tables

end Relocation

lemma Instruction.Tiles.flatMap_prologueOf {is : List Instruction} (ht : Tiles 0 is) (hne : is ≠ [])
    (ins : Insertion) (f : Instruction → Bytes) :
    is.flatMap (fun i => i.prologueOf ins ++ f i) = ins.prologue ++ is.flatMap f := by
  cases is with
  | nil => exact absurd rfl hne
  | cons i is =>
    obtain ⟨h0, -, ht⟩ := ht
    have later : is.flatMap (fun i => i.prologueOf ins ++ f i) = is.flatMap f := by
      apply List.flatMap_congr
      intro j hj
      have hle := ht.le_offset hj
      have hpos := i.size_pos
      rw [Instruction.stop] at hle
      rw [prologueOf, if_neg (by omega), List.nil_append]
    rw [List.flatMap_cons, later, List.flatMap_cons, prologueOf, if_pos h0, List.append_assoc]

lemma Relocates.bytes_eq {pool : Pool} {code : Code} {ins : Insertion} {body : Body}
    {placed : List (Instruction × Place)} {stop : Nat} (h : Relocates pool code ins body placed stop)
    (hne : code.bytes ≠ []) :
    body.code.bytes = ins.prologue ++ (placed.map Prod.fst).flatMap fun i =>
      i.epilogueOf ins ++ ((Placement.of placed stop).image i).encode := by
  have hne' : placed.map Prod.fst ≠ [] := by
    rw [Ne, List.map_eq_nil_iff]
    exact h.placed_ne_nil hne
  obtain ⟨blocks, hb, hbytes⟩ := h.blocks
  have hflat : ∀ {tail : List (Instruction × Place)} {blocks : List Bytes}, tail ⊆ placed →
      List.Forall₂ (fun a b => Relocation.emit ins (Placement.of placed stop) a = .ok b) tail blocks →
      blocks.flatten = (tail.map Prod.fst).flatMap fun i => i.prologueOf ins ++
        (i.epilogueOf ins ++ ((Placement.of placed stop).image i).encode) := by
    intro tail blocks hmem hb
    induction hb with
    | nil => rfl
    | cons hab _ ih =>
      rw [List.flatten_cons, h.emit_eq (hmem List.mem_cons_self) hab,
        ih fun _ ha => hmem (List.mem_cons_of_mem _ ha)]
      rfl
  rw [hbytes, hflat (List.Subset.refl _) hb, h.tiles.flatMap_prologueOf hne']

namespace Stacked

variable {pool pool₁ : Pool} {code : Code} {inner outer : Insertion}
  {prologue epilogue : List Instruction} {body₁ body₂ body : Body}
  {placed₁ placed₂ placed : List (Instruction × Place)} {stop₁ stop₂ stop : Nat}

section

variable (h : Stacked pool pool₁ code inner outer prologue epilogue body₁ body₂ body
  placed₁ placed₂ placed stop₁ stop₂ stop)

include h

lemma image_plain {j : Instruction} (hj : j ∈ placed₂.map Prod.fst) (hplain : j.IsPlain) :
    ((Placement.of placed₂ stop₂).image j).encode = j.encode := by
  obtain ⟨p, hp⟩ := h.second.exists_place hj
  obtain ⟨x, hx, he⟩ := h.second.image_eq hp
  obtain ⟨bytes, hbytes⟩ := hplain.operand_eq
  rw [Relocation.moveOperand, hbytes] at hx
  cases hx
  rw [he, Instruction.encode, Instruction.encode, hbytes]

lemma image_again {i : Instruction} {p : Place} (hi : (i, p) ∈ placed₁) :
    ((Placement.of placed₂ stop₂).image ((Placement.of placed₁ stop₁).image i)).encode =
      ((Placement.of placed stop).image i).encode := by
  obtain ⟨-, hall⟩ := h.arrives_all
  obtain ⟨⟨j, s⟩, hj, he, -, q, hq, hinstruction⟩ := exists_of_forall₂ hall hi
  obtain rfl : i = j := he
  obtain ⟨x₁, hx₁, he₁⟩ := h.first.image_eq hi
  obtain ⟨x₂, hx₂, he₂⟩ := h.second.image_eq hq
  obtain ⟨x, hx, he⟩ := h.both.image_eq hj
  dsimp only at hinstruction
  rw [hinstruction] at hx₂
  have hoffset : ((Placement.of placed₁ stop₁).image i).offset = p.instruction := by rw [he₁]
  rw [← hoffset] at hx₁
  have hoperand := Relocation.moveOperand_again h.composes hx₁ (by rw [he₁]) hx₂ hx
  rw [he₂, he, Instruction.encode, Instruction.encode, hoperand, he₁]

lemma flatMap_plain {run : List Instruction} (hmem : run ⊆ placed₂.map Prod.fst)
    (hplain : ∀ j ∈ run, j.IsPlain) :
    (run.flatMap fun j => j.epilogueOf outer ++ ((Placement.of placed₂ stop₂).image j).encode) =
      encodeAll run := by
  apply List.flatMap_congr
  intro j hj
  rw [(hplain j hj).epilogueOf, List.nil_append, h.image_plain (hmem hj) (hplain j hj)]

lemma flatMap_woven {i : Instruction} (hi : i ∈ placed₁.map Prod.fst) :
    (((Placement.of placed₁ stop₁).woven epilogue i).flatMap fun j => j.epilogueOf outer ++
      ((Placement.of placed₂ stop₂).image j).encode) =
    i.epilogueOf (inner.within outer) ++ ((Placement.of placed stop).image i).encode := by
  obtain ⟨p, hp⟩ := h.first.exists_place hi
  have hmem : (Placement.of placed₁ stop₁).woven epilogue i ⊆ placed₂.map Prod.fst := by
    intro j hj
    rw [h.woven_code]
    exact List.mem_append_right _ (List.mem_flatMap.2 ⟨i, hi, hj⟩)
  rw [Placement.woven] at hmem ⊢
  rw [List.flatMap_append, h.flatMap_plain fun j hj => hmem (List.mem_append_left _ hj)]
  · rw [List.flatMap_singleton, h.image_again hp, epilogueOf, h.image_isReturn hp,
      ← epilogueOf_eq (decode_eq_ok_iff.1 h.decode_epilogue).2, ← List.append_assoc]
    congr 1
    unfold epilogueOf
    split <;> rfl
  · exact h.plain_inserted i _

theorem bytes_eq : body₂.code.bytes = body.code.bytes := by
  have hne₁ : body₁.code.bytes ≠ [] := by
    intro hnil
    have hnone : decode body₁.code.bytes = .ok [] := by
      rw [hnil]
      exact decode_eq_ok_iff.2 ⟨trivial, rfl⟩
    rw [h.second.decoded] at hnone
    exact h.placed₂_ne_nil (List.map_eq_nil_iff.1 (Except.ok.inj hnone))
  have hmem : prologue ⊆ placed₂.map Prod.fst := by
    rw [h.woven_code]
    exact List.subset_append_left _ _
  have hbefore := h.flatMap_plain hmem h.plain_prologue
  rw [h.second.bytes_eq hne₁, h.both.bytes_eq h.nonempty, h.woven_code, h.same_code,
    Placement.weave, List.flatMap_append, List.flatMap_assoc, hbefore,
    ← (decode_eq_ok_iff.1 h.decode_prologue).2, List.flatMap_congr fun i hi => h.flatMap_woven hi,
    ← List.append_assoc]
  rfl

end

end Stacked

end ClassWeaver
