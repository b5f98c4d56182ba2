import ClassWeaver.Code.Relocation
import ClassWeaver.Proofs.Code.Positions

namespace ClassWeaver

namespace Instruction

def PlacedFrom (ins : Insertion) : Nat → List (Instruction × Place) → Nat → Prop
  | pos, [], stop => stop = pos
  | pos, (i, place) :: rest, stop =>
    place = i.placeAt ins pos ∧
      PlacedFrom ins (place.instruction + i.sizeAt place.instruction) rest stop

lemma placeFrom_placed (ins : Insertion) (pos : Nat) (is : List Instruction)
    (done : List (Instruction × Place)) :
    ∃ tail, (placeFrom ins pos is done).1 = done.reverse ++ tail ∧ tail.map Prod.fst = is ∧
      PlacedFrom ins pos tail (placeFrom ins pos is done).2 := by
  induction is generalizing pos done with
  | nil => exact ⟨[], by simp [placeFrom], rfl, rfl⟩
  | cons i is ih =>
    obtain ⟨tail, h1, h2, h3⟩ := ih ((i.placeAt ins pos).instruction +
      i.sizeAt (i.placeAt ins pos).instruction) ((i, i.placeAt ins pos) :: done)
    exact ⟨(i, i.placeAt ins pos) :: tail, by simp [placeFrom, h1], by simp [h2], rfl, h3⟩

variable {ins : Insertion} {pos stop old : Nat} {placed : List (Instruction × Place)}

lemma sizeAt_pos (i : Instruction) : 0 < i.sizeAt pos := by
  unfold sizeAt
  split
  · unfold Switch.sizeAt
    omega
  · exact i.size_pos

lemma PlacedFrom.le_stop (h : PlacedFrom ins pos placed stop) : pos ≤ stop := by
  induction placed generalizing pos with
  | nil => exact Nat.le_of_eq h.symm
  | cons a placed ih =>
    obtain ⟨he, h⟩ := h
    have hs := ih h
    rw [he] at hs
    simp only [placeAt] at hs
    omega

lemma PlacedFrom.mem_bounds (h : PlacedFrom ins pos placed stop) {i : Instruction} {p : Place}
    (hp : (i, p) ∈ placed) :
    pos ≤ p.block ∧ p.instruction = p.block + (i.epilogueOf ins).length ∧
      p.instruction + i.sizeAt p.instruction ≤ stop := by
  induction placed generalizing pos with
  | nil => cases hp
  | cons a placed ih =>
    obtain ⟨he, h⟩ := h
    rcases List.mem_cons.1 hp with rfl | hp
    · have hs := h.le_stop
      dsimp only at he hs
      rw [he] at hs ⊢
      exact ⟨Nat.le_add_right _ _, rfl, hs⟩
    · obtain ⟨h1, h2, h3⟩ := ih h hp
      refine ⟨?_, h2, h3⟩
      rw [he] at h1
      simp only [placeAt] at h1
      omega

lemma PlacedFrom.next {as bs : List (Instruction × Place)} {i : Instruction} {p : Place}
    (h : PlacedFrom ins pos (as ++ (i, p) :: bs) stop) :
    PlacedFrom ins (p.instruction + i.sizeAt p.instruction) bs stop := by
  induction as generalizing pos with
  | nil => exact h.2
  | cons a as ih => exact ih h.2

lemma PlacedFrom.mono (h : PlacedFrom ins pos placed stop)
    (ht : Tiles old (placed.map Prod.fst)) {i j : Instruction} {p q : Place}
    (hp : (i, p) ∈ placed) (hq : (j, q) ∈ placed) (hlt : i.offset < j.offset) :
    p.instruction + i.sizeAt p.instruction ≤ q.block := by
  induction placed generalizing pos old with
  | nil => cases hp
  | cons a placed ih =>
    obtain ⟨-, h⟩ := h
    obtain ⟨ho, -, ht⟩ := ht
    rcases List.mem_cons.1 hp with rfl | hp' <;> rcases List.mem_cons.1 hq with he | hq'
    · cases he
      exact absurd hlt (Nat.lt_irrefl _)
    · exact (h.mem_bounds hq').1
    · cases he
      have hle := ht.le_offset (List.mem_map_of_mem hp')
      simp only [Instruction.stop] at hle
      omega
    · exact ih h ht hp' hq'

end Instruction

namespace Placement

open Instruction

variable {ins : Insertion} {stop : Nat} {placed : List (Instruction × Place)}

lemma slotsOf_eq (placed : List (Instruction × Place)) :
    slotsOf placed = ClassWeaver.slots Prod.snd (fun a => a.1.size) placed := rfl

lemma length_slotsOf (placed : List (Instruction × Place)) :
    (slotsOf placed).length = total size (placed.map Prod.fst) := by
  rw [slotsOf_eq, length_slots _ _ fun a _ => a.1.size_pos, total_map]

lemma size_of (placed : List (Instruction × Place)) (stop : Nat) :
    (of placed stop).slots.size = total size (placed.map Prod.fst) + 1 := by
  simp [of, length_slotsOf]

lemma place?_eq_some_iff (ht : Tiles 0 (placed.map Prod.fst)) {old : Nat} {p : Place} :
    (of placed stop).place? old = some p ↔
      (∃ i, (i, p) ∈ placed ∧ i.offset = old) ∨
        old = total size (placed.map Prod.fst) ∧ p = ⟨stop, stop⟩ := by
  have found : ((slotsOf placed)[old]?).join = some p ↔
      ∃ i, (i, p) ∈ placed ∧ i.offset = old := by
    rw [slotsOf_eq, slot_eq_some_iff _ _ fun a _ => a.1.size_pos]
    constructor
    · rintro ⟨pre, ⟨i, q⟩, post, rfl, rfl, rfl⟩
      rw [List.map_append, List.map_cons] at ht
      exact ⟨i, by simp, by rw [ht.offset_eq, total_map, Nat.zero_add]⟩
    · rintro ⟨i, hi, rfl⟩
      obtain ⟨pre, post, rfl⟩ := List.append_of_mem hi
      rw [List.map_append, List.map_cons] at ht
      exact ⟨pre, (i, p), post, rfl, by rw [ht.offset_eq, total_map, Nat.zero_add], rfl⟩
  have hlen := length_slotsOf placed
  -- the table has one slot more, for the end of the code
  rw [place?, of, List.getElem?_toArray, List.getElem?_append]
  split
  · next hlt =>
    rw [found]
    constructor
    · exact Or.inl
    · rintro (h | ⟨rfl, -⟩)
      · exact h
      · exact absurd hlt (by omega)
  · next hge =>
    constructor
    · intro h
      by_cases he : old = (slotsOf placed).length
      · subst he
        simp only [Nat.sub_self, List.getElem?_cons_zero, Option.join_some,
          Option.some.injEq] at h
        exact .inr ⟨hlen, h.symm⟩
      · obtain ⟨n, hn⟩ : ∃ n, old - (slotsOf placed).length = n + 1 :=
          ⟨old - (slotsOf placed).length - 1, by omega⟩
        rw [hn] at h
        cases h
    · rintro (⟨i, hi, rfl⟩ | ⟨rfl, rfl⟩)
      · have hs := ht.stop_le (List.mem_map_of_mem hi)
        have hpos := i.size_pos
        simp only [Instruction.stop] at hs
        exact absurd hge (by omega)
      · rw [← hlen, Nat.sub_self]
        rfl

lemma place?_of_mem (ht : Tiles 0 (placed.map Prod.fst)) {i : Instruction} {p : Place}
    (h : (i, p) ∈ placed) : (of placed stop).place? i.offset = some p :=
  (place?_eq_some_iff ht).2 (.inl ⟨i, h, rfl⟩)

lemma place?_end (ht : Tiles 0 (placed.map Prod.fst)) :
    (of placed stop).place? (total size (placed.map Prod.fst)) = some ⟨stop, stop⟩ :=
  (place?_eq_some_iff ht).2 (.inr ⟨rfl, rfl⟩)

lemma place?_lt (h : PlacedFrom ins 0 placed stop) (ht : Tiles 0 (placed.map Prod.fst))
    {a b : Nat} {p q : Place} (hp : (of placed stop).place? a = some p)
    (hq : (of placed stop).place? b = some q) (hlt : a < b) : p.instruction < q.block := by
  rcases (place?_eq_some_iff ht).1 hp with ⟨i, hi, rfl⟩ | ⟨rfl, rfl⟩
  · have hs : 0 < i.sizeAt p.instruction := sizeAt_pos i
    rcases (place?_eq_some_iff ht).1 hq with ⟨j, hj, rfl⟩ | ⟨rfl, rfl⟩
    · have := h.mono ht hi hj hlt
      omega
    · have := (h.mem_bounds hi).2.2
      dsimp only
      omega
  · rcases (place?_eq_some_iff ht).1 hq with ⟨j, hj, rfl⟩ | ⟨rfl, rfl⟩
    · have := ht.stop_le (List.mem_map_of_mem hj)
      have hpos := j.size_pos
      simp only [Instruction.stop] at this
      omega
    · exact absurd hlt (Nat.lt_irrefl _)

lemma block_le (h : PlacedFrom ins 0 placed stop) (ht : Tiles 0 (placed.map Prod.fst))
    {a : Nat} {p : Place} (hp : (of placed stop).place? a = some p) :
    p.block ≤ p.instruction ∧ p.instruction ≤ stop := by
  rcases (place?_eq_some_iff ht).1 hp with ⟨i, hi, rfl⟩ | ⟨rfl, rfl⟩
  · obtain ⟨-, h2, h3⟩ := h.mem_bounds hi
    omega
  · exact ⟨Nat.le_refl _, Nat.le_refl _⟩

lemma place?_inj (h : PlacedFrom ins 0 placed stop) (ht : Tiles 0 (placed.map Prod.fst))
    {a b : Nat} {p q : Place} (hp : (of placed stop).place? a = some p)
    (hq : (of placed stop).place? b = some q) (he : p.instruction = q.instruction) : a = b := by
  have hp' := block_le h ht hp
  have hq' := block_le h ht hq
  rcases Nat.lt_trichotomy a b with hlt | rfl | hlt
  · have := place?_lt h ht hp hq hlt
    omega
  · rfl
  · have := place?_lt h ht hq hp hlt
    omega

end Placement

end ClassWeaver
