import ClassWeaver.Proofs.Code.InstructionEncoding

namespace ClassWeaver

section Slots

variable {α β : Type} (f : α → β) (size : α → Nat)

def slots (as : List α) : List (Option β) :=
  as.flatMap fun a => some (f a) :: List.replicate (size a - 1) none

lemma length_slots {as : List α} (h : ∀ a ∈ as, 0 < size a) :
    (slots f size as).length = total size as := by
  induction as with
  | nil => rfl
  | cons a as ih =>
    have hpos := h a List.mem_cons_self
    have hrest := ih fun b hb => h b (List.mem_cons_of_mem a hb)
    simp only [slots, List.flatMap_cons, List.length_append, List.length_cons,
      List.length_replicate, total_cons] at hrest ⊢
    omega

lemma slot_cons_self (a : α) (as : List α) : (slots f size (a :: as))[0]? = some (some (f a)) := by
  simp [slots]

lemma slot_cons_inside {a : α} {as : List α} {k : Nat} (h0 : 0 < k) (hk : k < size a) :
    (slots f size (a :: as))[k]? = some none := by
  obtain ⟨k, rfl⟩ := Nat.exists_eq_add_of_le' h0
  have hlen : k < (List.replicate (size a - 1) (none : Option β)).length := by
    rw [List.length_replicate]
    omega
  simp only [slots, List.flatMap_cons, List.cons_append, List.getElem?_cons_succ]
  rw [List.getElem?_append_left hlen, List.getElem?_replicate, if_pos (by omega)]

lemma slot_cons_add {a : α} (as : List α) (k : Nat) (ha : 0 < size a) :
    (slots f size (a :: as))[size a + k]? = (slots f size as)[k]? := by
  obtain ⟨n, hn⟩ := Nat.exists_eq_add_of_le' ha
  simp only [slots, List.flatMap_cons, hn, List.cons_append]
  rw [show n + 1 + k = n + k + 1 by omega, List.getElem?_cons_succ,
    List.getElem?_append_right (by simp)]
  simp

lemma slot_eq_some_iff {as : List α} (h : ∀ a ∈ as, 0 < size a) {k : Nat} {b : β} :
    ((slots f size as)[k]?).join = some b ↔
      ∃ pre a post, as = pre ++ a :: post ∧ k = total size pre ∧ f a = b := by
  induction as generalizing k with
  | nil => simp [slots]
  | cons a as ih =>
    have hpos := h a List.mem_cons_self
    have hrest : ∀ c ∈ as, 0 < size c := fun c hc => h c (List.mem_cons_of_mem a hc)
    constructor
    · intro hk
      rcases Nat.eq_zero_or_pos k with rfl | h0
      · rw [slot_cons_self] at hk
        exact ⟨[], a, as, rfl, rfl, Option.some.inj hk⟩
      · by_cases hlt : k < size a
        · rw [slot_cons_inside f size h0 hlt] at hk
          cases hk
        · obtain ⟨k, rfl⟩ := Nat.exists_eq_add_of_le (Nat.le_of_not_lt hlt)
          rw [slot_cons_add f size as k hpos] at hk
          obtain ⟨pre, c, post, rfl, rfl, hc⟩ := (ih hrest).1 hk
          exact ⟨a :: pre, c, post, rfl, rfl, hc⟩
    · rintro ⟨pre, c, post, he, rfl, rfl⟩
      cases pre with
      | nil =>
        obtain ⟨rfl, rfl⟩ := List.cons.inj he
        rw [total_nil, slot_cons_self]
        rfl
      | cons d pre =>
        obtain ⟨rfl, rfl⟩ := List.cons.inj he
        rw [total_cons, slot_cons_add f size _ _ hpos]
        exact (ih hrest).2 ⟨pre, c, post, rfl, rfl, rfl⟩

end Slots

namespace Instruction

lemma Tiles.append_iff {pos : Nat} {is js : List Instruction} :
    Tiles pos (is ++ js) ↔ Tiles pos is ∧ Tiles (pos + total size is) js := by
  induction is generalizing pos with
  | nil => simp [Tiles]
  | cons i is ih =>
    simp only [List.cons_append, Tiles, total_cons, ih]
    constructor
    · rintro ⟨rfl, hf, h1, h2⟩
      refine ⟨⟨rfl, hf, h1⟩, ?_⟩
      rwa [stop, Nat.add_assoc] at h2
    · rintro ⟨⟨rfl, hf, h1⟩, h2⟩
      refine ⟨rfl, hf, h1, ?_⟩
      rwa [stop, Nat.add_assoc]

lemma Tiles.offset_eq {pos : Nat} {pre post : List Instruction} {i : Instruction}
    (h : Tiles pos (pre ++ i :: post)) : i.offset = pos + total size pre :=
  (append_iff.1 h).2.1

lemma Tiles.fits {pos : Nat} {is : List Instruction} (h : Tiles pos is) {i : Instruction}
    (hi : i ∈ is) : i.Fits := by
  obtain ⟨pre, post, rfl⟩ := List.append_of_mem hi
  exact (append_iff.1 h).2.2.1

lemma Tiles.le_offset {pos : Nat} {is : List Instruction} (h : Tiles pos is) {i : Instruction}
    (hi : i ∈ is) : pos ≤ i.offset := by
  obtain ⟨pre, post, rfl⟩ := List.append_of_mem hi
  rw [h.offset_eq]
  exact Nat.le_add_right _ _

lemma Tiles.stop_le {pos : Nat} {is : List Instruction} (h : Tiles pos is) {i : Instruction}
    (hi : i ∈ is) : i.stop ≤ pos + total size is := by
  obtain ⟨pre, post, rfl⟩ := List.append_of_mem hi
  rw [stop, h.offset_eq, total_append, total_cons]
  omega

lemma Tiles.eq_of_offset_eq {pos : Nat} {is : List Instruction} (h : Tiles pos is)
    {i j : Instruction} (hi : i ∈ is) (hj : j ∈ is) (he : i.offset = j.offset) : i = j := by
  induction is generalizing pos with
  | nil => cases hi
  | cons k is ih =>
    obtain ⟨rfl, -, ht⟩ := h
    have later : ∀ l ∈ is, k.offset < l.offset := fun l hl =>
      Nat.lt_of_lt_of_le (Nat.lt_add_of_pos_right k.size_pos) (ht.le_offset hl)
    rcases List.mem_cons.1 hi with rfl | hi' <;> rcases List.mem_cons.1 hj with rfl | hj'
    · rfl
    · exact absurd (later j hj') (by omega)
    · exact absurd (later i hi') (by omega)
    · exact ih ht hi' hj'

lemma Tiles.next_eq {pos : Nat} {pre post : List Instruction} {i j : Instruction}
    (h : Tiles pos (pre ++ i :: post)) (hj : j ∈ pre ++ i :: post) (he : j.offset = i.stop) :
    ∃ rest, post = j :: rest := by
  have hi := h.offset_eq
  have hi' : i.stop = pos + total size (pre ++ [i]) := by
    rw [stop, hi, total_append, total_cons, total_nil]
    omega
  cases post with
  | nil =>
    have := h.stop_le hj
    rw [stop, he, hi'] at this
    have := j.size_pos
    omega
  | cons k rest =>
    have h' : Tiles pos ((pre ++ [i]) ++ k :: rest) := by simpa using h
    have hk := h'.offset_eq
    obtain rfl : j = k := h.eq_of_offset_eq hj (by simp) (by rw [he, hi', hk])
    exact ⟨rest, rfl⟩

lemma Tiles.getLast?_eq {pos : Nat} {is : List Instruction} (h : Tiles pos is) {i : Instruction}
    (hi : i ∈ is) (hstop : pos + total size is ≤ i.stop) : is.getLast? = some i := by
  obtain ⟨pre, post, rfl⟩ := List.append_of_mem hi
  have hoffset := h.offset_eq
  cases post with
  | nil => exact List.getLast?_concat
  | cons j post =>
    have hj := j.size_pos
    rw [total_append, total_cons, total_cons, stop, hoffset] at hstop
    omega

lemma Tiles.offset_of_append_cons {pos : Nat} {pre post : List Instruction} {i j : Instruction}
    (h : Tiles pos (pre ++ i :: j :: post)) : j.offset = i.stop :=
  (append_iff.1 h).2.2.2.1

lemma Tiles.slot_eq_some_iff {is : List Instruction} (h : Tiles 0 is) {pos : Nat}
    {i : Instruction} :
    ((slots id size is)[pos]?).join = some i ↔ i ∈ is ∧ i.offset = pos := by
  rw [ClassWeaver.slot_eq_some_iff id size fun a _ => a.size_pos]
  constructor
  · rintro ⟨pre, j, post, rfl, rfl, rfl⟩
    exact ⟨by simp, by simpa using h.offset_eq⟩
  · rintro ⟨hi, rfl⟩
    obtain ⟨pre, post, rfl⟩ := List.append_of_mem hi
    exact ⟨pre, i, post, rfl, by simpa using h.offset_eq, rfl⟩

end Instruction

end ClassWeaver
