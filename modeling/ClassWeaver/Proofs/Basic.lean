import Mathlib.Data.List.Forall2
import Mathlib.Tactic.Lemma
import ClassWeaver.Bytes

namespace ClassWeaver

lemma be16_ofBe16 (a b : UInt8) : be16 (ofBe16 a b) = [a, b] := by
  have ha := a.toNat_lt
  have hb := b.toNat_lt
  have hw : (ofBe16 a b).toNat = a.toNat * 256 + b.toNat := by
    rw [ofBe16, UInt16.toNat_ofNat']
    omega
  rw [be16, hw]
  have h : (a.toNat * 256 + b.toNat) / 256 = a.toNat := by omega
  rw [h, UInt8.ofNat_toNat]
  congr 2
  apply UInt8.toNat.inj
  rw [UInt8.toNat_ofNat']
  omega

lemma be16_injective : Function.Injective be16 := by
  intro v w h
  obtain ⟨hhigh, hlow⟩ := List.cons.inj h
  rw [← ofBe16_be16 v, hhigh, (List.cons.inj hlow).1, ofBe16_be16]

lemma be16_append_inj {v w : UInt16} {rest rest' : Bytes} (h : be16 v ++ rest = be16 w ++ rest') :
    v = w ∧ rest = rest' := by
  obtain ⟨hw, hrest⟩ := List.append_inj h rfl
  exact ⟨be16_injective hw, hrest⟩

lemma be32_ofBe32 (a b c d : UInt8) : be32 (ofBe32 a b c d) = [a, b, c, d] := by
  have ha := a.toNat_lt
  have hb := b.toNat_lt
  have hc := c.toNat_lt
  have hd := d.toNat_lt
  have hw : (ofBe32 a b c d).toNat =
      a.toNat * 16777216 + b.toNat * 65536 + c.toNat * 256 + d.toNat := by
    rw [ofBe32, UInt32.toNat_ofNat']
    omega
  simp only [be32, hw, List.cons.injEq, and_true]
  refine ⟨?_, ?_, ?_, ?_⟩ <;>
    (apply UInt8.toNat.inj; rw [UInt8.toNat_ofNat']; omega)

lemma takeExact?_eq_some_iff {n : Nat} {bs front rest : Bytes} :
    takeExact? n bs = some (front, rest) ↔ front.length = n ∧ bs = front ++ rest := by
  constructor
  · intro h
    obtain ⟨hb, hl⟩ := takeExact?_eq_some h
    exact ⟨hl, hb⟩
  · rintro ⟨hl, rfl⟩
    exact takeExact?_append hl rest

section Total

variable {α : Type} (size : α → Nat)

@[simp] lemma total_nil : total size [] = 0 := rfl

@[simp] lemma total_cons (a : α) (as : List α) :
    total size (a :: as) = size a + total size as := rfl

@[simp] lemma total_append (as bs : List α) :
    total size (as ++ bs) = total size as + total size bs := by
  induction as with
  | nil => simp
  | cons a as ih => simp [ih, Nat.add_assoc]

@[simp] lemma total_reverse (as : List α) : total size as.reverse = total size as := by
  induction as with
  | nil => rfl
  | cons a as ih => simp [ih, Nat.add_comm]

lemma total_map {β : Type} (f : β → α) (bs : List β) :
    total size (bs.map f) = total (fun b => size (f b)) bs := by
  induction bs with
  | nil => rfl
  | cons b bs ih => rw [List.map_cons, total_cons, total_cons, ih]

lemma total_one (as : List α) : total (fun _ => 1) as = as.length := by
  induction as with
  | nil => rfl
  | cons a as ih => rw [total_cons, ih, List.length_cons, Nat.add_comm]

lemma total_le_total {size' : α → Nat} (h : ∀ a, size a ≤ size' a) (as : List α) :
    total size as ≤ total size' as := by
  induction as with
  | nil => exact Nat.le_refl 0
  | cons a as ih => exact Nat.add_le_add (h a) ih

lemma total_le_of_mem {a : α} {as : List α} (h : a ∈ as) : size a ≤ total size as := by
  obtain ⟨bs, cs, rfl⟩ := List.append_of_mem h
  rw [total_append, total_cons]
  omega

variable {size} in
lemma total_eq_of_forall₂ {r : α → α → Prop} {as bs : List α} (h : List.Forall₂ r as bs)
    (hr : ∀ a b, r a b → size b = size a) : total size bs = total size as := by
  induction h with
  | nil => rfl
  | cons hab _ ih => rw [total_cons, total_cons, ih, hr _ _ hab]

lemma length_flatMap {β : Type} (f : α → List β) (as : List α) :
    (as.flatMap f).length = total (fun a => (f a).length) as := by
  induction as with
  | nil => rfl
  | cons a as ih => rw [List.flatMap_cons, List.length_append, ih, total_cons]

lemma length_flatten (ass : List (List α)) : ass.flatten.length = total List.length ass := by
  rw [← List.flatMap_id, length_flatMap]
  rfl

lemma eq_of_flatMap_append {enc : α → Bytes} {as bs : List α} (hlen : as.length = bs.length)
    (h : ∀ a ∈ as, ∀ b ∈ bs, ∀ rest rest', enc a ++ rest = enc b ++ rest' → a = b)
    {rest rest' : Bytes} (he : as.flatMap enc ++ rest = bs.flatMap enc ++ rest') : as = bs := by
  induction as generalizing bs with
  | nil => exact (List.length_eq_zero_iff.1 hlen.symm).symm
  | cons a as ih =>
    cases bs with
    | nil => cases hlen
    | cons b bs =>
      rw [List.flatMap_cons, List.flatMap_cons, List.append_assoc, List.append_assoc] at he
      obtain rfl := h a List.mem_cons_self b List.mem_cons_self _ _ he
      rw [ih (Nat.succ.inj hlen)
        (fun x hx y hy => h x (List.mem_cons_of_mem a hx) y (List.mem_cons_of_mem a hy))
        (List.append_cancel_left he)]

end Total

section Results

lemma bind_eq_ok_iff {ε α β : Type} {x : Except ε α} {f : α → Except ε β} {b : β} :
    x >>= f = .ok b ↔ ∃ a, x = .ok a ∧ f a = .ok b := by
  cases x with
  | error e => simp [bind, Except.bind]
  | ok a => simp [bind, Except.bind]

lemma map_eq_ok_iff {ε α β : Type} {x : Except ε α} {f : α → β} {b : β} :
    x.map f = .ok b ↔ ∃ a, x = .ok a ∧ f a = b := by
  cases x with
  | error e => simp [Except.map]
  | ok a => simp [Except.map]

lemma bind_eq_error_iff {ε α β : Type} {x : Except ε α} {f : α → Except ε β} {e : ε} :
    x >>= f = .error e ↔ x = .error e ∨ ∃ a, x = .ok a ∧ f a = .error e := by
  cases x with
  | error e => simp [bind, Except.bind]
  | ok a => simp [bind, Except.bind]

lemma map_eq_error_iff {ε α β : Type} {x : Except ε α} {f : α → β} {e : ε} :
    x.map f = .error e ↔ x = .error e := by
  cases x with
  | error e => simp [Except.map]
  | ok a => simp [Except.map]

lemma mapError_eq_ok_iff {ε ε' α : Type} {x : Except ε α} {f : ε → ε'} {a : α} :
    x.mapError f = .ok a ↔ x = .ok a := by
  cases x with
  | error e => simp [Except.mapError]
  | ok a => simp [Except.mapError]

lemma mapM_eq_ok_iff {ε α β : Type} {f : α → Except ε β} {as : List α} {bs : List β} :
    as.mapM f = .ok bs ↔ List.Forall₂ (fun a b => f a = .ok b) as bs := by
  induction as generalizing bs with
  | nil =>
    rw [List.mapM_nil, List.forall₂_nil_left_iff]
    exact ⟨fun h => by cases h; rfl, fun h => h ▸ rfl⟩
  | cons a as ih =>
    rw [List.mapM_cons, List.forall₂_cons_left_iff, bind_eq_ok_iff]
    constructor
    · rintro ⟨b, hb, h⟩
      obtain ⟨cs, hcs, h⟩ := bind_eq_ok_iff.1 h
      cases h
      exact ⟨b, cs, hb, ih.1 hcs, rfl⟩
    · rintro ⟨b, cs, hb, hcs, rfl⟩
      exact ⟨b, hb, bind_eq_ok_iff.2 ⟨cs, ih.2 hcs, rfl⟩⟩

lemma mapM_eq_error_iff {ε α β : Type} {f : α → Except ε β} {as : List α} {e : ε} :
    as.mapM f = .error e ↔ ∃ before a after, as = before ++ a :: after ∧
      (∀ x ∈ before, ∃ b, f x = .ok b) ∧ f a = .error e := by
  induction as with
  | nil => simp [pure, Except.pure]
  | cons a as ih =>
    rw [List.mapM_cons, bind_eq_error_iff]
    constructor
    · rintro (h | ⟨b, hb, h⟩)
      · exact ⟨[], a, as, rfl, by simp, h⟩
      · obtain h | ⟨bs, -, h⟩ := bind_eq_error_iff.1 h
        · obtain ⟨before, x, after, rfl, hbefore, hx⟩ := ih.1 h
          exact ⟨a :: before, x, after, rfl, List.forall_mem_cons.2 ⟨⟨b, hb⟩, hbefore⟩, hx⟩
        · cases h
    · rintro ⟨before, x, after, hsplit, hbefore, hx⟩
      cases before with
      | nil =>
        cases hsplit
        exact .inl hx
      | cons y before =>
        cases hsplit
        obtain ⟨⟨b, hb⟩, hbefore⟩ := List.forall_mem_cons.1 hbefore
        refine .inr ⟨b, hb, bind_eq_error_iff.2 (.inl ?_)⟩
        exact ih.2 ⟨before, x, after, rfl, hbefore, hx⟩

lemma exists_of_forall₂ {α β : Type} {r : α → β → Prop} {as : List α} {bs : List β}
    (h : List.Forall₂ r as bs) {a : α} (ha : a ∈ as) : ∃ b ∈ bs, r a b := by
  induction h with
  | nil => cases ha
  | cons hab _ ih =>
    rcases List.mem_cons.1 ha with rfl | ha'
    · exact ⟨_, List.mem_cons_self, hab⟩
    · obtain ⟨b, hb, hr⟩ := ih ha'
      exact ⟨b, List.mem_cons_of_mem _ hb, hr⟩

lemma forall₂_imp_of_mem {α β : Type} {r r' : α → β → Prop} {as : List α} {bs : List β}
    (h : List.Forall₂ r as bs) (hr : ∀ a ∈ as, ∀ b ∈ bs, r a b → r' a b) :
    List.Forall₂ r' as bs := by
  induction h with
  | nil => exact .nil
  | cons hab _ ih =>
    refine .cons (hr _ List.mem_cons_self _ List.mem_cons_self hab) (ih fun a ha b hb => ?_)
    exact hr a (List.mem_cons_of_mem _ ha) b (List.mem_cons_of_mem _ hb)

end Results

end ClassWeaver
