import ClassWeaver.Pool.Growth
import ClassWeaver.Proofs.Basic

namespace ClassWeaver

namespace Pool

def Extends (p q : Pool) : Prop := p.slots.toList <+: q.slots.toList

lemma Extends.refl (p : Pool) : p.Extends p := List.prefix_rfl

lemma Extends.trans {p q r : Pool} (h : p.Extends q) (h' : q.Extends r) : p.Extends r :=
  List.IsPrefix.trans h h'

section Lookups

variable {p q : Pool} {i : UInt16}

lemma get?_eq_some_iff {c : Constant} :
    p.get? i = some c ↔ p.slots[i.toNat]? = some c ∧ c ≠ .unusable := by
  unfold get?
  split
  · next h =>
    constructor
    · intro hc
      cases hc
    · rintro ⟨hc, hne⟩
      rw [h] at hc
      exact absurd (Option.some.inj hc).symm hne
  · next h => simp [h]
  · next c' hne h =>
    rw [h, Option.some.injEq]
    constructor
    · rintro rfl
      exact ⟨rfl, hne⟩
    · exact And.left

lemma Extends.get? (h : p.Extends q) {c : Constant} (hc : p.get? i = some c) :
    q.get? i = some c := by
  rw [get?_eq_some_iff] at hc ⊢
  refine ⟨?_, hc.2⟩
  rw [← Array.getElem?_toList] at hc ⊢
  obtain ⟨more, hm⟩ := h
  obtain ⟨hlt, -⟩ := List.getElem?_eq_some_iff.1 hc.1
  rw [← hm, List.getElem?_append_left hlt]
  exact hc.1

lemma Extends.plays (h : p.Extends q) {role : Constant.Role} (hp : p.plays i role = true) :
    q.plays i role = true := by
  unfold Pool.plays at hp ⊢
  split at hp
  · next c hc => rwa [h.get? hc]
  · cases hp

lemma utf8?_eq_some_iff {text : String} :
    p.utf8? i = some text ↔ p.get? i = some (.utf8 text) := by
  unfold utf8?
  split
  · next t h => simp [h]
  · next hne =>
    constructor
    · intro h
      cases h
    · intro h
      exact absurd h (hne text)

lemma utf8_eq_ok_iff {text : String} : p.utf8 i = .ok text ↔ p.get? i = some (.utf8 text) := by
  rw [← utf8?_eq_some_iff]
  unfold utf8
  split
  · next t h => simp [h]
  · next h => simp [h]

lemma Extends.utf8 (h : p.Extends q) {text : String} (ht : p.utf8 i = .ok text) :
    q.utf8 i = .ok text :=
  utf8_eq_ok_iff.2 (h.get? (utf8_eq_ok_iff.1 ht))

lemma className_eq_ok_iff {name : String} :
    p.className i = .ok name ↔ ∃ j, p.get? i = some (.classRef j) ∧ p.utf8 j = .ok name := by
  unfold className
  split
  · next j h => simp [h]
  · next hne =>
    constructor
    · intro h
      cases h
    · rintro ⟨j, hj, -⟩
      exact absurd hj (hne j)

lemma Extends.className (h : p.Extends q) {name : String} (hn : p.className i = .ok name) :
    q.className i = .ok name := by
  obtain ⟨j, hj, ht⟩ := className_eq_ok_iff.1 hn
  exact className_eq_ok_iff.2 ⟨j, h.get? hj, h.utf8 ht⟩

lemma Extends.utf8? (h : p.Extends q) {text : String} (ht : p.utf8? i = some text) :
    q.utf8? i = some text :=
  utf8?_eq_some_iff.2 (h.get? (utf8?_eq_some_iff.1 ht))

lemma Extends.member? (h : p.Extends q) {m : UInt16 × UInt16} (hm : p.member? i = some m) :
    q.member? i = some m := by
  unfold Pool.member? at hm ⊢
  cases hc : p.get? i with
  | none =>
    rw [hc] at hm
    cases hm
  | some c =>
    rw [hc] at hm
    rw [h.get? hc]
    cases c with
    | fieldRef _ j | methodRef _ j | interfaceMethodRef _ j | dynamic _ j | invokeDynamic _ j =>
      dsimp only at hm ⊢
      cases hd : p.get? j with
      | none =>
        rw [hd] at hm
        cases hm
      | some d =>
        rw [hd] at hm
        rwa [h.get? hd]
    | _ => cases hm

lemma Extends.referenceName? (h : p.Extends q) {text : String}
    (ht : p.referenceName? i = some text) : q.referenceName? i = some text := by
  obtain ⟨m, hm, ht⟩ := Option.bind_eq_some_iff.1 ht
  exact Option.bind_eq_some_iff.2 ⟨m, h.member? hm, h.utf8? ht⟩

lemma Extends.referenceDescriptor? (h : p.Extends q) {text : String}
    (ht : p.referenceDescriptor? i = some text) : q.referenceDescriptor? i = some text := by
  obtain ⟨m, hm, ht⟩ := Option.bind_eq_some_iff.1 ht
  exact Option.bind_eq_some_iff.2 ⟨m, h.member? hm, h.utf8? ht⟩

end Lookups

end Pool

namespace Growth

variable {α β : Type}

def Yields (g : Growth α) (p : Pool) (a : α) (q : Pool) : Prop :=
  (g.run p : Option α × Pool) = (some a, q)

lemma yields_pure {a b : α} {p q : Pool} : Yields (pure a) p b q ↔ b = a ∧ q = p := by
  constructor
  · intro h
    cases h
    exact ⟨rfl, rfl⟩
  · rintro ⟨rfl, rfl⟩
    rfl

lemma run_bind (g : Growth α) (k : α → Growth β) (p : Pool) :
    ((g >>= k).run p : Option β × Pool) =
      match (g.run p : Option α × Pool) with
      | (some a, q) => (k a).run q
      | (none, q) => (none, q) := by
  rw [OptionT.run_bind]
  simp only [bind, StateT.bind, Option.elimM]
  cases h : (g.run p : Option α × Pool) with
  | mk o q => cases o <;> rfl

lemma yields_bind {g : Growth α} {k : α → Growth β} {p r : Pool} {b : β} :
    Yields (g >>= k) p b r ↔ ∃ a q, Yields g p a q ∧ Yields (k a) q b r := by
  unfold Yields
  rw [run_bind]
  cases h : (g.run p : Option α × Pool) with
  | mk o q =>
    cases o with
    | none =>
      constructor
      · intro h
        cases h
      · rintro ⟨a, q', h, -⟩
        cases h
    | some a =>
      constructor
      · intro hb
        exact ⟨a, q, rfl, hb⟩
      · rintro ⟨a', q', h, hb⟩
        cases h
        exact hb

end Growth

end ClassWeaver
