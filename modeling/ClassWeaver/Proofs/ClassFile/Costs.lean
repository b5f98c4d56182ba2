import ClassWeaver.Proofs.ClassFile.Contents

namespace ClassWeaver

namespace Read

variable {ε α β : Type}

def Spends (item : ReadOr ε α) (cost : α → Nat) : Prop :=
  ∀ r a r', item r = .ok (a, r') → cost a + r'.rest.length ≤ r.rest.length

lemma Reads.spends {item : ReadOr ε α} {fits : α → Prop} {enc : α → Bytes}
    (h : Reads item fits enc) : Spends item fun a => (enc a).length := by
  intro r a r' ha
  obtain ⟨-, hr, -⟩ := (h _ _ _).1 ha
  rw [hr]
  exact Nat.le_of_eq List.length_append.symm

lemma spends_u8 [Truncation ε] (context : String) :
    Spends (u8 context : ReadOr ε UInt8) fun _ => 1 := (reads_u8 context).spends

lemma spends_u16 [Truncation ε] (context : String) :
    Spends (u16 context : ReadOr ε UInt16) fun _ => 2 := (reads_u16 context).spends

lemma spends_pure {a : α} {cost : α → Nat} (h : cost a = 0) :
    Spends (pure a : ReadOr ε α) cost := by
  intro r b r' hb
  obtain ⟨rfl, rfl⟩ := pure_eq_ok_iff.1 hb
  omega

lemma spends_fail (fault : ε) (cost : α → Nat) : Spends (fail fault) cost := by
  intro r a r' h
  cases h

lemma Spends.bind {item : ReadOr ε α} {next : α → ReadOr ε β} {first : α → Nat} {cost : β → Nat}
    (h : Spends item first) (hn : ∀ a, Spends (next a) fun b => cost b - first a) :
    Spends (item >>= next) cost := by
  intro r b r' hb
  obtain ⟨a, s, ha, hb⟩ := Read.bind_eq_ok_iff.1 hb
  have h1 := h _ _ _ ha
  have h2 := hn a _ _ _ hb
  dsimp only at h2
  omega

lemma Spends.map {item : ReadOr ε α} {first : α → Nat} {cost : β → Nat} (h : Spends item first)
    {f : α → β} (hf : ∀ a, cost (f a) ≤ first a) : Spends (f <$> item) cost := by
  rw [map_eq_pure_bind]
  apply h.bind
  intro a
  have hle := hf a
  apply spends_pure
  omega

lemma Spends.mapFault {ε' : Type} {item : ReadOr ε α} {cost : α → Nat} (h : Spends item cost)
    (f : ε → ε') : Spends (mapFault f item) cost :=
  fun r a r' ha => h r a r' (mapError_eq_ok_iff.1 ha)

lemma Spends.timesFrom {item : ReadOr ε α} {cost : α → Nat} (h : Spends item cost) {n : Nat}
    {done as : List α} {r r' : Reader} (hr : timesFrom item n done r = .ok (as, r')) :
    total cost as + r'.rest.length ≤ total cost done + r.rest.length := by
  induction n generalizing done r with
  | zero =>
    cases hr
    have hdone := total_reverse cost done
    omega
  | succ n ih =>
    rw [timesFrom_succ] at hr
    obtain ⟨a, s, ha, hr⟩ := Read.bind_eq_ok_iff.1 hr
    have h1 := h _ _ _ ha
    have h2 := ih hr
    rw [total_cons] at h2
    omega

lemma Spends.times {item : ReadOr ε α} {cost : α → Nat} (h : Spends item cost) (n : Nat) :
    Spends (times n item) (total cost) := by
  intro r as r' hr
  have hle := h.timesFrom hr
  rw [total_nil] at hle
  omega

lemma Carries.spends_spelled {item item' : ReadOr ε α} (h : Carries item item') :
    Spends (spelled item) List.length := by
  intro r bs r' hr
  obtain ⟨⟨a, s⟩, ha, he⟩ := map_eq_ok_iff.1 hr
  cases he
  obtain ⟨front, hf, ho, -⟩ := h _ _ _ ha
  rw [ho, hf, Nat.add_sub_cancel_left, List.take_left]
  exact Nat.le_of_eq List.length_append.symm

lemma Spends.runAt {item : ReadOr ε α} {cost : α → Nat} (h : Spends item cost) {pos : Nat}
    {bs : Bytes} {a : α} (ha : runAt pos bs item = .ok a) : cost a ≤ bs.length := by
  obtain ⟨r', hr⟩ := runAt_eq_ok_iff.1 ha
  have hle := h _ _ _ hr
  dsimp only at hle
  omega

end Read

end ClassWeaver
