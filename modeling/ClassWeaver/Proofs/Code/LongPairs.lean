import ClassWeaver.Proofs.ClassFile.RoundTrip
import ClassWeaver.Proofs.Code.Paths
import ClassWeaver.Proofs.Code.EffectEquivariance

/-! Which instructions keep the two slots of a long or a double together. Those that take values of a
known kind always do. The ones that move slots by their places do so if none of the places where they
cut the stack lies inside a value, and this has to be asked of each of them. -/

namespace ClassWeaver

def StackType.isHalf : StackType → Bool
  | long | double => true
  | _ => false

inductive Paired : Stack → Prop
  | nil : Paired []
  | single {t : StackType} {s : Stack} (ht : t.isHalf = false) (hs : Paired s) : Paired (t :: s)
  | pair {t : StackType} {s : Stack} (ht : t.isHalf = true) (hs : Paired s) :
    Paired (t :: t :: s)

namespace Paired

variable {s t : Stack}

lemma append (hs : Paired s) (ht : Paired t) : Paired (s ++ t) := by
  induction hs with
  | nil => exact ht
  | single h _ ih => exact .single h ih
  | pair h _ ih => exact .pair h ih

lemma of_single {x : StackType} (hx : x.isHalf = false) (h : Paired (x :: s)) : Paired s := by
  cases h with
  | single _ h => exact h
  | pair hx' _ => rw [hx] at hx'; cases hx'

lemma of_pair {x y : StackType} (hx : x.isHalf = true) (h : Paired (x :: y :: s)) : Paired s := by
  cases h with
  | single hx' _ => rw [hx] at hx'; cases hx'
  | pair _ h => exact h

lemma of_append (hs : Paired s) (h : Paired (s ++ t)) : Paired t := by
  induction hs with
  | nil => exact h
  | single hx _ ih => exact ih (h.of_single hx)
  | pair hx _ ih => exact ih (h.of_pair hx)

lemma slots (kind : ValueKind) : Paired kind.slots := by
  cases kind with
  | long | double => exact .pair rfl .nil
  | int | float | reference => exact .single rfl .nil

lemma markConstructed (created : Nat) (hs : Paired s) :
    Paired (Effect.markConstructed created s) := by
  induction hs with
  | nil => exact .nil
  | @single t s ht _ ih =>
    refine .single ?_ ih
    dsimp only
    split
    · rfl
    · exact ht
  | @pair t s ht _ ih =>
    have hne : t ≠ .uninitialized created := by
      rintro rfl
      cases ht
    have hcons : Effect.markConstructed created (t :: t :: s) =
        t :: t :: Effect.markConstructed created s := by
      simp only [Effect.markConstructed, List.map_cons, if_neg hne]
    rw [hcons]
    exact .pair ht ih

end Paired

/-- A place between two values, counted from the top. -/
def Seam (s : Stack) (k : Nat) : Prop := k ≤ s.length ∧ Paired (s.take k)

inductive WholeRuns (s : Stack) : List Nat → Prop
  | nil : WholeRuns s []
  | run {k n : Nat} {order : List Nat} (hk : Seam s k) (hn : Seam s (k + n))
    (h : WholeRuns s order) : WholeRuns s (List.range' k n ++ order)

section Seams

variable {s : Stack} {k n : Nat} {order : List Nat}

lemma seam_zero (s : Stack) : Seam s 0 := ⟨Nat.zero_le _, .nil⟩

lemma Seam.drop (h : Seam s k) (hs : Paired s) : Paired (s.drop k) :=
  h.2.of_append (by rwa [List.take_append_drop])

lemma Seam.between (hk : Seam s k) (hn : Seam s (k + n)) : Paired ((s.drop k).take n) :=
  hk.2.of_append (by rw [← List.take_add]; exact hn.2)

lemma filterMap_range' (s : Stack) (k n : Nat) :
    (List.range' k n).filterMap (s[·]?) = (s.drop k).take n := by
  induction n generalizing k with
  | zero => rfl
  | succ n ih =>
    rw [List.range'_succ, List.filterMap_cons, ih]
    cases hk : s[k]? with
    | none =>
      have hlen := List.getElem?_eq_none_iff.1 hk
      rw [List.drop_eq_nil_of_le hlen, List.drop_eq_nil_of_le (Nat.le_succ_of_le hlen),
        List.take_nil, List.take_nil]
    | some t =>
      obtain ⟨hlt, rfl⟩ := List.getElem?_eq_some_iff.1 hk
      rw [List.drop_eq_getElem_cons hlt, List.take_succ_cons]

lemma WholeRuns.paired (h : WholeRuns s order) : Paired (order.filterMap (s[·]?)) := by
  induction h with
  | nil => exact .nil
  | run hk hn _ ih =>
    rw [List.filterMap_append, filterMap_range']
    exact (hk.between hn).append ih

lemma WholeRuns.seam_last (h : WholeRuns s order) {m : Nat} (hm : order.getLast? = some m) :
    Seam s (m + 1) := by
  induction h with
  | nil => cases hm
  | @run k n order _ hn _ ih =>
    rw [List.getLast?_append] at hm
    rcases Option.or_eq_some_iff.1 hm with hm | ⟨-, hm⟩
    · exact ih hm
    · cases n with
      | zero => cases hm
      | succ n =>
        rw [List.range'_concat, List.getLast?_concat, Option.some.injEq] at hm
        rw [← hm, Nat.one_mul]
        exact hn

end Seams

namespace Effect

variable {s t : Stack}

def width : Effect → Nat
  | exchange pops _ => total Demand.width pops
  | shuffle taken _ => taken
  | construct arguments _ => total Demand.width arguments + 1

def order : Effect → List Nat
  | shuffle _ order => order
  | _ => []

def KeepsPairs (e : Effect) (s : Stack) : Prop := Seam s e.width ∧ WholeRuns s e.order

lemma popSlot_eq_ok_iff {offset : Nat} {d : Demand} :
    popSlot offset d s = .ok t ↔ ∃ x, s = x :: t ∧ d.accepts x = true := by
  cases s with
  | nil => simp [popSlot]
  | cons x s =>
    rw [popSlot]
    split
    · next h => simp [h]
    · next h => simp [h]

lemma front_of_popSlots {offset : Nat} {d : Demand} {n : Nat}
    (h : popSlots offset d n s = .ok t) :
    ∃ front, s = front ++ t ∧ front.length = n ∧ ∀ x ∈ front, d.accepts x = true := by
  induction n generalizing s with
  | zero =>
    cases h
    exact ⟨[], rfl, rfl, nofun⟩
  | succ n ih =>
    rw [popSlots_succ, bind_eq_ok_iff] at h
    obtain ⟨u, hu, h⟩ := h
    obtain ⟨x, rfl, hx⟩ := popSlot_eq_ok_iff.1 hu
    obtain ⟨front, rfl, hlen, hfront⟩ := ih h
    exact ⟨x :: front, rfl, congrArg (· + 1) hlen, List.forall_mem_cons.2 ⟨hx, hfront⟩⟩

lemma paired_of_accepts {d : Demand} {front : Stack} (hlen : front.length = d.width)
    (h : ∀ x ∈ front, d.accepts x = true) : Paired front := by
  have single : ∀ d : Demand, (∀ x, d.accepts x = true → x.isHalf = false) →
      front.length = 1 → (∀ x ∈ front, d.accepts x = true) → Paired front := by
    intro d hd hlen h
    obtain ⟨x, rfl⟩ := List.length_eq_one_iff.1 hlen
    exact .single (hd x (h x List.mem_cons_self)) .nil
  cases d with
  | value kind =>
    have hfront : front = kind.slots :=
      List.eq_replicate_iff.2 ⟨hlen, fun x hx => eq_of_beq (h x hx)⟩
    rw [hfront]
    exact Paired.slots kind
  | storable =>
    refine single .storable (fun x hx => ?_) hlen h
    cases x <;> first | rfl | cases hx
  | constructible =>
    refine single .constructible (fun x hx => ?_) hlen h
    cases x <;> first | rfl | cases hx

lemma front_of_popAll {offset : Nat} {ds : List Demand} (h : popAll offset ds s = .ok t) :
    ∃ front, s = front ++ t ∧ front.length = total Demand.width ds ∧ Paired front := by
  induction ds generalizing s with
  | nil =>
    cases h
    exact ⟨[], rfl, rfl, .nil⟩
  | cons d ds ih =>
    rw [popAll_cons, bind_eq_ok_iff] at h
    obtain ⟨u, hu, h⟩ := h
    obtain ⟨front, rfl, hlen, hfront⟩ := front_of_popSlots hu
    obtain ⟨front', rfl, hlen', hpaired⟩ := ih h
    refine ⟨front ++ front', (List.append_assoc ..).symm, ?_,
      (paired_of_accepts hlen hfront).append hpaired⟩
    rw [List.length_append, hlen, hlen', total_cons]

lemma popReceiver_eq_ok {offset : Nat} (h : popReceiver offset s = .ok t) :
    ∃ x rest, s = x :: rest ∧ x.isHalf = false ∧
      (t = rest ∨ ∃ created, t = markConstructed created rest) := by
  cases s with
  | nil => cases h
  | cons x rest =>
    cases x with
    | reference =>
      cases h
      exact ⟨_, _, rfl, rfl, .inl rfl⟩
    | uninitialized created =>
      cases h
      exact ⟨_, _, rfl, rfl, .inr ⟨created, rfl⟩⟩
    | _ => cases h

structure Outcome (e : Effect) (s t : Stack) : Prop where
  enough : e.width ≤ s.length
  result : ∃ below, t = e.pushes ++ (e.order.filterMap (s[·]?) ++ below) ∧
    (below = s.drop e.width ∨ ∃ created, below = markConstructed created (s.drop e.width))

lemma Outcome.paired {e : Effect} (h : Outcome e s t) (hp : Paired e.pushes) (hs : Paired s)
    (hk : e.KeepsPairs s) : Paired t := by
  have hbelow := hk.1.drop hs
  obtain ⟨below, rfl, rfl | ⟨created, rfl⟩⟩ := h.result
  · exact hp.append (hk.2.paired.append hbelow)
  · exact hp.append (hk.2.paired.append (hbelow.markConstructed created))

lemma seam_append {front rest : Stack} (h : Paired front) : Seam (front ++ rest) front.length := by
  refine ⟨?_, ?_⟩
  · rw [List.length_append]
    exact Nat.le_add_right ..
  · rwa [List.take_left]

def isShuffle : Effect → Bool
  | shuffle _ _ => true
  | _ => false

lemma outcome_of_apply {offset : Nat} {e : Effect} (h : e.apply offset s = .ok t) :
    Outcome e s t ∧ (e.isShuffle = false → Seam s e.width) := by
  cases e with
  | exchange pops pushes =>
    obtain ⟨u, hu, rfl⟩ := map_eq_ok_iff.1 h
    obtain ⟨front, rfl, hlen, hpaired⟩ := front_of_popAll hu
    have hwidth : (exchange pops pushes).width = front.length := by
      rw [hlen, total_reverse]
      rfl
    have hseam : Seam (front ++ u) (exchange pops pushes).width := hwidth ▸ seam_append hpaired
    exact ⟨⟨hseam.1, u, rfl, .inl (by rw [hwidth, List.drop_left])⟩, fun _ => hseam⟩
  | shuffle taken order =>
    rw [apply] at h
    split at h
    · cases h
    · next hlt =>
      cases h
      exact ⟨⟨Nat.le_of_not_lt hlt, _, rfl, .inl rfl⟩, fun hno => Bool.noConfusion hno⟩
  | construct arguments pushes =>
    rw [apply_construct] at h
    obtain ⟨u, hu, h⟩ := bind_eq_ok_iff.1 h
    obtain ⟨v, hv, rfl⟩ := map_eq_ok_iff.1 h
    obtain ⟨front, rfl, hlen, hpaired⟩ := front_of_popAll hu
    obtain ⟨x, rest, rfl, hx, hrest⟩ := popReceiver_eq_ok hv
    have hwidth : (construct arguments pushes).width = (front ++ [x]).length := by
      rw [List.length_append, hlen, total_reverse]
      rfl
    rw [← List.singleton_append, ← List.append_assoc]
    have hseam : Seam (front ++ [x] ++ rest) (construct arguments pushes).width :=
      hwidth ▸ seam_append (hpaired.append (.single hx .nil))
    refine ⟨⟨hseam.1, v, rfl, ?_⟩, fun _ => hseam⟩
    rwa [hwidth, List.drop_left]

end Effect

/-- Where an instruction that moves slots by their places cuts the stack: below what it takes, and
below what it copies or moves down. -/
def Opcode.cuts : UInt8 → List Nat
  | 0x57 | 0x59 => [1]
  | 0x58 | 0x5c => [2]
  | 0x5a | 0x5f => [1, 2]
  | 0x5b => [1, 3]
  | 0x5d => [2, 3]
  | 0x5e => [2, 4]
  | _ => []

namespace Effect

variable {s : Stack}

lemma keepsPairs_drop (s : Stack) (taken : Nat) :
    (shuffle taken []).KeepsPairs s ↔ Seam s taken :=
  ⟨fun h => h.1, fun h => ⟨h, .nil⟩⟩

lemma keepsPairs_copy (s : Stack) {taken n : Nat} :
    (shuffle taken (List.range' 0 taken ++ List.range' 0 (n + 1))).KeepsPairs s ↔
      Seam s (n + 1) ∧ Seam s taken := by
  constructor
  · intro h
    refine ⟨h.2.seam_last ?_, h.1⟩
    simp [order, List.getLast?_append, List.range'_concat]
  · rintro ⟨hn, ht⟩
    have hcopy : WholeRuns s (List.range' 0 (n + 1) ++ []) :=
      .run (seam_zero s) ((Nat.zero_add _).symm ▸ hn) .nil
    rw [List.append_nil] at hcopy
    exact ⟨ht, .run (seam_zero s) ((Nat.zero_add _).symm ▸ ht) hcopy⟩

lemma keepsPairs_swap (s : Stack) :
    (shuffle 2 [1, 0]).KeepsPairs s ↔ Seam s 1 ∧ Seam s 2 := by
  constructor
  · intro h
    exact ⟨h.2.seam_last rfl, h.1⟩
  · rintro ⟨h1, h2⟩
    exact ⟨h2, .run (k := 1) (n := 1) h1 h2 (.run (k := 0) (n := 1) (seam_zero s) h1 .nil)⟩

lemma shuffle_keepsPairs_iff {opcode : UInt8} {e : Effect} (h : shuffle? opcode = some e) :
    e.KeepsPairs s ↔ ∀ c ∈ Opcode.cuts opcode, Seam s c := by
  have one : ∀ a, (∀ c ∈ [a], Seam s c) ↔ Seam s a := by simp
  have two : ∀ a b, (∀ c ∈ [a, b], Seam s c) ↔ Seam s a ∧ Seam s b := by simp
  unfold shuffle? at h
  split at h <;> cases h
  · exact (keepsPairs_drop s 1).trans (one 1).symm
  · exact (keepsPairs_drop s 2).trans (one 2).symm
  · exact (keepsPairs_copy s).trans (and_self_iff.trans (one 1).symm)
  · exact (keepsPairs_copy s).trans (two 1 2).symm
  · exact (keepsPairs_copy s).trans (two 1 3).symm
  · exact (keepsPairs_copy s).trans (and_self_iff.trans (one 2).symm)
  · exact (keepsPairs_copy s).trans (two 2 3).symm
  · exact (keepsPairs_copy s).trans (two 2 4).symm
  · exact (keepsPairs_swap s).trans (two 1 2).symm

lemma cuts_of_shuffle?_none {opcode : UInt8} (h : shuffle? opcode = none) :
    Opcode.cuts opcode = [] := by
  unfold Opcode.cuts
  split <;> first | rfl | cases h

lemma of?_isShuffle {pool : Pool} {opcode : UInt8} {x : Operand} {offset : Nat} {e : Effect}
    (hn : shuffle? opcode = none) (h : of? pool opcode x offset = some e) :
    e.isShuffle = false := by
  cases origin_of_of? h with
  | exchange => rfl
  | new => rfl
  | shuffle hs =>
    rw [hn] at hs
    cases hs
  | invoke hi =>
    obtain ⟨signature, -, rfl⟩ := Option.map_eq_some_iff.1 hi
    dsimp only
    repeat' split
    all_goals rfl

lemma of?_of_shuffle? {pool : Pool} {opcode : UInt8} {x : Operand} {offset : Nat} {e : Effect}
    (h : shuffle? opcode = some e) : of? pool opcode x offset = some e := by
  unfold shuffle? at h
  split at h <;> cases h <;> rfl

lemma keepsPairs_iff {pool : Pool} {opcode : UInt8} {x : Operand} {offset : Nat} {e : Effect}
    {t : Stack} (he : of? pool opcode x offset = some e) (h : e.apply offset s = .ok t) :
    e.KeepsPairs s ↔ ∀ c ∈ Opcode.cuts opcode, Seam s c := by
  cases hs : shuffle? opcode with
  | some e' =>
    rw [of?_of_shuffle? hs] at he
    cases he
    exact shuffle_keepsPairs_iff hs
  | none =>
    have hshuffle := of?_isShuffle hs he
    have horder : e.order = [] := by
      cases e <;> first | rfl | cases hshuffle
    rw [cuts_of_shuffle?_none hs, KeepsPairs, horder]
    exact iff_of_true ⟨(outcome_of_apply h).2 hshuffle, .nil⟩ nofun

lemma paired_pushes {pool : Pool} {opcode : UInt8} {x : Operand} {offset : Nat} {e : Effect}
    (h : of? pool opcode x offset = some e) : Paired e.pushes := by
  rcases of?_cases h with ⟨-, rfl⟩ | ⟨-, hvalue, -⟩
  · exact .single rfl .nil
  · rcases hvalue with he | he | ⟨kind, he⟩ <;> rw [he]
    · exact .nil
    · exact .single rfl .nil
    · exact Paired.slots kind

end Effect

namespace Instruction

variable {pool : Pool} {i : Instruction} {s t : Stack}

lemma paired_of_apply (hs : Paired s) (h : i.apply pool s = .ok t)
    (hc : ∀ c ∈ Opcode.cuts i.opcode, Seam s c) : Paired t := by
  obtain ⟨e, he, ha⟩ := apply_eq_ok_iff.1 h
  exact (Effect.outcome_of_apply ha).1.paired (Effect.paired_pushes he) hs
    ((Effect.keepsPairs_iff he ha).2 hc)

def CutsSeams (pool : Pool) (body : Body) (is : List Instruction) : Prop :=
  ∀ i ∈ is, ∀ s, Reaches pool body is i.offset s → ∀ c ∈ Opcode.cuts i.opcode, Seam s c

lemma paired_of_reaches {body : Body} {is : List Instruction} (hc : CutsSeams pool body is)
    {pos : Nat} (h : Reaches pool body is pos s) : Paired s :=
  h.stack_induction .nil (fun _ => .single rfl .nil) fun i hi before _ hr ha hs =>
    paired_of_apply hs ha (hc i hi before hr)

theorem keepsPairs_iff_cuts (pool : Pool) :
    (∀ (i : Instruction) (s t : Stack), Paired s → i.apply pool s = .ok t →
      ∃ e, Effect.ofInstruction pool i = .ok e ∧ e.Outcome s t ∧
        (e.KeepsPairs s ↔ ∀ c ∈ Opcode.cuts i.opcode, Seam s c) ∧
        (e.KeepsPairs s → Paired t)) ∧
    ∀ (body : Body) (is : List Instruction), CutsSeams pool body is →
      ∀ pos s, Reaches pool body is pos s → Paired s := by
  constructor
  · intro i s t hs h
    obtain ⟨e, he, ha⟩ := apply_eq_ok_iff.1 h
    have hkeeps := Effect.keepsPairs_iff he ha
    exact ⟨e, Effect.ofInstruction_eq_ok_iff.2 he, (Effect.outcome_of_apply ha).1, hkeeps,
      fun hk => paired_of_apply hs h (hkeeps.1 hk)⟩
  · intro body is hc pos s h
    exact paired_of_reaches hc h

end Instruction

namespace Sample

def dropping : Body := ⟨⟨2, 0, [0x09, 0x58, 0xb1], [], []⟩, []⟩

def droppingInstructions : List Instruction :=
  [⟨0, 0x09, .plain []⟩, ⟨1, 0x58, .plain []⟩, ⟨2, 0xb1, .plain []⟩]

def droppingStack : Nat → Option Stack
  | 0 => some []
  | 1 => some [.long, .long]
  | 2 => some []
  | _ => none

lemma dropping_consistent :
    Consistent pool dropping droppingInstructions droppingStack where
  domain pos s h := by
    match pos, h with
    | 0, _ => exact ⟨_, .head _, rfl⟩
    | 1, _ => exact ⟨_, .tail _ (.head _), rfl⟩
    | 2, _ => exact ⟨_, .tail _ (.tail _ (.head _)), rfl⟩
  entries := by decide
  step := by
    simp only [droppingInstructions, List.forall_mem_cons]
    refine ⟨?_, ?_, ?_, nofun⟩
    · rintro _ ⟨⟩
      exact ⟨[.long, .long], rfl, by decide, by decide⟩
    · rintro _ ⟨⟩
      exact ⟨[], rfl, by decide, by decide⟩
    · rintro _ ⟨⟩
      exact ⟨[], rfl, by decide, by decide⟩
  frames := nofun

lemma dropping_cutsSeams : Instruction.CutsSeams pool dropping droppingInstructions := by
  intro i hi s hs
  have hT := dropping_consistent.of_reaches hs
  simp only [droppingInstructions, List.mem_cons, List.not_mem_nil, or_false] at hi
  rcases hi with rfl | rfl | rfl <;> cases hT
  · exact List.forall_mem_nil _
  · exact List.forall_mem_singleton.2 ⟨Nat.le_refl 2, .pair rfl .nil⟩
  · exact List.forall_mem_nil _

end Sample

theorem Instruction.keepsPairs_iff_cuts_sample :
    (∃ e, Effect.ofInstruction Sample.pool ⟨0, 0x57, .plain []⟩ = .ok e ∧
      e.Outcome [.long, .long] [.long] ∧ ¬ e.KeepsPairs [.long, .long]) ∧
    ∀ pos s, Reaches Sample.pool Sample.dropping Sample.droppingInstructions pos s →
      Paired s := by
  have hpair : Paired [.long, .long] := .pair rfl .nil
  obtain ⟨e, he, houtcome, hkeeps, -⟩ := (keepsPairs_iff_cuts Sample.pool).1
    ⟨0, 0x57, .plain []⟩ [.long, .long] [.long] hpair (by decide)
  have hhalf : ¬ Seam [.long, .long] 1 := by
    rintro ⟨-, h⟩
    cases h with
    | single ht _ => cases ht
  refine ⟨⟨e, he, houtcome, fun h => hhalf (hkeeps.1 h 1 (by decide))⟩, ?_⟩
  exact (keepsPairs_iff_cuts Sample.pool).2 _ _ Sample.dropping_cutsSeams

end ClassWeaver
