import ClassWeaver.Proofs.Code.LongPairs

/-! An instruction looks at the top of a stack only. Whatever lies below what it takes stays as it is,
but for the copies of a value whose constructor has just run, which become references wherever they
lie. Where the instruction stands shows in the result of a `new` alone. -/

namespace ClassWeaver

def StackType.created? : StackType → Option Nat
  | uninitialized created => some created
  | _ => none

lemma StackType.created?_eq_some_iff {t : StackType} {created : Nat} :
    t.created? = some created ↔ t = .uninitialized created := by
  cases t <;> simp [created?]

lemma StackType.rename_id (t : StackType) : t.rename id = t := by
  cases t <;> rfl

namespace Effect

variable {offset offset' : Nat} {s t : Stack}

lemma popSlot_append {d : Demand} (h : popSlot offset d s = .ok t) (below : Stack) :
    popSlot offset d (s ++ below) = .ok (t ++ below) := by
  obtain ⟨x, rfl, hx⟩ := popSlot_eq_ok_iff.1 h
  exact popSlot_eq_ok_iff.2 ⟨x, rfl, hx⟩

lemma popSlots_append {d : Demand} {n : Nat} (h : popSlots offset d n s = .ok t)
    (below : Stack) : popSlots offset d n (s ++ below) = .ok (t ++ below) := by
  induction n generalizing s with
  | zero =>
    cases h
    rfl
  | succ n ih =>
    rw [popSlots_succ, bind_eq_ok_iff] at h ⊢
    obtain ⟨u, hu, h⟩ := h
    exact ⟨u ++ below, popSlot_append hu below, ih h⟩

lemma popAll_append {ds : List Demand} (h : popAll offset ds s = .ok t) (below : Stack) :
    popAll offset ds (s ++ below) = .ok (t ++ below) := by
  induction ds generalizing s with
  | nil =>
    cases h
    rfl
  | cons d ds ih =>
    rw [popAll_cons, bind_eq_ok_iff] at h ⊢
    obtain ⟨u, hu, h⟩ := h
    exact ⟨u ++ below, popSlots_append hu below, ih h⟩

def settle (created : Option Nat) (below : Stack) : Stack :=
  created.elim below (markConstructed · below)

lemma popReceiver_append (h : popReceiver offset s = .ok t) (below : Stack) :
    popReceiver offset (s ++ below) =
      .ok (t ++ settle (s.head?.bind StackType.created?) below) := by
  cases s with
  | nil => cases h
  | cons x rest =>
    cases x with
    | reference =>
      cases h
      rfl
    | uninitialized created =>
      cases h
      exact congrArg Except.ok List.map_append
    | _ => cases h

def constructed? (s : Stack) : Effect → Option Nat
  | construct arguments _ => s[total Demand.width arguments]?.bind StackType.created?
  | _ => none

lemma order_lt_width {pool : Pool} {opcode : UInt8} {x : Operand} {e : Effect}
    (he : of? pool opcode x offset = some e) : ∀ k ∈ e.order, k < e.width := by
  cases hs : shuffle? opcode with
  | none =>
    have hshuffle := of?_isShuffle hs he
    cases e with
    | shuffle taken order => cases hshuffle
    | _ => exact nofun
  | some e' =>
    rw [of?_of_shuffle? hs, Option.some.injEq] at he
    subst he
    unfold shuffle? at hs
    split at hs <;> cases hs <;> decide

lemma apply_append {e : Effect} (hk : ∀ k ∈ e.order, k < e.width)
    (h : e.apply offset s = .ok t) (below : Stack) :
    e.apply offset (s ++ below) = .ok (t ++ settle (e.constructed? s) below) := by
  cases e with
  | exchange pops pushes =>
    obtain ⟨u, hu, rfl⟩ := map_eq_ok_iff.1 h
    exact map_eq_ok_iff.2 ⟨u ++ below, popAll_append hu below, (List.append_assoc ..).symm⟩
  | shuffle taken order =>
    rw [apply] at h ⊢
    split at h
    · cases h
    · next hlt =>
      have hle : taken ≤ s.length := Nat.le_of_not_lt hlt
      have hsame : order.filterMap ((s ++ below)[·]?) = order.filterMap (s[·]?) :=
        List.filterMap_congr fun k hmem =>
          List.getElem?_append_left (Nat.lt_of_lt_of_le (hk k hmem) hle)
      cases h
      rw [if_neg (by rw [List.length_append]; omega), hsame, List.drop_append_of_le_length hle,
        List.append_assoc]
      rfl
  | construct arguments pushes =>
    rw [apply_construct] at h ⊢
    obtain ⟨u, hu, h⟩ := bind_eq_ok_iff.1 h
    obtain ⟨v, hv, rfl⟩ := map_eq_ok_iff.1 h
    obtain ⟨front, rfl, hlen, -⟩ := front_of_popAll hu
    rw [total_reverse] at hlen
    have hreceiver : (front ++ u)[total Demand.width arguments]? = u.head? := by
      rw [← hlen, List.getElem?_append_right (Nat.le_refl _), Nat.sub_self, List.head?_eq_getElem?]
    rw [constructed?, hreceiver]
    exact bind_eq_ok_iff.2 ⟨_, popAll_append hu below,
      map_eq_ok_iff.2 ⟨_, popReceiver_append hv below, (List.append_assoc ..).symm⟩⟩

lemma invoke?_of_construct {pool : Pool} {opcode : UInt8} {x : Operand}
    {arguments : List Demand} {pushes : Stack}
    (h : of? pool opcode x offset = some (construct arguments pushes)) :
    invoke? pool opcode x.word16 = some (construct arguments pushes) := by
  cases origin_of_of? h with
  | shuffle hs =>
    unfold shuffle? at hs
    split at hs <;> cases hs
  | invoke hi => exact hi

lemma apply_at {e : Effect} (h : e.apply offset s = .ok t) : e.apply offset' s = .ok t := by
  have hid : ∀ u : Stack, u.map (StackType.rename id) = u := fun u => by
    rw [funext StackType.rename_id]
    exact List.map_id u
  have heffect : e.rename id = e := by
    cases e <;> simp only [rename, hid]
  have hiff : (e.rename id).apply offset' (s.map (StackType.rename id)) = .ok t ↔
      ∃ u, e.apply offset s = .ok u ∧ t = u.map (StackType.rename id) :=
    apply_rename_iff Function.injective_id offset e
  rw [heffect, hid] at hiff
  exact hiff.2 ⟨t, h, (hid t).symm⟩

end Effect

namespace Instruction

variable {pool : Pool} {i j : Instruction} {s t : Stack}

structure Constructs (pool : Pool) (i : Instruction) (s : Stack) (created : Nat) : Prop where
  opcode : i.opcode = Opcode.invokespecial
  name : pool.referenceName? i.operand.word16 = some "<init>"
  receiver : ∃ descriptor signature,
    pool.referenceDescriptor? i.operand.word16 = some descriptor ∧
    Descriptor.method? descriptor = some signature ∧
    s[total ValueKind.width signature.arguments]? = some (.uninitialized created)

lemma constructed?_eq_some_iff {e : Effect} {created : Nat}
    (he : Effect.of? pool i.opcode i.operand i.offset = some e) :
    e.constructed? s = some created ↔ i.Constructs pool s created := by
  have hwidth : ∀ arguments : List ValueKind,
      total Demand.width (arguments.map .value) = total ValueKind.width arguments :=
    fun arguments => total_map Demand.width Demand.value arguments
  constructor
  · intro hcreated
    cases e with
    | construct arguments pushes =>
      obtain ⟨t, hslot, ht⟩ := Option.bind_eq_some_iff.1 hcreated
      obtain ⟨signature, hsignature, heffect⟩ :=
        Option.map_eq_some_iff.1 (Effect.invoke?_of_construct he)
      obtain ⟨descriptor, hdescriptor, hmethod⟩ := Option.bind_eq_some_iff.1 hsignature
      dsimp only at heffect
      split at heffect
      · next hname =>
        cases heffect
        rw [StackType.created?_eq_some_iff.1 ht, hwidth] at hslot
        exact ⟨hname.1, hname.2, descriptor, signature, hdescriptor, hmethod, hslot⟩
      · split at heffect <;> cases heffect
    | _ => cases hcreated
  · rintro ⟨hopcode, hname, descriptor, signature, hdescriptor, hmethod, hslot⟩
    have hinvoke : Effect.of? pool Opcode.invokespecial i.operand i.offset =
        Effect.invoke? pool Opcode.invokespecial i.operand.word16 := rfl
    rw [hopcode, hinvoke, Effect.invoke?, hdescriptor, Option.bind_some, hmethod,
      Option.map_some, Option.some.injEq] at he
    dsimp only at he
    rw [if_pos ⟨rfl, hname⟩] at he
    subst he
    rw [Effect.constructed?, hwidth, hslot]
    rfl

lemma apply_settles (h : i.apply pool s = .ok t) (below : Stack) :
    ∃ created, (∀ o, created = some o ↔ i.Constructs pool s o) ∧
      i.apply pool (s ++ below) = .ok (t ++ Effect.settle created below) := by
  obtain ⟨e, he, ha⟩ := apply_eq_ok_iff.1 h
  exact ⟨e.constructed? s, fun o => constructed?_eq_some_iff he,
    apply_eq_ok_iff.2 ⟨e, he, Effect.apply_append (Effect.order_lt_width he) ha below⟩⟩

lemma apply_alike (h : i.apply pool s = .ok t) (ha : i.Alike j) :
    j.apply pool s = .ok (if i.opcode = Opcode.new then .uninitialized j.offset :: s else t) := by
  obtain ⟨e, he, hap⟩ := apply_eq_ok_iff.1 h
  rw [apply_eq_ok_iff, ha.of?_eq]
  rcases Effect.of?_cases he with ⟨hnew, rfl⟩ | ⟨hnew, -, hsame⟩
  · rw [if_pos hnew, hnew]
    exact ⟨_, rfl, rfl⟩
  · rw [if_neg hnew]
    exact ⟨e, hsame j.offset, Effect.apply_at hap⟩

/-- What lies below what an instruction takes stays as it is, unless the instruction calls a
constructor on a value with copies there. What it leaves does not depend on where it stands, but for
the value that a `new` leaves. -/
theorem apply_append_below (pool : Pool) (i : Instruction) (s t : Stack) (h : i.apply pool s = .ok t) :
    (∀ below created, i.Constructs pool s created →
      i.apply pool (s ++ below) = .ok (t ++ Effect.markConstructed created below)) ∧
    (∀ below, (∀ created, ¬ i.Constructs pool s created) →
      i.apply pool (s ++ below) = .ok (t ++ below)) ∧
    ∀ j, i.Alike j →
      j.apply pool s = .ok (if i.opcode = Opcode.new then .uninitialized j.offset :: s else t) := by
  refine ⟨fun below o ho => ?_, fun below hno => ?_, fun j => apply_alike h⟩
  · obtain ⟨created, hcreated, happly⟩ := apply_settles h below
    rw [(hcreated o).2 ho] at happly
    exact happly
  · obtain ⟨created, hcreated, happly⟩ := apply_settles h below
    cases created with
    | none => exact happly
    | some o => exact absurd ((hcreated o).1 rfl) (hno o)

end Instruction

namespace Sample

def constructing : Instruction := ⟨7, Opcode.invokespecial, .plain [0, 1]⟩

def constructorPool : Pool :=
  ⟨#[.unusable, .methodRef 0 2, .nameAndType 3 4, .utf8 "<init>", .utf8 "(J)V"], 5, []⟩

end Sample

theorem Instruction.apply_append_below_sample :
    Sample.constructing.apply Sample.constructorPool [.long, .long, .uninitialized 3] = .ok [] ∧
    Sample.constructing.apply Sample.constructorPool
        ([.long, .long, .uninitialized 3] ++ [.uninitialized 3, .int, .uninitialized 0]) =
      .ok [.reference, .int, .uninitialized 0] ∧
    Instruction.apply Sample.constructorPool ⟨4, 0x5f, .plain []⟩
        ([.int, .float] ++ [.long, .long]) = .ok ([.float, .int] ++ [.long, .long]) ∧
    Instruction.apply Sample.constructorPool ⟨9, Opcode.new, .plain [0, 1]⟩ [.int] =
      .ok [.uninitialized 9, .int] := by
  have hconstructing : Sample.constructing.apply Sample.constructorPool
      [.long, .long, .uninitialized 3] = .ok [] := by decide +kernel
  have hconstructs : Sample.constructing.Constructs Sample.constructorPool
      [.long, .long, .uninitialized 3] 3 :=
    ⟨rfl, by decide +kernel, "(J)V", ⟨[.long], none⟩, by decide +kernel, by decide +kernel, rfl⟩
  have hswap : Instruction.apply Sample.constructorPool ⟨4, 0x5f, .plain []⟩ [.int, .float] =
      .ok [.float, .int] := by decide +kernel
  have hnone : ∀ created, ¬ Instruction.Constructs Sample.constructorPool ⟨4, 0x5f, .plain []⟩
      [.int, .float] created := fun created h => absurd h.opcode (by decide)
  have hnew : Instruction.apply Sample.constructorPool ⟨4, Opcode.new, .plain [0, 1]⟩ [.int] =
      .ok [.uninitialized 4, .int] := by decide +kernel
  exact ⟨hconstructing,
    (Instruction.apply_append_below _ _ _ _ hconstructing).1 _ 3 hconstructs,
    (Instruction.apply_append_below _ _ _ _ hswap).2.1 [.long, .long] hnone,
    (Instruction.apply_append_below _ _ _ _ hnew).2.2 ⟨9, Opcode.new, .plain [0, 1]⟩ ⟨rfl, rfl⟩⟩

end ClassWeaver
