import Mathlib.Order.Bounds.Defs
import ClassWeaver.Proofs.Code.CheckStep

/-! A body is accepted exactly if its stacks are consistent. What becomes known on the way is what
some path brings, so it agrees with every consistent assignment; and when nothing is left to follow,
what is known is one. -/

namespace ClassWeaver

open Instruction

/-- The stacks that some path brings to a place. -/
inductive Reaches (pool : Pool) (body : Body) (is : List Instruction) : Nat → Stack → Prop
  | entry {e : Nat × Stack} (h : e ∈ body.entries) : Reaches pool body is e.1 e.2
  | edge {i : Instruction} {before after : Stack} {e : Int × Stack} (hi : i ∈ is)
    (hr : Reaches pool body is i.offset before) (ha : i.apply pool before = .ok after)
    (he : e ∈ i.edges before after) : Reaches pool body is e.1.toNat e.2

lemma Instruction.eq_of_mem_edges {i : Instruction} {before after : Stack} {e : Int × Stack}
    (he : e ∈ i.edges before after) : e.2 = after ∨ e.2 = before := by
  rcases List.mem_append.1 he with ht | hf
  · obtain ⟨target, -, rfl⟩ := List.mem_map.1 ht
    exact .inl rfl
  · split at hf
    · cases hf
    · cases List.mem_singleton.1 hf
      rw [fallStack]
      split
      · exact .inr rfl
      · exact .inl rfl

lemma Reaches.stack_induction {pool : Pool} {body : Body} {is : List Instruction}
    {motive : Stack → Prop} (start : motive [])
    (thrown : body.code.handlers ≠ [] → motive [.reference])
    (step : ∀ i ∈ is, ∀ before after, Reaches pool body is i.offset before →
      i.apply pool before = .ok after → motive before → motive after)
    {pos : Nat} {s : Stack} (h : Reaches pool body is pos s) : motive s := by
  induction h with
  | entry he =>
    rcases List.mem_cons.1 he with rfl | he
    · exact start
    · obtain ⟨handler, hmem, rfl⟩ := List.mem_map.1 he
      exact thrown (List.ne_nil_of_mem hmem)
  | edge hi hr ha he ih =>
    rcases eq_of_mem_edges he with hs | hs
    · rw [hs]
      exact step _ hi _ _ hr ha ih
    · rwa [hs]

lemma Consistent.of_reaches {pool : Pool} {body : Body} {is : List Instruction}
    {T : Nat → Option Stack} (h : Consistent pool body is T) {pos : Nat} {s : Stack}
    (hr : Reaches pool body is pos s) : T pos = some s := by
  induction hr with
  | entry he => exact h.entries _ he
  | edge hi _ ha he ih =>
    obtain ⟨after, ha', -, hedges⟩ := h.step _ hi _ ih
    rw [ha] at ha'
    cases ha'
    exact (hedges _ he).2

namespace Flow

variable {c : Chart} {f g : Flow} {pos : Nat} {s : Stack} {es : List (Nat × Stack)}
  {is : List Instruction}

lemma state?_put (h : pos < f.states.size) (s : Stack) (p : Nat) :
    (f.put pos s).state? p = if p = pos then some s else f.state? p :=
  join_note h s p

lemma size_put (f : Flow) (pos : Nat) (s : Stack) : (f.put pos s).states.size = f.states.size :=
  Array.size_setIfInBounds

lemma Meets.size_eq (h : Meets c es f g) : g.states.size = f.states.size := by
  induction h with
  | nil => rfl
  | known _ _ _ ih => exact ih
  | fresh _ _ _ ih => rw [ih, size_put]

lemma Meets.mono (h : Meets c es f g) (hs : f.states.size = c.instructions.size) {p : Nat}
    {t : Stack} (hp : f.state? p = some t) : g.state? p = some t := by
  induction h with
  | nil => exact hp
  | known _ _ _ ih => exact ih hs hp
  | @fresh pos s _ f _ ha hk _ ih =>
    obtain ⟨⟨i, hi⟩, -⟩ := ha
    have hlt := Chart.lt_size hi
    rw [← hs] at hlt
    refine ih (by rw [size_put, hs]) ?_
    rw [state?_put hlt]
    split
    · next he =>
      subst he
      rw [hk] at hp
      cases hp
    · exact hp

lemma Meets.states (h : Meets c es f g) (hs : f.states.size = c.instructions.size) :
    ∀ e ∈ es, c.Admits e.1 e.2 ∧ g.state? e.1 = some e.2 := by
  induction h with
  | nil => nofun
  | known ha hk h ih =>
    rw [List.forall_mem_cons]
    exact ⟨⟨ha, h.mono hs hk⟩, ih hs⟩
  | @fresh pos s _ f _ ha hk h ih =>
    obtain ⟨i, hi⟩ := ha.1
    have hlt := Chart.lt_size hi
    rw [← hs] at hlt
    have hs' : (f.put pos s).states.size = c.instructions.size := by rw [size_put, hs]
    rw [List.forall_mem_cons]
    exact ⟨⟨ha, h.mono hs' (by rw [state?_put hlt, if_pos rfl])⟩, ih hs'⟩

lemma Meets.work (h : Meets c es f g) (hs : f.states.size = c.instructions.size) :
    (∀ p ∈ f.work, p ∈ g.work) ∧
      (∀ p t, g.state? p = some t → f.state? p = some t ∨ (p, t) ∈ es ∧ p ∈ g.work) ∧
      ∀ p ∈ g.work, p ∈ f.work ∨ ∃ t, g.state? p = some t := by
  induction h with
  | nil => exact ⟨fun _ hp => hp, fun _ _ ht => .inl ht, fun _ hp => .inl hp⟩
  | known _ _ _ ih =>
    obtain ⟨h1, h2, h3⟩ := ih hs
    exact ⟨h1, fun p t ht =>
      (h2 p t ht).imp_right fun ⟨h, hw⟩ => ⟨List.mem_cons_of_mem _ h, hw⟩, h3⟩
  | @fresh pos s es f g ha hk h ih =>
    obtain ⟨i, hi⟩ := ha.1
    have hlt := Chart.lt_size hi
    rw [← hs] at hlt
    have hs' : (f.put pos s).states.size = c.instructions.size := by rw [size_put, hs]
    obtain ⟨h1, h2, h3⟩ := ih hs'
    refine ⟨fun p hp => h1 p (List.mem_cons_of_mem _ hp), fun p t ht => ?_, fun p hp => ?_⟩
    · rcases h2 p t ht with hold | ⟨hmem, hw⟩
      · rw [state?_put hlt] at hold
        split at hold
        · next he =>
          cases hold
          exact .inr ⟨he ▸ List.mem_cons_self, he ▸ h1 pos List.mem_cons_self⟩
        · exact .inl hold
      · exact .inr ⟨List.mem_cons_of_mem _ hmem, hw⟩
    · rcases h3 p hp with hw | ht
      · rcases List.mem_cons.1 hw with rfl | hw
        · exact .inr ⟨s, h.mono hs' (by rw [state?_put hlt, if_pos rfl])⟩
        · exact .inl hw
      · exact .inr ht

def unknown (is : List Instruction) (f : Flow) : Nat :=
  is.countP fun i => (f.state? i.offset).isNone

lemma countP_lt {α : Type} {p q : α → Bool} {as : List α} (himp : ∀ a ∈ as, q a → p a) {a : α}
    (ha : a ∈ as) (hp : p a = true) (hq : q a = false) : as.countP q < as.countP p := by
  obtain ⟨before, after, rfl⟩ := List.append_of_mem ha
  have hbefore : before.countP q ≤ before.countP p :=
    List.countP_mono_left fun x hx => himp x (List.mem_append_left _ hx)
  have hafter : after.countP q ≤ after.countP p :=
    List.countP_mono_left fun x hx => himp x (List.mem_append_right _ (List.mem_cons_of_mem _ hx))
  rw [List.countP_append, List.countP_append, List.countP_cons_of_pos hp,
    List.countP_cons_of_neg (by simp [hq])]
  omega

lemma Meets.unknown_le (h : Meets c es f g) (hs : f.states.size = c.instructions.size)
    (hi : ∀ pos i, instruction? c pos = some i → i ∈ is ∧ i.offset = pos) :
    unknown is g + g.work.length ≤ unknown is f + f.work.length := by
  induction h with
  | nil => exact Nat.le_refl _
  | known _ _ _ ih => exact ih hs
  | @fresh pos s es f g ha hk h ih =>
    obtain ⟨i, hpos⟩ := ha.1
    have hlt := Chart.lt_size hpos
    rw [← hs] at hlt
    obtain ⟨hmem, ho⟩ := hi pos i hpos
    have hle := ih (by rw [size_put, hs])
    have hless : unknown is (f.put pos s) < unknown is f := by
      refine countP_lt (fun j _ hj => ?_) hmem (by rw [ho, hk]; rfl)
        (by rw [ho, state?_put hlt, if_pos rfl]; rfl)
      rw [state?_put hlt] at hj
      split at hj
      · cases hj
      · exact hj
    have hwork : (f.put pos s).work.length = f.work.length + 1 := rfl
    omega

lemma exists_meets {T : Nat → Option Stack} (hs : f.states.size = c.instructions.size)
    (hf : ∀ p t, f.state? p = some t → T p = some t)
    (he : ∀ e ∈ es, c.Admits e.1 e.2 ∧ T e.1 = some e.2) :
    ∃ g, Meets c es f g ∧ ∀ p t, g.state? p = some t → T p = some t := by
  induction es generalizing f with
  | nil => exact ⟨f, .nil, hf⟩
  | cons e es ih =>
    obtain ⟨pos, s⟩ := e
    rw [List.forall_mem_cons] at he
    obtain ⟨⟨ha, hT⟩, he⟩ := he
    dsimp only at ha hT
    cases hk : f.state? pos with
    | some t =>
      have hT' := hf pos t hk
      rw [hT] at hT'
      cases hT'
      obtain ⟨g, hg, hgT⟩ := ih hs hf he
      exact ⟨g, .known ha hk hg, hgT⟩
    | none =>
      obtain ⟨i, hi⟩ := ha.1
      have hlt := Chart.lt_size hi
      rw [← hs] at hlt
      obtain ⟨g, hg, hgT⟩ := ih (f := f.put pos s) (by rw [size_put, hs]) (by
        intro p t ht
        rw [state?_put hlt] at ht
        split at ht
        · next hp =>
          cases ht
          rw [hp, hT]
        · exact hf p t ht) he
      exact ⟨g, .fresh ha hk hg, hgT⟩

end Flow

def depths (pool : Pool) (body : Body) (is : List Instruction) (T : Nat → Option Stack) : Set Nat :=
  {n | body.code.handlers ≠ [] ∧ n = 1 ∨ ∃ i ∈ is, ∃ before after, T i.offset = some before ∧
    i.apply pool before = .ok after ∧ n = after.length}

namespace Flow

variable {pool : Pool} {body : Body} {c : Chart} {f g : Flow} {is : List Instruction}

def Followed (pool : Pool) (f : Flow) (i : Instruction) (before : Stack) : Prop :=
  ∃ after, i.apply pool before = .ok after ∧ after.length ≤ maxDepth ∧ after.length ≤ f.deepest ∧
    ∀ e ∈ i.edges before after, 0 ≤ e.1 ∧ f.state? e.1.toNat = some e.2

/-- What holds between two turns: all that is known was reached, and was followed or waits. -/
structure Sound (c : Chart) (pool : Pool) (body : Body) (is : List Instruction) (f : Flow) :
    Prop where
  size_eq : f.states.size = c.instructions.size
  entries : ∀ e ∈ body.entries, f.state? e.1 = some e.2
  reached : ∀ pos s, f.state? pos = some s → Reaches pool body is pos s ∧ c.Admits pos s
  waiting : ∀ pos ∈ f.work, ∃ s, f.state? pos = some s
  followed : ∀ i ∈ is, ∀ before, f.state? i.offset = some before →
    i.offset ∈ f.work ∨ Followed pool f i before
  base : body.code.handlers ≠ [] → 1 ≤ f.deepest
  depth : f.deepest = 0 ∨ f.deepest ∈ depths pool body is f.state?

lemma depths_mono {T T' : Nat → Option Stack} (h : ∀ pos s, T pos = some s → T' pos = some s)
    {n : Nat} (hn : n ∈ depths pool body is T) : n ∈ depths pool body is T' := by
  rcases hn with hn | ⟨i, hi, before, after, hb, ha, hn⟩
  · exact .inl hn
  · exact .inr ⟨i, hi, before, after, h _ _ hb, ha, hn⟩

lemma Followed.mono {i : Instruction} {before : Stack} (h : Followed pool f i before)
    (hs : ∀ pos s, f.state? pos = some s → g.state? pos = some s) (hd : f.deepest ≤ g.deepest) :
    Followed pool g i before := by
  obtain ⟨after, ha, hmax, hle, he⟩ := h
  exact ⟨after, ha, hmax, Nat.le_trans hle hd, fun e hmem => ⟨(he e hmem).1, hs _ _ (he e hmem).2⟩⟩

lemma Sound.followed_step (h : f.Sound c pool body is) (hc : c.Shows pool body.frames.reverse is)
    {i : Instruction} {before : Stack} {work : List Nat} (hw : f.work = i.offset :: work)
    (hi : instruction? c i.offset = some i) (hb : f.state? i.offset = some before)
    (hdone : Followed pool g i before) (hd : f.deepest ≤ g.deepest)
    (hmono : ∀ p t, f.state? p = some t → g.state? p = some t) (hkeep : ∀ p ∈ work, p ∈ g.work)
    (hnew : ∀ p t, g.state? p = some t → f.state? p = some t ∨ p ∈ g.work) :
    ∀ j ∈ is, ∀ s, g.state? j.offset = some s → j.offset ∈ g.work ∨ Followed pool g j s := by
  intro j hj s hs
  rcases hnew _ _ hs with hold | hwork
  · rcases h.followed j hj s hold with hwork | hfollowed
    · rw [hw] at hwork
      rcases List.mem_cons.1 hwork with he | hwork
      · have hji : j = i := by
          have hj' := (hc.instruction_iff i.offset j).2 ⟨hj, he⟩
          rw [hi] at hj'
          exact (Option.some.inj hj').symm
        subst hji
        rw [hb] at hold
        cases hold
        exact .inr hdone
      · exact .inl (hkeep _ hwork)
    · exact .inr (hfollowed.mono hmono hd)
  · exact .inl hwork

lemma Sound.step (h : f.Sound c pool body is) (hc : c.Shows pool body.frames.reverse is)
    {pos : Nat} {work : List Nat} (hw : f.work = pos :: work) {i : Instruction} {before : Stack}
    (hi : instruction? c pos = some i) (hb : f.state? pos = some before)
    (hf : follow c i before { f with work } = .ok g) :
    g.Sound c pool body is ∧
      unknown is g + g.work.length < unknown is f + f.work.length := by
  obtain ⟨hmem, rfl⟩ := (hc.instruction_iff pos i).1 hi
  obtain ⟨after, ha, hmax, hnat, hm⟩ := follow_eq_ok_iff.1 hf
  rw [hc.pool_eq] at ha
  have hs := h.size_eq
  have hdeep : g.deepest = max f.deepest after.length := hm.deepest_eq
  have hmono : ∀ p t, f.state? p = some t → g.state? p = some t := fun p t hp => hm.mono hs hp
  obtain ⟨hkeep, hnew, hwait⟩ : (∀ p ∈ work, p ∈ g.work) ∧
      (∀ p t, g.state? p = some t → f.state? p = some t ∨
        (p, t) ∈ landings (i.edges before after) ∧ p ∈ g.work) ∧
      ∀ p ∈ g.work, p ∈ work ∨ ∃ t, g.state? p = some t := hm.work hs
  have hreach : Reaches pool body is i.offset before := (h.reached _ _ hb).1
  have hland : ∀ e ∈ i.edges before after, c.Admits e.1.toNat e.2 ∧ g.state? e.1.toNat = some e.2 :=
    fun e he => hm.states hs (e.1.toNat, e.2) (List.mem_map_of_mem he)
  have hdone : Followed pool g i before :=
    ⟨after, ha, hmax, by omega, fun e he => ⟨hnat e he, (hland e he).2⟩⟩
  refine ⟨⟨by rw [hm.size_eq, hs], fun e he => hmono _ _ (h.entries e he), ?_, ?_,
    h.followed_step hc hw hi hb hdone (by omega) hmono hkeep fun p t ht =>
      (hnew p t ht).imp_right And.right, ?_, ?_⟩, ?_⟩
  · intro p t ht
    rcases hnew p t ht with hold | ⟨hin, -⟩
    · exact h.reached p t hold
    · obtain ⟨e, he, hpe⟩ := List.mem_map.1 hin
      cases hpe
      exact ⟨.edge hmem hreach ha he, (hland e he).1⟩
  · intro p hp
    rcases hwait p hp with hold | hknown
    · obtain ⟨t, ht⟩ := h.waiting p (by rw [hw]; exact List.mem_cons_of_mem _ hold)
      exact ⟨t, hmono p t ht⟩
    · exact hknown
  · intro hne
    have := h.base hne
    omega
  · rcases Nat.le_total after.length f.deepest with hle | hle
    · rw [hdeep, Nat.max_eq_left hle]
      exact h.depth.imp_right (depths_mono hmono)
    · rw [hdeep, Nat.max_eq_right hle]
      exact .inr (.inr ⟨i, hmem, before, after, hmono _ _ hb, ha, rfl⟩)
  · have hle := hm.unknown_le hs fun p j hj => (hc.instruction_iff p j).1 hj
    rw [hw, List.length_cons]
    exact Nat.lt_succ_of_le hle

lemma Sound.run (h : f.Sound c pool body is) (hc : c.Shows pool body.frames.reverse is)
    {turns : Nat} (ht : unknown is f + f.work.length ≤ turns) (hr : run c turns f = .ok g) :
    g.Sound c pool body is ∧ g.work = [] := by
  -- each turn takes one from `unknown + work`, so that there are turns enough
  induction turns generalizing f with
  | zero =>
    cases hr
    exact ⟨h, List.eq_nil_of_length_eq_zero (by omega)⟩
  | succ turns ih =>
    rw [Flow.run] at hr
    split at hr
    · next hw =>
      cases hr
      exact ⟨h, hw⟩
    · next pos work hw =>
      obtain ⟨before, hb⟩ := h.waiting pos (by rw [hw]; exact List.mem_cons_self)
      obtain ⟨i, hi⟩ := (h.reached pos before hb).2.1
      rw [hi, hb] at hr
      dsimp only at hr
      split at hr
      · cases hr
      · next g' hf =>
        obtain ⟨hg, hlt⟩ := h.step hc hw hi hb hf
        exact ih hg (by omega) hr

def Within (f : Flow) (T : Nat → Option Stack) : Prop :=
  ∀ pos s, f.state? pos = some s → T pos = some s

lemma admits_of_consistent {T : Nat → Option Stack} (hT : Consistent pool body is T)
    (hc : c.Shows pool body.frames.reverse is) {pos : Nat} {s : Stack} (h : T pos = some s) :
    c.Admits pos s := by
  obtain ⟨i, hi, ho⟩ := hT.domain pos s h
  refine ⟨⟨i, (hc.instruction_iff pos i).2 ⟨hi, ho⟩⟩, fun d hd => ?_⟩
  obtain ⟨frame, hf, rfl, rfl⟩ := (hc.declared_iff pos d).1 hd
  exact hT.frames frame (List.mem_reverse.1 hf) s h

lemma exists_run {T : Nat → Option Stack} (hT : Consistent pool body is T)
    (hc : c.Shows pool body.frames.reverse is) (hs : f.states.size = c.instructions.size)
    (hf : f.Within T) (turns : Nat) : ∃ g, run c turns f = .ok g := by
  induction turns generalizing f with
  | zero => exact ⟨f, rfl⟩
  | succ turns ih =>
    rw [Flow.run]
    split
    · exact ⟨f, rfl⟩
    · next pos work hw =>
      split
      · next i before hi hb =>
        obtain ⟨hmem, rfl⟩ := (hc.instruction_iff pos i).1 hi
        obtain ⟨after, ha, hmax, he⟩ := hT.step i hmem before (hf _ _ hb)
        have hland : ∀ e ∈ landings (i.edges before after),
            c.Admits e.1 e.2 ∧ T e.1 = some e.2 := by
          intro e hmem'
          obtain ⟨x, hx, rfl⟩ := List.mem_map.1 hmem'
          exact ⟨admits_of_consistent hT hc (he x hx).2, (he x hx).2⟩
        obtain ⟨g, hm, hg⟩ := exists_meets
          (f := { f with work, deepest := max f.deepest after.length }) hs hf hland
        have hfollow : follow c i before { f with work } = .ok g :=
          follow_eq_ok_iff.2 ⟨after, by rw [hc.pool_eq, ha], hmax, fun e hx => (he e hx).1, hm⟩
        rw [hfollow]
        exact ih (by rw [hm.size_eq]; exact hs) hg
      · exact ih hs hf

end Flow

namespace Body

variable {pool : Pool} {body : Body} {is : List Instruction}

def opening (body : Body) (f : Flow) : Flow :=
  { f with deepest := if body.code.handlers = [] then f.deepest else max f.deepest 1 }

def blank (body : Body) : Flow := ⟨Array.replicate body.code.bytes.length none, [], 0⟩

lemma check_eq_ok_iff {m : Nat} : body.check pool = .ok m ↔
    1 ≤ body.code.bytes.length ∧ body.code.bytes.length ≤ Code.maxLength ∧
      ∃ is, decode body.code.bytes = .ok is ∧
        ∃ c, (Chart.ofInstructions pool is).declare body.frames = .ok c ∧
          ∃ f, Flow.Meets c body.entries body.blank f ∧
            ∃ g, Flow.run c is.length (body.opening f) = .ok g ∧ g.deepest = m := by
  unfold Body.check
  dsimp only
  by_cases hmax : Code.maxLength < body.code.bytes.length
  · rw [if_pos hmax]
    constructor
    · intro h
      cases h
    · rintro ⟨-, hle, -⟩
      omega
  · rw [if_neg hmax]
    by_cases hempty : body.code.bytes.isEmpty = true
    · rw [if_pos hempty]
      constructor
      · intro h
        cases h
      · rintro ⟨hpos, -⟩
        rw [List.isEmpty_iff.1 hempty] at hpos
        cases hpos
    · have hpos : 1 ≤ body.code.bytes.length :=
        List.length_pos_iff.2 fun hnil => hempty (List.isEmpty_iff.2 hnil)
      rw [if_neg hempty, and_iff_right hpos, and_iff_right (Nat.le_of_not_lt hmax)]
      simp only [bind_eq_ok_iff, entries, Flow.meets_cons_iff 0, Flow.enterHandlers_eq_ok_iff]
      refine exists_congr fun is => and_congr_right fun _ => exists_congr fun c =>
        and_congr_right fun _ => ?_
      constructor
      · rintro ⟨f0, h0, _, ⟨f, hf, rfl⟩, g, hg, he⟩
        cases he
        exact ⟨f, ⟨f0, h0, hf⟩, g, hg, rfl⟩
      · rintro ⟨f, ⟨f0, h0, hf⟩, g, hg, rfl⟩
        exact ⟨f0, h0, _, ⟨f, hf, rfl⟩, g, hg, rfl⟩

lemma state?_blank (body : Body) (pos : Nat) : body.blank.state? pos = none := by
  rw [Flow.state?, blank, Array.getElem?_replicate]
  split <;> rfl

lemma size_blank (hd : decode body.code.bytes = .ok is) {c : Chart}
    (hs : c.instructions.size = total size is) :
    body.blank.states.size = c.instructions.size := by
  rw [blank, Array.size_replicate, hs, (decode_eq_ok_iff.1 hd).2, length_encodeAll]

lemma sound_opening {c : Chart} {f : Flow} (hc : c.Shows pool body.frames.reverse is)
    (hs : body.blank.states.size = c.instructions.size)
    (hf : Flow.Meets c body.entries body.blank f) :
    (body.opening f).Sound c pool body is ∧
      Flow.unknown is (body.opening f) + (body.opening f).work.length ≤ is.length := by
  obtain ⟨-, hw2, hw3⟩ := hf.work hs
  have hd : f.deepest = 0 := hf.deepest_eq
  have hknown : ∀ p t, f.state? p = some t → (p, t) ∈ body.entries ∧ p ∈ f.work := by
    intro p t ht
    rcases hw2 p t ht with hold | hnew
    · rw [state?_blank] at hold
      cases hold
    · exact hnew
  refine ⟨⟨by rw [← hs, ← hf.size_eq]; rfl, fun e he => (hf.states hs e he).2, ?_, ?_, ?_, ?_, ?_⟩,
    ?_⟩
  · intro p t ht
    have he := (hknown p t ht).1
    exact ⟨.entry he, (hf.states hs _ he).1⟩
  · intro p hp
    rcases hw3 p hp with hold | hnew
    · cases hold
    · exact hnew
  · intro i _ before hb
    exact .inl (hknown _ _ hb).2
  · intro hne
    simp only [opening, if_neg hne]
    omega
  · simp only [opening]
    split
    · exact .inl hd
    · next hne => exact .inr (.inl ⟨hne, by rw [hd]; rfl⟩)
  · have hle := hf.unknown_le hs fun p j hj => (hc.instruction_iff p j).1 hj
    have hall : Flow.unknown is body.blank ≤ is.length := List.countP_le_length
    have hwork : body.blank.work.length = 0 := rfl
    have heq : Flow.unknown is (body.opening f) = Flow.unknown is f := rfl
    have heq' : (body.opening f).work = f.work := rfl
    rw [heq, heq']
    omega

lemma consistent_of_sound {c : Chart} {g : Flow} (hc : c.Shows pool body.frames.reverse is)
    (hg : g.Sound c pool body is) (hw : g.work = []) : Consistent pool body is g.state? where
  domain pos s h := by
    obtain ⟨i, hi⟩ := (hg.reached pos s h).2.1
    exact ⟨i, (hc.instruction_iff pos i).1 hi⟩
  entries := hg.entries
  step i hi before hb := by
    rcases hg.followed i hi before hb with hwork | ⟨after, ha, hmax, -, he⟩
    · rw [hw] at hwork
      cases hwork
    · exact ⟨after, ha, hmax, he⟩
  frames frame hf s h :=
    (hg.reached _ s h).2.2 _ ((hc.declared_iff _ _).2 ⟨frame, List.mem_reverse.2 hf, rfl, rfl⟩)

lemma isGreatest_depth {c : Chart} {g : Flow} (hg : g.Sound c pool body is) (hw : g.work = [])
    {i : Instruction} (hi : i ∈ is) (h0 : i.offset = 0) :
    IsGreatest (depths pool body is g.state?) g.deepest := by
  have hbound : ∀ j ∈ is, ∀ before after, g.state? j.offset = some before →
      j.apply pool before = .ok after → after.length ≤ g.deepest := by
    intro j hj before after hb ha
    rcases hg.followed j hj before hb with hwork | ⟨after', ha', -, hle, -⟩
    · rw [hw] at hwork
      cases hwork
    · rw [ha] at ha'
      cases ha'
      exact hle
  constructor
  · rcases hg.depth with hz | hmem
    · have hfirst : g.state? i.offset = some [] := by
        rw [h0]
        exact hg.entries (0, []) List.mem_cons_self
      rcases hg.followed i hi [] hfirst with hwork | ⟨after, ha, -, hle, -⟩
      · rw [hw] at hwork
        cases hwork
      · exact .inr ⟨i, hi, [], after, hfirst, ha, by omega⟩
    · exact hmem
  · rintro n (⟨hne, rfl⟩ | ⟨j, hj, before, after, hb, ha, rfl⟩)
    · exact hg.base hne
    · exact hbound j hj before after hb ha

/-- What an accepted body looks like. All that is known in the end was reached on some path. -/
lemma check_spec {m : Nat} (distinct : (body.frames.map (·.offset)).Nodup)
    (h : body.check pool = .ok m) :
    ∃ is, decode body.code.bytes = .ok is ∧
      (∀ f ∈ body.frames, ∃ i ∈ is, i.offset = f.offset) ∧
      ∃ T, Consistent pool body is T ∧
        (∀ pos s, T pos = some s → Reaches pool body is pos s) ∧
        IsGreatest (depths pool body is T) m := by
  have hn : (List.map Frame.offset (body.frames ++ [])).Nodup := by rwa [List.append_nil]
  obtain ⟨hpos, -, is, hd, c, hc, f, hf, g, hr, rfl⟩ := check_eq_ok_iff.1 h
  obtain ⟨ht, hbytes⟩ := decode_eq_ok_iff.1 hd
  have hempty := Chart.shows_ofInstructions pool ht
  have hshows := hempty.of_declare hn hc
  rw [List.append_nil] at hshows
  obtain ⟨hs, hroom⟩ := sound_opening hshows (size_blank hd hshows.size_eq) hf
  obtain ⟨hg, hw⟩ := hs.run hshows hroom hr
  refine ⟨is, hd, (hempty.declare_iff hn).1 ⟨c, hc⟩, g.state?,
    consistent_of_sound hshows hg hw, fun pos s hps => (hg.reached pos s hps).1, ?_⟩
  cases is with
  | nil =>
    rw [hbytes] at hpos
    cases hpos
  | cons i is => exact isGreatest_depth hg hw List.mem_cons_self ht.1

lemma exists_check (distinct : (body.frames.map (·.offset)).Nodup)
    (hpos : 1 ≤ body.code.bytes.length) (hmax : body.code.bytes.length ≤ Code.maxLength)
    (hd : decode body.code.bytes = .ok is)
    (hframes : ∀ f ∈ body.frames, ∃ i ∈ is, i.offset = f.offset) {T : Nat → Option Stack}
    (hT : Consistent pool body is T) : ∃ m, body.check pool = .ok m := by
  have hn : (List.map Frame.offset (body.frames ++ [])).Nodup := by rwa [List.append_nil]
  have hempty := Chart.shows_ofInstructions pool (decode_eq_ok_iff.1 hd).1
  obtain ⟨c, hc⟩ := (hempty.declare_iff hn).2 hframes
  have hshows := hempty.of_declare hn hc
  rw [List.append_nil] at hshows
  have hsize := size_blank hd hshows.size_eq
  have hblank : ∀ p t, body.blank.state? p = some t → T p = some t := by
    intro p t ht
    rw [state?_blank] at ht
    cases ht
  obtain ⟨f, hf, hfT⟩ := Flow.exists_meets hsize hblank fun e he =>
    ⟨Flow.admits_of_consistent hT hshows (hT.entries e he), hT.entries e he⟩
  have hsize' : (body.opening f).states.size = c.instructions.size := by
    rw [← hsize, ← hf.size_eq]
    rfl
  obtain ⟨g, hg⟩ := Flow.exists_run hT hshows hsize' hfT is.length
  exact ⟨g.deepest, check_eq_ok_iff.2 ⟨hpos, hmax, is, hd, c, hc, f, hf, g, hg, rfl⟩⟩

/-- The check accepts exactly the bodies whose stacks can be made consistent, and answers with the
greatest depth over the least consistent assignment. -/
theorem check_iff_consistent (pool : Pool) (body : Body)
    (distinct : (body.frames.map (·.offset)).Nodup) :
    ((∃ m, body.check pool = .ok m) ↔
      1 ≤ body.code.bytes.length ∧ body.code.bytes.length ≤ 65535 ∧
        ∃ is, decode body.code.bytes = .ok is ∧
          (∀ f ∈ body.frames, ∃ i ∈ is, i.offset = f.offset) ∧
          ∃ T, Consistent pool body is T) ∧
      ∀ m, body.check pool = .ok m →
        ∃ is, decode body.code.bytes = .ok is ∧
          ∃ T, Consistent pool body is T ∧
            (∀ T', Consistent pool body is T' → ∀ pos s, T pos = some s → T' pos = some s) ∧
            IsGreatest (depths pool body is T) m := by
  refine ⟨⟨fun ⟨m, h⟩ => ?_, ?_⟩, fun m h => ?_⟩
  · obtain ⟨hpos, hmax, -⟩ := check_eq_ok_iff.1 h
    obtain ⟨is, hd, hframes, T, hT, -⟩ := check_spec distinct h
    exact ⟨hpos, hmax, is, hd, hframes, T, hT⟩
  · rintro ⟨hpos, hmax, is, hd, hframes, T, hT⟩
    exact exists_check distinct hpos hmax hd hframes hT
  · obtain ⟨is, hd, -, T, hT, hreached, hgreatest⟩ := check_spec distinct h
    exact ⟨is, hd, T, hT, fun T' hT' pos s hps => hT'.of_reaches (hreached pos s hps), hgreatest⟩

theorem check_iff_consistent_branch :
    ∃ is, decode [0x03, 0x99, 0x00, 0x04, 0xb1, 0xb1] = .ok is ∧
      ∃ T, Consistent ⟨#[], 0, []⟩
          ⟨⟨1, 0, [0x03, 0x99, 0x00, 0x04, 0xb1, 0xb1], [], []⟩, [⟨5, .same⟩]⟩ is T ∧
        (∀ T', Consistent ⟨#[], 0, []⟩
          ⟨⟨1, 0, [0x03, 0x99, 0x00, 0x04, 0xb1, 0xb1], [], []⟩, [⟨5, .same⟩]⟩ is T' →
            ∀ pos s, T pos = some s → T' pos = some s) ∧
        IsGreatest (depths ⟨#[], 0, []⟩
          ⟨⟨1, 0, [0x03, 0x99, 0x00, 0x04, 0xb1, 0xb1], [], []⟩, [⟨5, .same⟩]⟩ is T) 1 :=
  (check_iff_consistent ⟨#[], 0, []⟩
    ⟨⟨1, 0, [0x03, 0x99, 0x00, 0x04, 0xb1, 0xb1], [], []⟩, [⟨5, .same⟩]⟩ (by decide)).2 1 (by decide +kernel)

end Body

end ClassWeaver
