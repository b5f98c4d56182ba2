import Mathlib.Data.List.Nodup
import ClassWeaver.Proofs.Code.ControlFlow
import ClassWeaver.Proofs.Code.MovedFrames
import ClassWeaver.Proofs.Code.Paths

/-! A body and what becomes of it when neutral code is inserted are reached by the same stacks, up
to the names of values that are not constructed yet. So either both are accepted or neither is, and
their depths differ by no more than what the inserted code needs. -/

namespace ClassWeaver

open Instruction Function

inductive Passes (pool : Pool) (limit : Nat) : List Instruction → Stack → Stack → Prop
  | nil {s : Stack} : Passes pool limit [] s s
  | cons {u : Instruction} {us : List Instruction} {s t r : Stack} (ha : u.apply pool s = .ok t)
    (hd : t.length ≤ limit) (h : Passes pool limit us t r) : Passes pool limit (u :: us) s r

/-- Straight code that leaves every stack as it found it. -/
structure Neutral (pool : Pool) (extra : Nat) (us : List Instruction) : Prop where
  straight : ∀ u ∈ us, u.IsStraight ∧ Opcode.isSubroutineCall u.opcode = false
  passes : ∀ pos s, Passes pool (s.length + extra) (layAt pos us) s s

lemma eq_of_split {α : Type} {l as bs as' bs' : List α} {a : α} (hn : l.Nodup)
    (h : l = as ++ a :: bs) (h' : l = as' ++ a :: bs') : as = as' := by
  rw [h', List.nodup_middle, List.nodup_cons, List.mem_append, not_or] at hn
  exact ((List.append_cons_inj_of_notMem hn.1.1 hn.1.2).1 (h'.symm.trans h)).1.symm

section Runs

variable {pool : Pool} {limit limit' extra : Nat} {us vs : List Instruction} {s t r : Stack}

lemma passes_append_iff : Passes pool limit (us ++ vs) s r ↔
    ∃ t, Passes pool limit us s t ∧ Passes pool limit vs t r := by
  induction us generalizing s with
  | nil =>
    constructor
    · intro h
      exact ⟨s, .nil, h⟩
    · rintro ⟨t, ⟨⟩, h⟩
      exact h
  | cons u us ih =>
    constructor
    · rintro (- | ⟨ha, hd, h⟩)
      obtain ⟨t, h1, h2⟩ := ih.1 h
      exact ⟨t, .cons ha hd h1, h2⟩
    · rintro ⟨t, - | ⟨ha, hd, h⟩, h2⟩
      exact .cons ha hd (ih.2 ⟨t, h, h2⟩)

lemma Passes.eq_of_passes (h : Passes pool limit us s t) (h' : Passes pool limit' us s r) :
    t = r := by
  induction h with
  | nil =>
    cases h'
    rfl
  | cons ha _ _ ih =>
    cases h' with
    | cons ha' _ h' =>
      rw [ha] at ha'
      cases ha'
      exact ih h'

lemma Neutral.nil : Neutral pool extra [] := ⟨nofun, fun _ _ => .nil⟩

lemma Instruction.layAt_zero (us : List Instruction) : layAt 0 us = us := by
  have h : (fun i : Instruction => { i with offset := 0 + i.offset }) = id := by
    funext i
    simp
  rw [layAt, h, List.map_id]

lemma Neutral.passes_self (h : Neutral pool extra us) (s : Stack) :
    Passes pool (s.length + extra) us s s := by
  have hp := h.passes 0 s
  rwa [layAt_zero] at hp

lemma Neutral.append (hu : Neutral pool extra us) (hv : Neutral pool extra vs) :
    Neutral pool extra (us ++ vs) where
  straight u h := (List.mem_append.1 h).elim (hu.straight u) (hv.straight u)
  passes pos s := by
    rw [layAt, List.map_append]
    exact passes_append_iff.2 ⟨s, hu.passes pos s, hv.passes pos s⟩

lemma Neutral.layAt (h : Neutral pool extra us) (pos : Nat) :
    Neutral pool extra (layAt pos us) where
  straight u hu := by
    obtain ⟨v, hv, rfl⟩ := List.mem_map.1 hu
    exact h.straight v hv
  passes pos' s := by
    have hshift : Instruction.layAt pos' (Instruction.layAt pos us) =
        Instruction.layAt (pos' + pos) us := by
      simp [Instruction.layAt, Nat.add_assoc]
    rw [hshift]
    exact h.passes _ s

lemma Instruction.edges_of_straight {u : Instruction} (h : u.IsStraight)
    (hn : Opcode.isSubroutineCall u.opcode = false) (s t : Stack) :
    u.edges s t = [((u.stop : Int), t)] := by
  have hends : u.endsFlow = false := by
    have hl := h.2
    rw [leaves, Bool.or_eq_false_iff] at hl
    exact hl.1
  rw [edges, targets, h.1, hends, fallStack, hn]
  rfl

end Runs

namespace Placement

def Lands (m : Placement) (is code : List Instruction) (old : Nat) : Prop :=
  (∃ i ∈ is, i.offset = old) ∨ ∀ x ∈ code, x.offset ≠ m.start old

lemma image_mem_weave {m : Placement} {prologue epilogue is : List Instruction} {i : Instruction}
    (hi : i ∈ is) : m.image i ∈ m.weave prologue epilogue is :=
  List.mem_append_right _ (image_mem_flatMap hi)

lemma wovenFirst_eq (m : Placement) (prologue epilogue : List Instruction) (i : Instruction) :
    m.wovenFirst prologue epilogue i =
      ((if i.offset = 0 then prologue else []) ++ m.ahead epilogue i) ++ [m.image i] := by
  rw [wovenFirst, woven_eq, List.append_assoc]

end Placement

/-- The new body is the old one with neutral code inserted, and all it declares has moved along. -/
structure Mirrors (pool : Pool) (old new : Body) (m : Placement) (f : Nat → Nat) (extra : Nat)
    (prologue epilogue is : List Instruction) : Prop where
  woven : m.IsWoven prologue epilogue is
  nonempty : is ≠ []
  neutral_prologue : Neutral pool extra prologue
  neutral_epilogue : Neutral pool extra epilogue
  injective : Injective f
  image_offset : ∀ i ∈ is, (m.image i).offset = f i.offset
  stops : ∀ i ∈ is, m.Lands is (m.weave prologue epilogue is) i.stop ∧
    (m.image i).stop = m.start i.stop
  handlers : List.Forall₂
    (fun h h' : Handler => m.Lands is (m.weave prologue epilogue is) h.target.toNat ∧
      h'.target.toNat = m.start h.target.toNat) old.code.handlers new.code.handlers
  frames : List.Forall₂
    (fun g g' : Frame => m.Lands is (m.weave prologue epilogue is) g.offset ∧
      g'.offset = m.start g.offset ∧
        g'.kind.declaredStack = g.kind.declaredStack.map (StackType.rename f))
    old.frames new.frames

namespace Mirrors

variable {pool : Pool} {old new : Body} {m : Placement} {f : Nat → Nat} {extra : Nat}
  {prologue epilogue is : List Instruction} {i x : Instruction} {s t : Stack} {pos : Nat}

lemma edges (h : Mirrors pool old new m f extra prologue epilogue is) (hi : i ∈ is)
    (before after : Stack) :
    List.Forall₂
      (fun e e' : Int × Stack => 0 ≤ e.1 ∧ m.Lands is (m.weave prologue epilogue is) e.1.toNat ∧
        e'.1 = m.start e.1.toNat ∧ e'.2 = e.2.map (StackType.rename f))
      (i.edges before after)
      ((m.image i).edges (before.map (StackType.rename f)) (after.map (StackType.rename f))) := by
  have hop := (h.woven.alike i hi).1
  unfold Instruction.edges fallStack endsFlow
  rw [← hop]
  apply List.rel_append
  · rw [List.forall₂_map_left_iff, List.forall₂_map_right_iff]
    apply (h.woven.targets i hi).imp
    rintro _ _ ⟨j, hj, rfl, rfl⟩
    exact ⟨Int.natCast_nonneg _, .inl ⟨j, hj, rfl⟩, rfl, rfl⟩
  · by_cases hends : Opcode.endsFlow i.opcode = true
    · rw [if_pos hends, if_pos hends]
      exact .nil
    · rw [if_neg hends, if_neg hends]
      obtain ⟨hl, hs⟩ := h.stops i hi
      apply List.Forall₂.cons _ .nil
      refine ⟨Int.natCast_nonneg _, hl, congrArg Nat.cast hs, ?_⟩
      dsimp only
      split <;> rfl

lemma reaches_pass (as : List Instruction) {code us bs : List Instruction} {limit : Nat}
    (ht : Tiles 0 code) (hcode : code = as ++ (us ++ bs))
    (hs : ∀ u ∈ us, u.IsStraight ∧ Opcode.isSubroutineCall u.opcode = false)
    (hp : Passes pool limit us s t) (hr : Reaches pool new code (total size as) s) :
    Reaches pool new code (total size as + total size us) t := by
  induction hp generalizing as with
  | nil => exact hr
  | @cons u us s t r ha hd _ ih =>
    have hu : u ∈ code := by
      rw [hcode]
      simp
    have ho : u.offset = total size as := by
      rw [hcode] at ht
      simpa using ht.offset_eq
    obtain ⟨hstraight, hcall⟩ := hs u List.mem_cons_self
    have hnext : Reaches pool new code u.stop t := by
      apply Reaches.edge (e := (u.stop, t)) hu (ho ▸ hr) ha
      rw [edges_of_straight hstraight hcall]
      exact List.mem_cons_self
    have hstop : u.stop = total size (as ++ [u]) := by
      rw [stop, ho, total_append, total_cons, total_nil, Nat.add_zero]
    rw [hstop] at hnext
    have hrest := ih (as ++ [u]) (by simp [hcode])
      (fun v hv => hs v (List.mem_cons_of_mem u hv)) hnext
    rw [total_append, total_cons, total_nil] at hrest
    rw [total_cons, ← Nat.add_assoc]
    exact hrest

lemma ahead_neutral (h : Mirrors pool old new m f extra prologue epilogue is) (i : Instruction) :
    Neutral pool extra (m.ahead epilogue i) := by
  unfold Placement.ahead
  split
  · exact h.neutral_epilogue.layAt _
  · exact .nil

lemma before_neutral (h : Mirrors pool old new m f extra prologue epilogue is) (i : Instruction) :
    Neutral pool extra ((if i.offset = 0 then prologue else []) ++ m.ahead epilogue i) := by
  apply Neutral.append
  · split
    · exact h.neutral_prologue
    · exact .nil
  · exact h.ahead_neutral i

lemma reaches_image (h : Mirrors pool old new m f extra prologue epilogue is) (hi : i ∈ is)
    (hr : Reaches pool new (m.weave prologue epilogue is) (m.start i.offset) s) :
    Reaches pool new (m.weave prologue epilogue is) (m.image i).offset s := by
  obtain ⟨as, bs, he⟩ := List.append_of_mem hi
  have hcode : m.weave prologue epilogue is =
      prologue ++ as.flatMap (m.woven epilogue) ++
        (m.ahead epilogue i ++ m.image i :: bs.flatMap (m.woven epilogue)) := by
    rw [he, Placement.weave_split]
  have ht := h.woven.new
  have hstart : m.start i.offset = total size (prologue ++ as.flatMap (m.woven epilogue)) := by
    obtain ⟨x, rest, hx⟩ := List.exists_cons_of_ne_nil
      (List.concat_ne_nil (m.image i) (m.ahead epilogue i))
    rw [hcode, List.append_cons, hx, List.cons_append] at ht
    rw [← h.woven.offset_of_block hi hx, ht.offset_eq, Nat.zero_add]
  have himage : (m.image i).offset = total size (prologue ++ as.flatMap (m.woven epilogue)) +
      total size (m.ahead epilogue i) := by
    rw [hcode, ← List.append_assoc] at ht
    rw [ht.offset_eq, total_append, Nat.zero_add]
  rw [hstart] at hr
  rw [himage]
  exact reaches_pass _ ht hcode (h.ahead_neutral i).straight ((h.ahead_neutral i).passes_self s) hr

lemma reaches_start (h : Mirrors pool old new m f extra prologue epilogue is)
    (hr : Reaches pool old is pos s) :
    m.Lands is (m.weave prologue epilogue is) pos ∧
      Reaches pool new (m.weave prologue epilogue is) (m.start pos)
        (s.map (StackType.rename f)) := by
  induction hr with
  | @entry e he =>
    rcases List.mem_cons.1 he with rfl | he
    · obtain ⟨i, rest, his⟩ := List.exists_cons_of_ne_nil h.nonempty
      have hfirst : i ∈ is ∧ i.offset = 0 := by
        have ht := h.woven.old
        rw [his] at ht ⊢
        exact ⟨List.mem_cons_self, ht.1⟩
      refine ⟨.inl ⟨i, hfirst⟩, ?_⟩
      have hentry : Reaches pool new (m.weave prologue epilogue is) (total size []) [] :=
        .entry (e := (0, [])) List.mem_cons_self
      have hpass := reaches_pass [] h.woven.new rfl h.neutral_prologue.straight
        (h.neutral_prologue.passes_self []) hentry
      rw [total_nil, Nat.zero_add, ← h.woven.start_zero] at hpass
      exact hpass
    · obtain ⟨handler, hmem, rfl⟩ := List.mem_map.1 he
      obtain ⟨handler', hmem', hl, ht⟩ := exists_of_forall₂ h.handlers hmem
      refine ⟨hl, ?_⟩
      dsimp only
      rw [← ht]
      exact .entry (e := (handler'.target.toNat, [.reference]))
        (List.mem_cons_of_mem _ (List.mem_map_of_mem hmem'))
  | @edge i before after e hi hr ha he ih =>
    obtain ⟨e', he', -, hl, hpos, hs⟩ := exists_of_forall₂ (h.edges hi before after) he
    have hnext := Reaches.edge (Placement.image_mem_weave hi) (h.reaches_image hi ih.2)
      ((apply_rename_iff h.injective (h.woven.alike i hi) (h.image_offset i hi)).2 ⟨after, ha, rfl⟩)
      he'
    rw [hpos, hs] at hnext
    exact ⟨hl, hnext⟩

lemma depths_subset (h : Mirrors pool old new m f extra prologue epilogue is) :
    pathDepths pool old is ⊆ pathDepths pool new (m.weave prologue epilogue is) := by
  rintro n (⟨hne, rfl⟩ | ⟨i, hi, before, after, hr, ha, rfl⟩)
  · apply Or.inl
    refine ⟨fun hnil => hne ?_, rfl⟩
    have hh := h.handlers
    rw [hnil] at hh
    exact List.forall₂_nil_right_iff.1 hh
  · refine .inr ⟨m.image i, Placement.image_mem_weave hi, _, _,
      h.reaches_image hi (h.reaches_start hr).2,
      (apply_rename_iff h.injective (h.woven.alike i hi) (h.image_offset i hi)).2 ⟨after, ha, rfl⟩,
      (List.length_map _).symm⟩

theorem flows_old (h : Mirrors pool old new m f extra prologue epilogue is)
    (hf : Flows pool new (m.weave prologue epilogue is)) : Flows pool old is where
  single pos s t hs ht := by
    have heq := hf.single _ _ _ (h.reaches_start hs).2 (h.reaches_start ht).2
    exact List.map_injective_iff.2 (StackType.rename_injective h.injective) heq
  domain pos s hs := by
    obtain ⟨hl, hr⟩ := h.reaches_start hs
    rcases hl with hi | hn
    · exact hi
    · obtain ⟨x, hx, ho⟩ := hf.domain _ _ hr
      exact absurd ho (hn x hx)
  step i hi before hb := by
    obtain ⟨after', ha', hmax, -⟩ := hf.step (m.image i) (Placement.image_mem_weave hi) _
      (h.reaches_image hi (h.reaches_start hb).2)
    obtain ⟨after, ha, rfl⟩ :=
      (apply_rename_iff h.injective (h.woven.alike i hi) (h.image_offset i hi)).1 ha'
    rw [List.length_map] at hmax
    refine ⟨after, ha, hmax, fun e he => ?_⟩
    obtain ⟨e', -, hpos, -⟩ := exists_of_forall₂ (h.edges hi before after) he
    exact hpos
  starts g hg := by
    obtain ⟨g', hg', hl, ho, -⟩ := exists_of_forall₂ h.frames hg
    rcases hl with hi | hn
    · exact hi
    · obtain ⟨x, hx, hxo⟩ := hf.starts g' hg'
      exact absurd (hxo.trans ho) (hn x hx)
  frames g hg s hs := by
    obtain ⟨g', hg', -, ho, hd⟩ := exists_of_forall₂ h.frames hg
    have hr := (h.reaches_start hs).2
    rw [← ho] at hr
    have hagree := hf.frames g' hg' _ hr
    rw [hd] at hagree
    exact (agrees_rename_iff h.injective).1 hagree

/-- A new instruction with the stack that the old body accounts for: the renamed one of an old
instruction, carried through what is inserted before its image. -/
inductive Amid (pool : Pool) (old : Body) (m : Placement) (f : Nat → Nat)
    (prologue epilogue is : List Instruction) : Instruction → Stack → Prop
  | mk {i x : Instruction} {s t : Stack} {pre post : List Instruction} {limit : Nat} (hi : i ∈ is)
    (hr : Reaches pool old is i.offset s)
    (hx : m.wovenFirst prologue epilogue i = pre ++ x :: post)
    (hp : Passes pool limit pre (s.map (StackType.rename f)) t) :
    Amid pool old m f prologue epilogue is x t

lemma weave_eq (h : Mirrors pool old new m f extra prologue epilogue is) :
    m.weave prologue epilogue is = is.flatMap (m.wovenFirst prologue epilogue) :=
  m.weave_eq h.nonempty h.woven.old

lemma Amid.mem (h : Mirrors pool old new m f extra prologue epilogue is)
    (ha : Amid pool old m f prologue epilogue is x t) : x ∈ m.weave prologue epilogue is := by
  obtain ⟨hi, -, hx, -⟩ := ha
  rw [h.weave_eq]
  exact List.mem_flatMap.2 ⟨_, hi, by rw [hx]; simp⟩

lemma eq_of_mem_woven (h : Mirrors pool old new m f extra prologue epilogue is) {j : Instruction}
    (hi : i ∈ is) (hj : j ∈ is) (hxi : x ∈ m.wovenFirst prologue epilogue i)
    (hxj : x ∈ m.wovenFirst prologue epilogue j) : i = j := by
  have hn := h.woven.new.nodup
  rw [h.weave_eq, List.nodup_flatMap] at hn
  by_contra hne
  have hsymm : Std.Symm (List.Disjoint on m.wovenFirst prologue epilogue) :=
    ⟨fun _ _ hd _ ha hb => hd hb ha⟩
  exact hn.2.forall hi hj hne hxi hxj

lemma Amid.single (h : Mirrors pool old new m f extra prologue epilogue is)
    (hold : Flows pool old is) {t' : Stack} (ha : Amid pool old m f prologue epilogue is x t)
    (ha' : Amid pool old m f prologue epilogue is x t') : t = t' := by
  obtain @⟨i, _, s, _, pre, post, _, hi, hr, hx, hp⟩ := ha
  obtain @⟨j, _, s', _, pre', post', _, hj, hr', hx', hp'⟩ := ha'
  have hmem : x ∈ m.wovenFirst prologue epilogue i := by simp [hx]
  have hmem' : x ∈ m.wovenFirst prologue epilogue j := by simp [hx']
  obtain rfl := h.eq_of_mem_woven hi hj hmem hmem'
  obtain rfl := hold.single _ _ _ hr hr'
  have hn := h.woven.new.nodup
  rw [h.weave_eq, List.nodup_flatMap] at hn
  obtain rfl := eq_of_split (hn.1 i hi) hx hx'
  exact hp.eq_of_passes hp'

lemma exists_amid_start (h : Mirrors pool old new m f extra prologue epilogue is) (hi : i ∈ is)
    (hr : Reaches pool old is i.offset s) :
    ∃ x, x.offset = m.start i.offset ∧
      Amid pool old m f prologue epilogue is x (s.map (StackType.rename f)) := by
  obtain ⟨x, rest, hx⟩ := List.exists_cons_of_ne_nil
    (List.concat_ne_nil (m.image i) (m.ahead epilogue i))
  have hentry : Neutral pool extra (if i.offset = 0 then prologue else []) := by
    split
    · exact h.neutral_prologue
    · exact .nil
  have hblock : m.wovenFirst prologue epilogue i =
      (if i.offset = 0 then prologue else []) ++ x :: rest := by
    rw [Placement.wovenFirst_eq, List.append_assoc, hx]
  exact ⟨x, h.woven.offset_of_block hi hx, .mk hi hr hblock (hentry.passes_self _)⟩

lemma Amid.of_start (h : Mirrors pool old new m f extra prologue epilogue is)
    (hold : Flows pool old is) (ha : Amid pool old m f prologue epilogue is x t) (hi : i ∈ is)
    (hx : x.offset = m.start i.offset) :
    ∃ s, Reaches pool old is i.offset s ∧ t = s.map (StackType.rename f) := by
  obtain ⟨y, rest, hy⟩ := List.exists_cons_of_ne_nil
    (List.concat_ne_nil (m.image i) (m.ahead epilogue i))
  have hblock : y ∈ m.wovenFirst prologue epilogue i := by
    rw [Placement.wovenFirst_eq, List.append_assoc, hy]
    simp
  have hcode : y ∈ m.weave prologue epilogue is := by
    rw [h.weave_eq]
    exact List.mem_flatMap.2 ⟨i, hi, hblock⟩
  obtain rfl := h.woven.new.eq_of_offset_eq (ha.mem h) hcode
    (hx.trans (h.woven.offset_of_block hi hy).symm)
  have ha' := ha
  -- `x` stands in one block only, and each place has one stack
  obtain @⟨j, _, s, _, pre, post, _, hj, hr, hpre, -⟩ := ha'
  have hmem : x ∈ m.wovenFirst prologue epilogue j := by simp [hpre]
  obtain rfl := h.eq_of_mem_woven hi hj hblock hmem
  obtain ⟨z, hz, hza⟩ := h.exists_amid_start hi hr
  obtain rfl := h.woven.new.eq_of_offset_eq (ha.mem h) (hza.mem h) (hx.trans hz.symm)
  exact ⟨s, hr, ha.single h hold hza⟩

lemma Amid.cases (h : Mirrors pool old new m f extra prologue epilogue is)
    (ha : Amid pool old m f prologue epilogue is x t) :
    ∃ i ∈ is, ∃ s, Reaches pool old is i.offset s ∧
      (x = m.image i ∧ t = s.map (StackType.rename f) ∨
        ∃ y r, x.apply pool t = .ok r ∧ r.length ≤ s.length + extra ∧
          x.edges t r = [((x.stop : Int), r)] ∧ y.offset = x.stop ∧
            Amid pool old m f prologue epilogue is y r) := by
  obtain @⟨i, _, s, _, pre, post, _, hi, hr, hx, hp⟩ := ha
  refine ⟨i, hi, s, hr, ?_⟩
  have hneutral := h.before_neutral i
  have hall := hneutral.passes_self (s.map (StackType.rename f))
  have hblock := hx
  rw [Placement.wovenFirst_eq] at hx
  -- if nothing follows, `x` is the image itself
  rcases List.eq_nil_or_concat post with rfl | ⟨post, z, rfl⟩
  · apply Or.inl
    obtain ⟨hpre, hlast⟩ := List.append_inj' hx rfl
    rw [hpre] at hall
    exact ⟨(List.cons.inj hlast).1.symm, hp.eq_of_passes hall⟩
  · apply Or.inr
    rw [List.concat_eq_append] at hx hblock
    rw [← List.cons_append, ← List.append_assoc] at hx
    obtain ⟨hpre, -⟩ := List.append_inj' hx rfl
    rw [hpre] at hall hneutral
    obtain ⟨t', hp', hrest⟩ := passes_append_iff.1 hall
    obtain rfl := hp.eq_of_passes hp'
    obtain - | @⟨_, _, _, r, _, happly, hlen, -⟩ := hrest
    obtain ⟨hstraight, hcall⟩ := hneutral.straight x (by simp)
    obtain ⟨y, rest, hy⟩ := List.exists_cons_of_ne_nil (List.concat_ne_nil z post)
    rw [hy] at hblock
    refine ⟨y, r, happly, by simpa using hlen, edges_of_straight hstraight hcall t r, ?_, ?_⟩
    · obtain ⟨as, bs, he⟩ := List.append_of_mem hi
      have ht := h.woven.new
      rw [h.weave_eq, he, List.flatMap_append, List.flatMap_cons, hblock] at ht
      rw [List.append_assoc, ← List.append_assoc] at ht
      exact ht.offset_of_append_cons
    · have hnext : m.wovenFirst prologue epilogue i = (pre ++ [x]) ++ y :: rest := by
        simp [hblock]
      exact .mk hi hr hnext (passes_append_iff.2 ⟨t, hp', .cons happly hlen .nil⟩)

lemma exists_amid_entry (h : Mirrors pool old new m f extra prologue epilogue is) :
    ∃ x, x.offset = 0 ∧ Amid pool old m f prologue epilogue is x [] := by
  obtain ⟨i, rest, his⟩ := List.exists_cons_of_ne_nil h.nonempty
  obtain ⟨x, post, hx⟩ := List.exists_cons_of_ne_nil (List.concat_ne_nil (m.image i)
    ((if i.offset = 0 then prologue else []) ++ m.ahead epilogue i))
  rw [← Placement.wovenFirst_eq] at hx
  have hi : i ∈ is := by simp [his]
  have hentry : Reaches pool old is i.offset [] := by
    have ht := h.woven.old
    rw [his] at ht
    rw [ht.1]
    exact .entry (e := (0, [])) List.mem_cons_self
  have hzero : x.offset = 0 := by
    have ht := h.woven.new
    rw [h.weave_eq, his, List.flatMap_cons, hx] at ht
    exact ht.1
  have hx' : m.wovenFirst prologue epilogue i = [] ++ x :: post := hx
  have hpass : Passes pool 0 [] [] [] := .nil
  exact ⟨x, hzero, .mk hi hentry hx' hpass⟩

lemma exists_amid (h : Mirrors pool old new m f extra prologue epilogue is)
    (hold : Flows pool old is)
    (hr : Reaches pool new (m.weave prologue epilogue is) pos t) :
    ∃ x, x.offset = pos ∧ Amid pool old m f prologue epilogue is x t := by
  induction hr with
  | @entry e he =>
    rcases List.mem_cons.1 he with rfl | he
    · exact h.exists_amid_entry
    · obtain ⟨handler', hmem', rfl⟩ := List.mem_map.1 he
      obtain ⟨handler, hmem, -, hpos⟩ := exists_of_forall₂ h.handlers.flip hmem'
      have hentry : Reaches pool old is handler.target.toNat [.reference] :=
        .entry (e := (handler.target.toNat, [.reference]))
          (List.mem_cons_of_mem _ (List.mem_map_of_mem hmem))
      obtain ⟨i, hi, ho⟩ := hold.domain _ _ hentry
      rw [← ho] at hentry hpos
      obtain ⟨x, hx, ha⟩ := h.exists_amid_start hi hentry
      exact ⟨x, hx.trans hpos.symm, ha⟩
  | @edge x' before after e hx' _ happly he ih =>
    obtain ⟨x, hx, ha⟩ := ih
    obtain rfl := h.woven.new.eq_of_offset_eq (ha.mem h) hx' hx
    obtain ⟨i, hi, s, hs, ⟨rfl, rfl⟩ | ⟨y, r, hr, -, hedges, hy, hya⟩⟩ := ha.cases h
    · -- the image leads where the old instruction does, to the start of a block
      obtain ⟨after', ha', rfl⟩ :=
        (apply_rename_iff h.injective (h.woven.alike i hi) (h.image_offset i hi)).1 happly
      obtain ⟨e', he', -, -, hpos, hstack⟩ := exists_of_forall₂ (h.edges hi s after').flip he
      have hnext := Reaches.edge hi hs ha' he'
      obtain ⟨j, hj, hjo⟩ := hold.domain _ _ hnext
      rw [← hjo] at hnext hpos
      obtain ⟨y, hy, hya⟩ := h.exists_amid_start hj hnext
      rw [hpos, hstack]
      exact ⟨y, hy, hya⟩
    · -- an inserted instruction goes on inside of its block
      rw [happly] at hr
      cases hr
      rw [hedges] at he
      cases List.mem_singleton.1 he
      exact ⟨y, hy, hya⟩

lemma Amid.exists_apply (h : Mirrors pool old new m f extra prologue epilogue is)
    (hold : Flows pool old is) {n : Nat} (hn : n ∈ upperBounds (pathDepths pool old is))
    (ha : Amid pool old m f prologue epilogue is x t) :
    ∃ r, x.apply pool t = .ok r ∧ r.length ≤ n + extra ∧ ∀ e ∈ x.edges t r, 0 ≤ e.1 := by
  obtain ⟨i, hi, s, hs, ⟨rfl, rfl⟩ | ⟨y, r, hr, hlen, hedges, -⟩⟩ := ha.cases h
  · obtain ⟨after, happly, -, -⟩ := hold.step i hi s hs
    refine ⟨_, (apply_rename_iff h.injective (h.woven.alike i hi) (h.image_offset i hi)).2
      ⟨after, happly, rfl⟩, ?_, ?_⟩
    · have hle : after.length ≤ n := hn (.inr ⟨i, hi, s, after, hs, happly, rfl⟩)
      rw [List.length_map]
      omega
    · intro e he
      obtain ⟨e', -, -, -, hpos, -⟩ := exists_of_forall₂ (h.edges hi s after).flip he
      rw [hpos]
      exact Int.natCast_nonneg _
  · have hle := hs.length_le hn
    refine ⟨r, hr, by omega, ?_⟩
    rw [hedges]
    simp

/-- If the old body flows, and leaves room for what the inserted code needs, so does the new one. -/
theorem flows_new (h : Mirrors pool old new m f extra prologue epilogue is)
    (hold : Flows pool old is) {n : Nat} (hn : n ∈ upperBounds (pathDepths pool old is))
    (hmax : n + extra ≤ Flow.maxDepth) : Flows pool new (m.weave prologue epilogue is) where
  single pos s t hs ht := by
    obtain ⟨x, hx, ha⟩ := h.exists_amid hold hs
    obtain ⟨y, hy, hb⟩ := h.exists_amid hold ht
    obtain rfl := h.woven.new.eq_of_offset_eq (ha.mem h) (hb.mem h) (hx.trans hy.symm)
    exact ha.single h hold hb
  domain pos s hs := by
    obtain ⟨x, hx, ha⟩ := h.exists_amid hold hs
    exact ⟨x, ha.mem h, hx⟩
  step x hx before hb := by
    obtain ⟨y, hy, ha⟩ := h.exists_amid hold hb
    obtain rfl := h.woven.new.eq_of_offset_eq (ha.mem h) hx hy
    obtain ⟨r, hr, hlen, hpos⟩ := ha.exists_apply h hold hn
    exact ⟨r, hr, hlen.trans hmax, hpos⟩
  starts g' hg' := by
    obtain ⟨g, hg, -, ho, -⟩ := exists_of_forall₂ h.frames.flip hg'
    obtain ⟨i, hi, hio⟩ := hold.starts g hg
    obtain ⟨x, hl, hx⟩ := h.woven.exists_start hi
    exact ⟨x, hl.mem, by rw [hx, hio, ho]⟩
  frames g' hg' t ht := by
    obtain ⟨g, hg, -, ho, hd⟩ := exists_of_forall₂ h.frames.flip hg'
    obtain ⟨i, hi, hio⟩ := hold.starts g hg
    obtain ⟨x, hx, ha⟩ := h.exists_amid hold ht
    obtain ⟨s, hs, rfl⟩ := ha.of_start h hold hi (by rw [hx, ho, hio])
    rw [hio] at hs
    rw [hd]
    exact (agrees_rename_iff h.injective).2 (hold.frames g hg s hs)

lemma depths_le (h : Mirrors pool old new m f extra prologue epilogue is)
    (hold : Flows pool old is) {n : Nat} (hn : n ∈ upperBounds (pathDepths pool old is)) :
    n + extra ∈ upperBounds (pathDepths pool new (m.weave prologue epilogue is)) := by
  rintro k (⟨hne, rfl⟩ | ⟨x, hx, before, after, hr, happly, rfl⟩)
  · have hone : 1 ≤ n := by
      apply hn
      refine .inl ⟨fun hnil => hne ?_, rfl⟩
      have hh := h.handlers
      rw [hnil] at hh
      exact List.forall₂_nil_left_iff.1 hh
    omega
  · obtain ⟨y, hy, ha⟩ := h.exists_amid hold hr
    obtain rfl := h.woven.new.eq_of_offset_eq (ha.mem h) hx hy
    obtain ⟨r, hr', hlen, -⟩ := ha.exists_apply h hold hn
    rw [happly] at hr'
    cases hr'
    exact hlen

end Mirrors

end ClassWeaver
