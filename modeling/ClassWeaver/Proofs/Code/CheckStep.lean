import ClassWeaver.Proofs.Code.ConsistentStacks

namespace ClassWeaver

open Instruction

namespace Flow

def put (flow : Flow) (pos : Nat) (s : Stack) : Flow :=
  { flow with states := note flow.states pos s, work := pos :: flow.work }

inductive Meets (c : Chart) : List (Nat × Stack) → Flow → Flow → Prop
  | nil {f : Flow} : Meets c [] f f
  | known {pos : Nat} {s : Stack} {es : List (Nat × Stack)} {f g : Flow} (ha : c.Admits pos s)
    (hk : f.state? pos = some s) (h : Meets c es f g) : Meets c ((pos, s) :: es) f g
  | fresh {pos : Nat} {s : Stack} {es : List (Nat × Stack)} {f g : Flow} (ha : c.Admits pos s)
    (hk : f.state? pos = none) (h : Meets c es (f.put pos s) g) : Meets c ((pos, s) :: es) f g

variable {c : Chart} {f g k : Flow} {pos : Nat} {s : Stack} {es es' : List (Nat × Stack)}

lemma Meets.trans (h : Meets c es f g) (h' : Meets c es' g k) : Meets c (es ++ es') f k := by
  induction h with
  | nil => exact h'
  | known ha hk _ ih => exact .known ha hk (ih h')
  | fresh ha hk _ ih => exact .fresh ha hk (ih h')

lemma Meets.withDepth (h : Meets c es f g) (d : Nat) :
    Meets c es { f with deepest := d } { g with deepest := d } := by
  induction h with
  | nil => exact .nil
  | known ha hk _ ih => exact .known ha hk ih
  | fresh ha hk _ ih => exact .fresh ha hk ih

lemma Meets.deepest_eq (h : Meets c es f g) : g.deepest = f.deepest := by
  induction h with
  | nil => rfl
  | known _ _ _ ih => exact ih
  | fresh _ _ _ ih => exact ih

lemma enter_eq_ok_iff {source : Nat} : f.enter c source pos s = .ok g ↔
    c.Admits pos s ∧
      (f.state? pos = some s ∧ g = f ∨ f.state? pos = none ∧ g = f.put pos s) := by
  have check_iff {x : Except CodeFault Unit} {y : Except CodeFault Flow} :
      (do x; y) = .ok g ↔ x = .ok () ∧ y = .ok g := by
    rw [bind_eq_ok_iff]
    exact ⟨fun ⟨_, h⟩ => h, fun h => ⟨(), h⟩⟩
  unfold enter Chart.Admits
  cases instruction? c pos with
  | none => simp
  | some i =>
    cases hd : declared? c pos with
    | none =>
      cases hk : f.state? pos with
      | none => simp [pure, Except.pure, put, eq_comm]
      | some known =>
        dsimp only
        rw [check_iff, checkMerge_eq_ok_iff]
        simp [pure, Except.pure, eq_comm]
    | some d =>
      dsimp only
      rw [check_iff, checkFrame_eq_ok_iff]
      cases hk : f.state? pos with
      | none => simp [pure, Except.pure, put, eq_comm]
      | some known =>
        dsimp only
        rw [check_iff, checkMerge_eq_ok_iff]
        simp [pure, Except.pure, eq_comm]

lemma meets_cons_iff (source : Nat) : Meets c ((pos, s) :: es) f k ↔
    ∃ g, f.enter c source pos s = .ok g ∧ Meets c es g k := by
  constructor
  · rintro (- | ⟨ha, hk, h⟩ | ⟨ha, hk, h⟩)
    · exact ⟨f, enter_eq_ok_iff.2 ⟨ha, .inl ⟨hk, rfl⟩⟩, h⟩
    · exact ⟨_, enter_eq_ok_iff.2 ⟨ha, .inr ⟨hk, rfl⟩⟩, h⟩
  · rintro ⟨g, hg, h⟩
    obtain ⟨ha, ⟨hk, rfl⟩ | ⟨hk, rfl⟩⟩ := enter_eq_ok_iff.1 hg
    · exact .known ha hk h
    · exact .fresh ha hk h

lemma meets_nil_iff : Meets c [] f g ↔ g = f := by
  constructor
  · rintro ⟨⟩
    rfl
  · rintro rfl
    exact .nil

lemma meets_append_iff : Meets c (es ++ es') f k ↔ ∃ g, Meets c es f g ∧ Meets c es' g k := by
  constructor
  · intro h
    induction es generalizing f with
    | nil => exact ⟨f, .nil, h⟩
    | cons e es ih =>
      obtain ⟨g, hg, h⟩ := (meets_cons_iff 0).1 h
      obtain ⟨g', h1, h2⟩ := ih h
      exact ⟨g', (meets_cons_iff 0).2 ⟨g, hg, h1⟩, h2⟩
  · rintro ⟨g, h, h'⟩
    exact h.trans h'

def landings (es : List (Int × Stack)) : List (Nat × Stack) := es.map fun e => (e.1.toNat, e.2)

lemma enterAll_eq_ok_iff {source : Nat} {targets : List Int} :
    f.enterAll c source s targets = .ok g ↔
      (∀ t ∈ targets, 0 ≤ t) ∧ Meets c (landings (targets.map (·, s))) f g := by
  induction targets generalizing f with
  | nil => simp [enterAll, landings, meets_nil_iff, eq_comm]
  | cons t targets ih =>
    rw [enterAll, enterBranch, List.forall_mem_cons]
    by_cases ht : t < 0
    · rw [if_pos ht]
      constructor
      · intro h
        cases h
      · rintro ⟨⟨h0, -⟩, -⟩
        omega
    · have h0 : 0 ≤ t := by omega
      have hcons : landings ((t :: targets).map (·, s)) =
          (t.toNat, s) :: landings (targets.map (·, s)) := rfl
      rw [if_neg ht, and_iff_right h0, hcons, meets_cons_iff source]
      cases he : f.enter c source t.toNat s with
      | error fault => simp
      | ok f' => simp [ih]

lemma enterHandlers_eq_ok_iff {handlers : List Handler} :
    f.enterHandlers c handlers = .ok k ↔
      ∃ g, Meets c (handlers.map fun h => (h.target.toNat, [.reference])) f g ∧
        k = { g with deepest := if handlers = [] then g.deepest else max g.deepest 1 } := by
  induction handlers generalizing f with
  | nil => simp [enterHandlers, meets_nil_iff, eq_comm]
  | cons h handlers ih =>
    have hdepth (d : Nat) : (if handlers = [] then max d 1 else max (max d 1) 1) = max d 1 := by
      split <;> omega
    rw [enterHandlers, List.map_cons]
    constructor
    · intro hk
      split at hk
      · cases hk
      · next f' he =>
        obtain ⟨g, hg, rfl⟩ := ih.1 hk
        have hd := hg.deepest_eq
        refine ⟨{ g with deepest := f'.deepest }, (meets_cons_iff h.target.toNat).2
          ⟨f', he, hg.withDepth f'.deepest⟩, ?_⟩
        dsimp only at hd ⊢
        rw [hd, hdepth, if_neg (List.cons_ne_nil _ _)]
    · rintro ⟨g, hg, rfl⟩
      obtain ⟨f', he, hg⟩ := (meets_cons_iff h.target.toNat).1 hg
      have hd := hg.deepest_eq
      rw [he]
      refine ih.2 ⟨_, hg.withDepth (max f'.deepest 1), ?_⟩
      dsimp only
      rw [hd, hdepth, if_neg (List.cons_ne_nil _ _)]

lemma follow_eq_ok_iff {i : Instruction} {before : Stack} :
    f.follow c i before = .ok g ↔
      ∃ after, i.apply c.pool before = .ok after ∧ after.length ≤ maxDepth ∧
        (∀ e ∈ i.edges before after, 0 ≤ e.1) ∧
        Meets c (landings (i.edges before after))
          { f with deepest := max f.deepest after.length } g := by
  unfold follow
  rw [bind_eq_ok_iff]
  refine exists_congr fun after => and_congr_right fun _ => ?_
  by_cases hdepth : maxDepth < after.length
  · rw [if_pos hdepth]
    constructor
    · intro h
      cases h
    · rintro ⟨hle, -⟩
      omega
  · have hle : after.length ≤ maxDepth := by omega
    rw [if_neg hdepth, and_iff_right hle, bind_eq_ok_iff, edges]
    have hsplit : ∀ es : List (Int × Stack), landings (i.targets.map (·, after) ++ es) =
        landings (i.targets.map (·, after)) ++ landings es := fun es => List.map_append
    have htargets : (∀ e ∈ i.targets.map (·, after), 0 ≤ e.1) ↔ ∀ t ∈ i.targets, 0 ≤ t := by
      simp
    rw [hsplit, meets_append_iff, List.forall_mem_append, htargets]
    simp only [enterAll_eq_ok_iff, and_assoc, ← exists_and_left]
    refine exists_congr fun mid => and_congr_right fun _ => ?_
    by_cases hends : i.endsFlow = true
    · rw [if_pos hends, if_pos hends]
      simp [landings, meets_nil_iff, pure, Except.pure, eq_comm]
    · rw [if_neg hends, if_neg hends, and_left_comm]
      refine and_congr_right fun _ => ?_
      have hnext : landings [((i.stop : Int), i.fallStack before after)] =
          [(i.stop, i.fallStack before after)] := rfl
      rw [hnext, meets_cons_iff i.offset]
      simp only [meets_nil_iff]
      by_cases hfall : c.instructions.size ≤ i.stop
      · rw [if_pos hfall]
        constructor
        · intro h
          cases h
        · rintro ⟨-, f', hf, -⟩
          obtain ⟨⟨⟨j, hj⟩, -⟩, -⟩ := enter_eq_ok_iff.1 hf
          have := Chart.lt_size hj
          omega
      · rw [if_neg hfall]
        simp [fallStack]

end Flow

end ClassWeaver
