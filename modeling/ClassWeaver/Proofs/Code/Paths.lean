import Mathlib.Order.Bounds.Basic
import ClassWeaver.Proofs.Code.Acceptance

/-! Acceptance in terms of paths alone. A body is accepted if every place is reached with one stack
only and no path gets stuck, and the depth is that of the deepest stack on any path. -/

namespace ClassWeaver

open Instruction

variable {pool : Pool} {body : Body} {is : List Instruction}

structure Flows (pool : Pool) (body : Body) (is : List Instruction) : Prop where
  single : ∀ pos s t, Reaches pool body is pos s → Reaches pool body is pos t → s = t
  domain : ∀ pos s, Reaches pool body is pos s → ∃ i ∈ is, i.offset = pos
  step : ∀ i ∈ is, ∀ before, Reaches pool body is i.offset before →
    ∃ after, i.apply pool before = .ok after ∧ after.length ≤ Flow.maxDepth ∧
      ∀ e ∈ i.edges before after, 0 ≤ e.1
  starts : ∀ f ∈ body.frames, ∃ i ∈ is, i.offset = f.offset
  frames : ∀ f ∈ body.frames, ∀ s, Reaches pool body is f.offset s →
    Agrees f.kind.declaredStack s

def pathDepths (pool : Pool) (body : Body) (is : List Instruction) : Set Nat :=
  {n | body.code.handlers ≠ [] ∧ n = 1 ∨ ∃ i ∈ is, ∃ before after,
    Reaches pool body is i.offset before ∧ i.apply pool before = .ok after ∧ n = after.length}

lemma Consistent.flows {T : Nat → Option Stack} (h : Consistent pool body is T)
    (hs : ∀ f ∈ body.frames, ∃ i ∈ is, i.offset = f.offset) : Flows pool body is where
  single pos s t hp hq := by
    have he := h.of_reaches hp
    rw [h.of_reaches hq] at he
    exact (Option.some.inj he).symm
  domain pos s hp := h.domain pos s (h.of_reaches hp)
  step i hi before hp := by
    obtain ⟨after, ha, hmax, he⟩ := h.step i hi before (h.of_reaches hp)
    exact ⟨after, ha, hmax, fun e hmem => (he e hmem).1⟩
  starts := hs
  frames f hf s hp := h.frames f hf s (h.of_reaches hp)

/-- The stacks that are reached are an assignment, the least one that is consistent. -/
lemma Flows.exists_consistent (h : Flows pool body is) :
    ∃ T, Consistent pool body is T ∧ ∀ pos s, T pos = some s ↔ Reaches pool body is pos s := by
  classical
  have hT : ∀ pos, ∃ o : Option Stack, ∀ s, o = some s ↔ Reaches pool body is pos s := by
    intro pos
    by_cases hp : ∃ s, Reaches pool body is pos s
    · obtain ⟨s, hs⟩ := hp
      refine ⟨some s, fun t => ⟨?_, fun ht => ?_⟩⟩
      · rintro ⟨⟩
        exact hs
      · rw [h.single pos s t hs ht]
    · refine ⟨none, fun t => ⟨nofun, fun ht => ?_⟩⟩
      exact absurd ⟨t, ht⟩ hp
  choose T hT using hT
  refine ⟨T, ⟨fun pos s hs => ?_, fun e he => ?_, fun i hi before hb => ?_,
    fun f hf s hs => ?_⟩, hT⟩
  · exact h.domain pos s ((hT pos s).1 hs)
  · exact (hT _ _).2 (.entry he)
  · have hr := (hT _ _).1 hb
    obtain ⟨after, ha, hmax, he⟩ := h.step i hi before hr
    exact ⟨after, ha, hmax, fun e hmem => ⟨he e hmem, (hT _ _).2 (.edge hi hr ha hmem)⟩⟩
  · exact h.frames f hf s ((hT _ _).1 hs)

lemma depths_eq_pathDepths {T : Nat → Option Stack}
    (hT : ∀ pos s, T pos = some s ↔ Reaches pool body is pos s) :
    depths pool body is T = pathDepths pool body is := by
  unfold depths pathDepths
  simp only [hT]

lemma Consistent.iff_reaches {T : Nat → Option Stack} (h : Consistent pool body is T)
    (hr : ∀ pos s, T pos = some s → Reaches pool body is pos s) (pos : Nat) (s : Stack) :
    T pos = some s ↔ Reaches pool body is pos s :=
  ⟨hr pos s, h.of_reaches⟩

lemma Body.exists_check_of_flows (distinct : (body.frames.map (·.offset)).Nodup)
    (hpos : 1 ≤ body.code.bytes.length) (hmax : body.code.bytes.length ≤ Code.maxLength)
    (hd : decode body.code.bytes = .ok is) (hf : Flows pool body is) :
    ∃ m, body.check pool = .ok m := by
  obtain ⟨T, hT, -⟩ := hf.exists_consistent
  exact exists_check distinct hpos hmax hd hf.starts hT

theorem Body.check_iff_flows {m : Nat} (distinct : (body.frames.map (·.offset)).Nodup) :
    body.check pool = .ok m ↔
      1 ≤ body.code.bytes.length ∧ body.code.bytes.length ≤ Code.maxLength ∧
        ∃ is, decode body.code.bytes = .ok is ∧ Flows pool body is ∧
          IsGreatest (pathDepths pool body is) m := by
  have accepted : ∀ {n : Nat}, body.check pool = .ok n →
      ∃ is, decode body.code.bytes = .ok is ∧ Flows pool body is ∧
        IsGreatest (pathDepths pool body is) n := by
    intro n h
    obtain ⟨is, hd, hs, T, hT, hr, hg⟩ := check_spec distinct h
    rw [depths_eq_pathDepths (hT.iff_reaches hr)] at hg
    exact ⟨is, hd, hT.flows hs, hg⟩
  constructor
  · intro h
    obtain ⟨hpos, hmax, -⟩ := check_eq_ok_iff.1 h
    exact ⟨hpos, hmax, accepted h⟩
  · rintro ⟨hpos, hmax, is, hd, hf, hg⟩
    obtain ⟨n, hn⟩ := exists_check_of_flows distinct hpos hmax hd hf
    obtain ⟨is', hd', -, hg'⟩ := accepted hn
    rw [hd] at hd'
    cases hd'
    rwa [hg.unique hg']

lemma Reaches.length_le {pos : Nat} {s : Stack} (h : Reaches pool body is pos s) {n : Nat}
    (hn : n ∈ upperBounds (pathDepths pool body is)) : s.length ≤ n :=
  h.stack_induction (Nat.zero_le n) (fun hne => hn (.inl ⟨hne, rfl⟩))
    fun i hi before after hr ha _ => hn (.inr ⟨i, hi, before, after, hr, ha, rfl⟩)

end ClassWeaver
