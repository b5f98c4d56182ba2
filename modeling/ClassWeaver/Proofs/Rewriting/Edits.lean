import ClassWeaver.Proofs.ClassFile.CodeReplacement
import ClassWeaver.Proofs.Code.Hooks
import ClassWeaver.Proofs.Code.Readability

namespace ClassWeaver

open Read

namespace Method

def codeLength (m : Method) : Nat :=
  match m.code with
  | some (_, code) => code.encode.length
  | none => 0

def IsShort (m : Method) : Prop := m.codeLength < 4294967296

lemma Fits.codeLength_le {pool : Pool} {m : Method} (h : m.Fits pool) :
    m.codeLength ≤ m.encode.length := by
  unfold codeLength
  split
  · next index code hcode =>
    obtain ⟨before, a, after, he, -, -, -, -, hbody⟩ := h.exists_code hcode
    have ha : a ∈ m.attributes := he ▸ List.mem_append_right before List.mem_cons_self
    have hle := total_le_of_mem Attribute.size ha
    rw [Attribute.size, hbody] at hle
    rw [length_encode, size, Attribute.sizeAll]
    omega
  · exact Nat.zero_le _

end Method

def Edit.Makes (e : Edit) (m m' : Method) : Prop :=
  if e.isNone then m' = m else m.Recoded m'

namespace Code

lemma ofDescriptor_spec {descriptor : String} {maxLocals : UInt16} {c : Code}
    (h : ofDescriptor descriptor maxLocals = .ok c) :
    c.handlers = [] ∧ c.attributes = [] ∧ c.bytes.length ≤ 2 := by
  unfold ofDescriptor at h
  split at h
  · next result _ =>
    cases h
    refine ⟨rfl, rfl, ?_⟩
    dsimp only
    unfold returningZero
    split <;> decide
  · cases h

end Code

namespace Instrumentation

variable {file : ClassFile} {m m' : Method} {code : Code} {e : Edit} {pool pool' : Pool}

lemma body_spec {b : Body} (hw : file.pool.Whole) (hf : code.Fits file.pool)
    (hg : file.pool.Grown pool) (h : body file m code e pool = .ok (b, pool')) :
    pool.Grown pool' ∧ b.code.encode.length ≤ Code.maxLength + 3 * code.encode.length ∧
      (b.code.bytes ≠ [] → b.code.bytes.length ≤ Code.maxLength →
        b.code.encode.length < 4294967296 → b.code.Fits pool') := by
  unfold body at h
  split at h
  · obtain ⟨c, hc, h⟩ := bind_eq_ok_iff.1 h
    rw [mapError_eq_ok_iff] at hc
    cases h
    obtain ⟨hh, ha, hb⟩ := Code.ofDescriptor_spec hc
    refine ⟨.refl, ?_, fun hne hle _ => ⟨hne, hle, ?_, ?_⟩⟩
    · rw [Code.maxLength]
      simp [Code.encode, hh, ha, Attribute.length_encodeAll, Attribute.sizeAll, count16, count32]
      omega
    · rw [hh]
      exact ⟨by decide, fun _ hmem => absurd hmem List.not_mem_nil⟩
    · rw [ha]
      exact ⟨by decide, fun _ hmem => absurd hmem List.not_mem_nil⟩
  · obtain ⟨⟨ins, q⟩, hins, h⟩ := bind_eq_ok_iff.1 h
    obtain ⟨b', hb, h⟩ := bind_eq_ok_iff.1 h
    rw [mapError_eq_ok_iff] at hins
    cases h
    obtain ⟨g, ⟨prologue, hp, np⟩, epilogue, he, ne⟩ :=
      insertion_harmless (hg.count_le hw.count_le) hins
    obtain ⟨placed, stop, hr⟩ := Code.relocates hb
    obtain ⟨-, -, hstop⟩ := hr.weave_spec hf.nonempty hp he fun i hi => (ne.straight i hi).1.1
    refine ⟨g, ?_, fun hne _ hshort => ?_⟩
    · have hle := hr.length_encode_le
      have hmax := hr.stop_le
      omega
    · exact hr.fits hf (hg.trans g).extends hstop hne hshort

lemma method_spec (hw : file.pool.Whole) (hf : m.Fits file.pool) (hg : file.pool.Grown pool)
    (h : method file m e pool = .ok (m', pool')) :
    pool.Grown pool' ∧ m.Recoded m' ∧ m'.codeLength ≤ Code.maxLength + 3 * m.encode.length ∧
      (m'.IsShort → m'.Fits pool') := by
  unfold method at h
  split at h
  · cases h
  · next index code hcode =>
    obtain ⟨⟨b, q⟩, hb, h⟩ := bind_eq_ok_iff.1 h
    obtain ⟨depth, hcheck, h⟩ := bind_eq_ok_iff.1 h
    rw [mapError_eq_ok_iff] at hcheck
    cases h
    obtain ⟨-, -, -, -, -, -, -, codeFits, -⟩ := hf.exists_code hcode
    obtain ⟨g, hle, hfits⟩ := body_spec hw codeFits hg hb
    obtain ⟨hpos, hmax, -⟩ := Body.check_eq_ok_iff.1 hcheck
    have hne : b.code.bytes ≠ [] := by
      rintro hnil
      rw [hnil] at hpos
      cases hpos
    have hcodeLength : (withCode m index { b.code with
        maxStack := UInt16.ofNat (max b.code.maxStack.toNat depth) }).codeLength =
          b.code.encode.length := rfl
    refine ⟨g, hf.recoded hcode _, ?_, fun hshort => ?_⟩
    · have hold := hf.codeLength_le
      rw [Method.codeLength, hcode] at hold
      dsimp only at hold
      rw [hcodeLength]
      omega
    have hlen : b.code.encode.length < 4294967296 := hcodeLength ▸ hshort
    exact hf.withCode (hg.trans g).extends hcode ((hfits hne hmax hlen).withMaxStack _) hlen

/-- What becomes of a method whose edit is carried out over a pool that has grown on the way and that
grows on to the last one. -/
def Carried (file : ClassFile) (last : Pool) (x : Method × Edit) (m' : Method) : Prop :=
  if x.2.isNone then m' = x.1
  else ∃ p q, file.pool.Grown p ∧ method file x.1 x.2 p = .ok (m', q) ∧ q.Grown last

lemma Carried.mono {last last' : Pool} {x : Method × Edit} (h : Carried file last x m')
    (hg : last.Grown last') : Carried file last' x m' := by
  unfold Carried at h ⊢
  split at h
  · next hnone => rwa [if_pos hnone]
  · next hnone =>
    rw [if_neg hnone]
    obtain ⟨p, q, hp, hmethod, hq⟩ := h
    exact ⟨p, q, hp, hmethod, hq.trans hg⟩

lemma Carried.spec {last : Pool} {x : Method × Edit} (h : Carried file last x m')
    (hw : file.pool.Whole) (hf : x.1.Fits file.pool) (hg : file.pool.Grown last) :
    x.2.Makes x.1 m' ∧ m'.codeLength ≤ Code.maxLength + 3 * x.1.encode.length ∧
      (m'.IsShort → m'.Fits last) := by
  unfold Carried at h
  unfold Edit.Makes
  split at h
  · next hnone =>
    obtain rfl := h
    rw [if_pos hnone]
    have hle := hf.codeLength_le
    exact ⟨rfl, by omega, fun _ => hf.mono hg.extends⟩
  · next hnone =>
    rw [if_neg hnone]
    obtain ⟨p, q, hp, hmethod, hq⟩ := h
    obtain ⟨-, hrecoded, hle, hfit⟩ := method_spec hw hf hp hmethod
    exact ⟨hrecoded, hle, fun hshort => (hfit hshort).mono hq.extends⟩

lemma methods_carried {rest : List (Method × Edit)} {done ms : List Method} (hw : file.pool.Whole)
    (hf : ∀ x ∈ rest, x.1.Fits file.pool) (hg : file.pool.Grown pool)
    (h : methods file rest pool done = .ok (ms, pool')) :
    ∃ tail, ms = done.reverse ++ tail ∧ pool.Grown pool' ∧
      List.Forall₂ (Carried file pool') rest tail := by
  induction rest generalizing pool done with
  | nil =>
    cases h
    exact ⟨[], (List.append_nil _).symm, .refl, .nil⟩
  | cons x rest ih =>
    obtain ⟨m, e⟩ := x
    have hrest := fun y hy => hf y (List.mem_cons_of_mem _ hy)
    rw [methods] at h
    by_cases hnone : e.isNone = true
    · rw [if_pos hnone] at h
      obtain ⟨tail, rfl, g, hall⟩ := ih hrest hg h
      refine ⟨m :: tail, by simp, g, .cons ?_ hall⟩
      rw [Carried, if_pos hnone]
    · rw [if_neg hnone] at h
      cases hmethod : method file m e pool with
      | error fault =>
        rw [hmethod] at h
        cases h
      | ok y =>
        obtain ⟨m', q⟩ := y
        rw [hmethod] at h
        obtain ⟨g, -⟩ := method_spec hw (hf (m, e) List.mem_cons_self) hg hmethod
        obtain ⟨tail, rfl, g', hall⟩ := ih hrest (hg.trans g) h
        refine ⟨m' :: tail, by simp, g.trans g', .cons ?_ hall⟩
        rw [Carried, if_neg hnone]
        exact ⟨pool, q, hg, hmethod, g'⟩

end Instrumentation

end ClassWeaver
