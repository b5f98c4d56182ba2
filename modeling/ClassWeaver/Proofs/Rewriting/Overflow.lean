import ClassWeaver.Proofs.Code.Overflow
import ClassWeaver.Proofs.Rewriting.Edits

namespace ClassWeaver

def Edit.Overflows (e : Edit) (file : ClassFile) (m : Method) (pool : Pool) : Prop :=
  e.replacedBy.isNone = true ∧ ∃ index code ins pool', m.code = some (index, code) ∧
    Instrumentation.grow
      (Instrumentation.insertion (file.dottedName ++ ("#" ++ m.signature)) e) pool =
        .ok (ins, pool') ∧
    code.Overflows ins

namespace Instrumentation

variable {file : ClassFile} {m : Method} {e : Edit} {pool : Pool}

lemma body_eq_overflow_iff {code : Code} : body file m code e pool = .error .overflow ↔
    e.replacedBy.isNone = true ∧ ∃ ins pool',
      grow (insertion (file.dottedName ++ ("#" ++ m.signature)) e) pool = .ok (ins, pool') ∧
        code.Overflows ins := by
  unfold body
  split
  · next hreplaced =>
    obtain ⟨id, hid⟩ := Option.isSome_iff_exists.1 hreplaced
    rw [bind_eq_error_iff, or_iff_right mapError_fault_ne_overflow, hid]
    refine iff_of_false ?_ (by simp)
    rintro ⟨c, -, h⟩
    cases h
  · next hreplaced =>
    rw [and_iff_right (by simpa using hreplaced), bind_eq_error_iff,
      or_iff_right mapError_fault_ne_overflow]
    simp only [mapError_eq_ok_iff, Prod.exists]
    refine exists_congr fun ins => exists_congr fun pool' => and_congr_right fun _ => ?_
    rw [bind_eq_error_iff, Code.relocate_eq_overflow_iff]
    exact or_iff_left fun ⟨b, _, h⟩ => by cases h

lemma method_eq_overflow_iff :
    method file m e pool = .error .overflow ↔ e.Overflows file m pool := by
  unfold method Edit.Overflows
  cases m.code with
  | none => simp
  | some x =>
    obtain ⟨index, code⟩ := x
    dsimp only
    rw [bind_eq_error_iff, body_eq_overflow_iff, or_iff_left]
    · simp
    rintro ⟨⟨b, q⟩, -, h⟩
    obtain h | ⟨depth, -, h⟩ := bind_eq_error_iff.1 h
    · exact mapError_fault_ne_overflow h
    · cases h

lemma methods_eq_overflow_iff {rest : List (Method × Edit)} {done : List Method} :
    methods file rest pool done = .error .overflow ↔ ∃ before m e after ms q,
      rest = before ++ (m, e) :: after ∧ methods file before pool done = .ok (ms, q) ∧
        e.isNone = false ∧ e.Overflows file m q := by
  induction rest generalizing pool done with
  | nil => simp [methods]
  | cons x rest ih =>
    obtain ⟨m, e⟩ := x
    have skip : ∀ {q : Pool} {ms : List Method},
        (∀ before, methods file ((m, e) :: before) pool done = methods file before q ms) →
        ¬ (e.isNone = false ∧ e.Overflows file m pool) →
        (methods file ((m, e) :: rest) pool done = .error .overflow ↔
          ∃ before m' e' after ms q, (m, e) :: rest = before ++ (m', e') :: after ∧
            methods file before pool done = .ok (ms, q) ∧ e'.isNone = false ∧
              e'.Overflows file m' q) := by
      intro q ms hstep hnot
      rw [hstep, ih]
      constructor
      · rintro ⟨before, m', e', after, ms', q', rfl, hbefore, hover⟩
        exact ⟨(m, e) :: before, m', e', after, ms', q', rfl, (hstep before).trans hbefore, hover⟩
      · rintro ⟨before, m', e', after, ms', q', hsplit, hbefore, hover⟩
        cases before with
        | nil =>
          cases hsplit
          cases hbefore
          exact absurd hover hnot
        | cons y before =>
          cases hsplit
          exact ⟨before, m', e', after, ms', q', rfl, (hstep before).symm.trans hbefore, hover⟩
    by_cases hnone : e.isNone = true
    · exact skip (fun before => by rw [methods, if_pos hnone]) (by simp [hnone])
    have hedit : e.isNone = false := by simpa using hnone
    cases hmethod : method file m e pool with
    | ok y =>
      obtain ⟨m', q⟩ := y
      refine skip (fun before => by rw [methods, if_neg hnone, hmethod]) ?_
      rintro ⟨-, hover⟩
      rw [method_eq_overflow_iff.2 hover] at hmethod
      cases hmethod
    | error abort =>
      have hfails : ∀ before, methods file ((m, e) :: before) pool done =
          .error (abort.map (InstrumentationFault.mk file.dottedName m.signature)) :=
        fun before => by rw [methods, if_neg hnone, hmethod]
      rw [hfails]
      constructor
      · intro h
        cases abort with
        | fault fault => cases h
        | overflow =>
          exact ⟨[], m, e, rest, done.reverse, pool, rfl, rfl, hedit,
            method_eq_overflow_iff.1 hmethod⟩
      · rintro ⟨before, m', e', after, ms', q', hsplit, hbefore, -, hover⟩
        cases before with
        | nil =>
          cases hsplit
          cases hbefore
          rw [method_eq_overflow_iff.2 hover] at hmethod
          cases hmethod
          rfl
        | cons y before =>
          cases hsplit
          rw [hfails] at hbefore
          cases hbefore

end Instrumentation

open Instrumentation in
/-- An edit overflows; or all edits are carried out and the marker is made, but its length is no word
of 32 bits, or there are 65535 attributes beside it, so that it cannot be counted in one of 16. -/
def Plan.Overflows (p : Plan) : Prop :=
  p.hasEdits = true ∧
    ((∃ before m e after ms pool, p.file.methods.zip p.edits = before ++ (m, e) :: after ∧
        methods p.file before p.file.pool [] = .ok (ms, pool) ∧ e.isNone = false ∧
          e.Overflows p.file m pool) ∨
      ∃ ms pool m pool',
        methods p.file (p.file.methods.zip p.edits) p.file.pool [] = .ok (ms, pool) ∧
        grow (marker (p.file.appliedRules ++ p.newlyApplied)) pool = .ok (m, pool') ∧
        (2147483647 ≤ (p.file.appliedRules ++ p.newlyApplied).length % 4294967296 ∨
          (p.file.attributes.filter (·.name != ClassFile.markerName)).length = 65535))

theorem Plan.carryOut_eq_overflow_iff {p : Plan} (hcount : p.file.attributes.length < 65536) :
    p.carryOut = .error .overflow ↔ p.Overflows := by
  unfold carryOut Overflows
  cases hedits : p.hasEdits with
  | false => simp
  | true =>
    rw [Bool.not_true, if_neg Bool.false_ne_true, and_iff_right rfl, bind_eq_error_iff,
      Instrumentation.methods_eq_overflow_iff]
    refine or_congr_right ?_
    rw [Prod.exists]
    refine exists_congr fun ms => exists_congr fun pool => ?_
    simp only [exists_and_left]
    refine and_congr_right fun _ => ?_
    cases Instrumentation.grow
        (Instrumentation.marker (p.file.appliedRules ++ p.newlyApplied)) pool with
    | error fault => simp
    | ok x =>
      obtain ⟨m, pool'⟩ := x
      have hfew := List.length_filter_le (·.name != ClassFile.markerName) p.file.attributes
      have hcond : (UInt32.size ≤ 2 + 2 * (UInt32.ofNat
            (p.file.appliedRules ++ p.newlyApplied).length).toNat ∨
          UInt16.size ≤ (UInt16.ofNat
            (p.file.attributes.filter (·.name != ClassFile.markerName)).length).toNat + 1) ↔
          (2147483647 ≤ (p.file.appliedRules ++ p.newlyApplied).length % 4294967296 ∨
            (p.file.attributes.filter (·.name != ClassFile.markerName)).length = 65535) := by
        rw [UInt32.toNat_ofNat', UInt16.toNat_ofNat', UInt32.size, UInt16.size]
        omega
      dsimp only
      split
      · next h => simpa using hcond.1 h
      · next h => simpa [pure, Except.pure] using mt hcond.2 h

end ClassWeaver
