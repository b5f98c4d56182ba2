import ClassWeaver.Proofs.ClassFile.Costs
import ClassWeaver.Proofs.Rewriting.ChangedClass
import ClassWeaver.Proofs.Rewriting.Overflow

namespace ClassWeaver

open Read

def Method.HasBoundedTables (m : Method) : Prop :=
  ∀ index code, m.code = some (index, code) → code.HasBoundedTables

lemma Edit.not_overflows {e : Edit} {file : ClassFile} {m : Method} {pool : Pool}
    (fits : m.Fits file.pool) (count : pool.count ≤ Pool.maxSlots)
    (few : e.enter.length + e.exit.length ≤ 10922) (tables : m.HasBoundedTables) :
    ¬ e.Overflows file m pool := by
  rintro ⟨-, index, code, ins, pool', hcode, hgrow, hover⟩
  obtain ⟨-, -, -, -, -, -, -, codeFits, -⟩ := fits.exists_code hcode
  obtain ⟨-, hcalls⟩ := Instrumentation.insertion_calling count hgrow
  obtain ⟨hprologue, hepilogue⟩ := hcalls pool' (.refl pool')
  have hlengths := Nat.add_le_add hprologue.length_le hepilogue.length_le
  exact Code.not_overflows codeFits.length_le (by omega) (tables index code hcode) hover

lemma Edit.hooks_add_le (e : Edit) (r : Rule) :
    (e.add r).enter.length + (e.add r).exit.length ≤ e.enter.length + e.exit.length + 1 := by
  unfold add
  cases r.action <;> simp <;> omega

namespace Plan

variable {p q : Plan} {rules : Ruleset} {n : Nat}

/-- No more than `n` rules have been added to the plan. -/
structure AsksFor (n : Nat) (p : Plan) : Prop where
  hooks : ∀ e ∈ p.edits, e.enter.length + e.exit.length ≤ n
  rules : p.newlyApplied.length ≤ n

lemma AsksFor.mono {m : Nat} (h : p.AsksFor n) (hle : n ≤ m) : p.AsksFor m :=
  ⟨fun e he => (h.hooks e he).trans hle, h.rules.trans hle⟩

lemma AsksFor.add (h : p.AsksFor n) (r : Rule) : (p.add r).AsksFor (n + 1) where
  hooks e he := by
    obtain ⟨i, hi, rfl⟩ := List.getElem_of_mem he
    have hi' : i < p.edits.length := (Nat.lt_min.1 (List.length_zipWith ▸ hi)).2
    have hle := h.hooks _ (List.getElem_mem hi')
    simp only [Plan.add, List.getElem_zipWith]
    split
    · exact (Edit.hooks_add_le _ r).trans (Nat.add_le_add_right hle 1)
    · exact hle.trans (Nat.le_add_right n 1)
  rules := by
    have hle := h.rules
    unfold Plan.add
    dsimp only
    split <;> simp <;> omega

lemma AsksFor.applyAll {ids : List String} (h : p.AsksFor n)
    (happly : p.applyAll rules ids = .ok q) : q.AsksFor (n + ids.length) := by
  induction ids generalizing p n with
  | nil =>
    cases happly
    exact h
  | cons id ids ih =>
    rw [Plan.applyAll] at happly
    split at happly
    · cases happly
    next mid hmid =>
    rw [List.length_cons]
    rcases Plan.apply_eq_ok hmid with rfl | ⟨r, rfl⟩
    · exact (ih h happly).mono (by omega)
    · exact (ih (h.add r) happly).mono (by omega)

end Plan

namespace ClassFile

variable {pool : Pool}

lemma length_le_of_readBody {a : Attribute} {pos : Nat} {rules : List String}
    (h : a.readBody pos (readMarker pool) = .ok rules) : rules.length ≤ a.body.length := by
  have hitem : Spends (do Read.lift (pool.utf8 (← Read.u16 "marker attribute")) : Read String)
      fun _ => 1 :=
    (spends_u16 _).bind fun index r text r' h => by
      simpa using bounded_lift _ r text r' h
  have hrules : Spends (readMarker pool) List.length := by
    refine (spends_u16 _).bind fun n r rules r' h => ?_
    have hle := hitem.times n.toNat r rules r' h
    rw [total_one] at hle
    dsimp only
    omega
  exact hrules.runAt h

lemma length_rules_le {as : List (Nat × Attribute)} {annotations applied : List (List String)}
    {x : List String × List String}
    (hx : readClassAttributes pool as annotations applied = .ok x) :
    x.2.length ≤ total List.length applied + total (fun a => a.2.body.length) as := by
  induction as generalizing annotations applied with
  | nil =>
    cases hx
    dsimp only
    rw [length_flatten, total_reverse]
    exact Nat.le_add_right _ _
  | cons a as ih =>
    obtain ⟨pos, a⟩ := a
    rw [total_cons]
    rw [readClassAttributes] at hx
    split at hx
    · split at hx
      · cases hx
      · have := ih hx
        omega
    · split at hx
      · split at hx
        · cases hx
        next rules hrules =>
          have hle := ih hx
          have hbody := length_le_of_readBody hrules
          rw [total_cons] at hle
          dsimp only
          omega
      · have := ih hx
        omega

lemma length_appliedRules_le {bytes : Bytes} {c : ClassFile} (h : parse bytes = .ok c) :
    c.appliedRules.length ≤ bytes.length := by
  obtain ⟨-, fits, rfl⟩ := parse_iff.1 h
  have hle := length_rules_le fits.content
  have hsizes : total (fun a => a.2.size) (Attribute.place 0 c.attributes) =
      total Attribute.size c.attributes := by
    have hplaced := Attribute.place_map_snd 0 c.attributes
    exact (total_map _ _ _).symm.trans (congrArg _ hplaced)
  have hbody : ∀ a : Nat × Attribute, a.2.body.length ≤ a.2.size := fun a => Nat.le_add_left _ _
  have hbodies := total_le_total _ hbody (Attribute.place 0 c.attributes)
  simp only [encode, List.length_append, Attribute.length_encodeAll, Attribute.sizeAll]
  simp only [total_nil] at hle
  omega

end ClassFile

lemma Plan.not_overflows {p : Plan} (whole : p.file.pool.Whole) (fits : p.file.Fits)
    (asks : p.AsksFor 10922) (tables : ∀ m ∈ p.file.methods, m.HasBoundedTables)
    (applied : p.file.appliedRules.length ≤ 1073741824)
    (attributes : p.file.attributes.length < 65535) : ¬ p.Overflows := by
  rintro ⟨-, ⟨before, m, e, after, ms, pool, hsplit, hdone, -, hover⟩ |
    ⟨ms, pool, m, pool', -, -, hrules | hcount⟩⟩
  · have hmem : ∀ x ∈ before ++ [(m, e)], x.1 ∈ p.file.methods ∧ x.2 ∈ p.edits := by
      intro x hx
      refine List.of_mem_zip ?_
      rw [hsplit, ← List.singleton_append, ← List.append_assoc]
      exact List.mem_append_left _ hx
    obtain ⟨hm, he⟩ := hmem (m, e) (by simp)
    have hfits : ∀ x ∈ before, x.1.Fits p.file.pool := fun x hx =>
      fits.methods.2 x.1 (hmem x (List.mem_append_left _ hx)).1
    obtain ⟨-, -, grown, -⟩ := Instrumentation.methods_carried whole hfits .refl hdone
    exact Edit.not_overflows (fits.methods.2 m hm) (grown.count_le whole.count_le)
      (asks.hooks e he) (tables m hm) hover
  · have hnew := asks.rules
    rw [List.length_append] at hrules
    omega
  · have hle := List.length_filter_le (·.name != ClassFile.markerName) p.file.attributes
    omega

end ClassWeaver
