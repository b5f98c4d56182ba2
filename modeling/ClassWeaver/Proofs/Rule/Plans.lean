import Mathlib.Data.List.Induction
import ClassWeaver.Proofs.Basic
import ClassWeaver.Rule.Plan

namespace ClassWeaver

namespace Rule

def enterHook? (r : Rule) : Option Hook :=
  match r.action with
  | .enter hook => some hook
  | _ => none

def exitHook? (r : Rule) : Option Hook :=
  match r.action with
  | .exit hook => some hook
  | _ => none

end Rule

namespace Edit

variable {rs : List Rule} {r : Rule} {m : Method}

def ofRules (rs : List Rule) (m : Method) : Edit := (rs.filter (·.targets m)).foldl add none

lemma foldl_add (rs : List Rule) (e : Edit) :
    rs.foldl add e = {
      enter := e.enter ++ rs.filterMap Rule.enterHook?
      exit := e.exit ++ rs.filterMap Rule.exitHook?
      replacedBy := ((rs.filter (·.isReplacement)).getLast?.map (·.id)).or e.replacedBy
      rules := e.rules ++ rs.map (·.id) } := by
  induction rs using List.reverseRecOn with
  | nil => simp
  | append_singleton rs r ih =>
    rw [List.foldl_append, ih]
    cases haction : r.action with
    | enter hook => simp [add, haction, Rule.enterHook?, Rule.exitHook?, Rule.isReplacement]
    | exit hook => simp [add, haction, Rule.enterHook?, Rule.exitHook?, Rule.isReplacement]
    | replace => simp [add, haction, Rule.enterHook?, Rule.exitHook?, Rule.isReplacement]

lemma ofRules_eq (rs : List Rule) (m : Method) :
    ofRules rs m = {
      enter := (rs.filter (·.targets m)).filterMap Rule.enterHook?
      exit := (rs.filter (·.targets m)).filterMap Rule.exitHook?
      replacedBy := ((rs.filter (·.targets m)).filter (·.isReplacement)).getLast?.map (·.id)
      rules := (rs.filter (·.targets m)).map (·.id) } := by
  rw [ofRules, foldl_add]
  simp [none]

lemma isNone_ofRules : (ofRules rs m).isNone = false ↔ ∃ r ∈ rs, r.targets m = true := by
  rw [ofRules_eq, isNone, List.isEmpty_eq_false_iff]
  simp

lemma isSome_replacedBy : (ofRules rs m).replacedBy.isSome = true ↔
    ∃ r ∈ rs, r.targets m = true ∧ r.isReplacement = true := by
  rw [ofRules_eq]
  simp [and_comm]

lemma replacedBy_eq_none : (ofRules rs m).replacedBy = .none ↔
    ∀ r ∈ rs, r.targets m = true → r.isReplacement = false := by
  rw [← Option.not_isSome_iff_eq_none, isSome_replacedBy]
  simp

lemma isSome_clash? : ((ofRules rs m).clash? r).isSome = true ↔
    ∃ s ∈ rs, s.targets m = true ∧ (s.isReplacement = true ∨ r.isReplacement = true) := by
  unfold clash?
  split
  · next id hid =>
    obtain ⟨s, hs, htargets, hreplaces⟩ :=
      isSome_replacedBy.1 (Option.isSome_of_mem hid)
    exact iff_of_true rfl ⟨s, hs, htargets, .inl hreplaces⟩
  · next hkept =>
    split
    · next hr =>
      rw [ofRules_eq, List.isSome_head?, ← List.isEmpty_eq_false_iff]
      simp [hr]
    · next hr =>
      refine iff_of_false Bool.false_ne_true ?_
      rintro ⟨s, hs, htargets, h⟩
      rw [replacedBy_eq_none.1 hkept s hs htargets] at h
      exact h.elim Bool.false_ne_true hr

end Edit

namespace Plan

variable {p : Plan} {file : ClassFile} {rules : Ruleset} {rs : List Rule} {r : Rule} {id : String}

lemma knows_iff : p.knows id = true ↔ id ∈ p.file.appliedRules ++ p.newlyApplied := by
  simp [knows]

lemma find?_id (h : rules.find? id = some r) : r.id = id := by
  simpa using List.find?_some h

def ofRules (file : ClassFile) (rs : List Rule) : Plan := rs.foldl add (of file)

lemma ofRules_append (file : ClassFile) (rs ts : List Rule) :
    ofRules file (rs ++ ts) = ts.foldl add (ofRules file rs) := List.foldl_append

lemma ofRules_eq (file : ClassFile) (rs : List Rule) :
    ofRules file rs = {
      file
      edits := file.methods.map (Edit.ofRules rs)
      newlyApplied := (rs.filter fun r => file.methods.any r.targets).map (·.id) } := by
  induction rs using List.reverseRecOn with
  | nil => rfl
  | append_singleton rs r ih =>
    have hedits : List.zipWith (fun m e => if r.targets m then e.add r else e) file.methods
        (file.methods.map (Edit.ofRules rs)) = file.methods.map (Edit.ofRules (rs ++ [r])) := by
      rw [List.zipWith_map_right, List.zipWith_self]
      refine List.map_congr_left fun m _ => ?_
      rw [Edit.ofRules, Edit.ofRules, List.filter_append, List.foldl_append]
      by_cases htargets : r.targets m = true <;> simp [htargets]
    rw [ofRules_append, ih, List.foldl_cons, List.foldl_nil, add, hedits, List.filter_append]
    by_cases hany : file.methods.any r.targets = true <;> simp [hany]

end Plan

end ClassWeaver
