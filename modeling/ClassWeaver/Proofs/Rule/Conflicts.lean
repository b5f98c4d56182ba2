import Mathlib.Data.List.Nodup
import Mathlib.Data.List.Pairwise
import ClassWeaver.Proofs.ClassFile.RoundTrip
import ClassWeaver.Proofs.Rule.Plans

/-! Rules get into each other's way exactly when two of them are for one method and at least one of
these replaces its body, whatever their order is. Otherwise each method gets what all rules for it
ask for. -/

namespace ClassWeaver

def Rule.Clashes (m : Method) (r s : Rule) : Prop :=
  r.targets m = true ∧ s.targets m = true ∧ (r.isReplacement = true ∨ s.isReplacement = true)

lemma Rule.Clashes.symm {m : Method} {r s : Rule} (h : r.Clashes m s) : s.Clashes m r :=
  ⟨h.2.1, h.1, h.2.2.symm⟩

def Ruleset.named (rules : Ruleset) (ids : List String) : List Rule := ids.filterMap rules.find?

structure Edit.Gathers (rs : List Rule) (m : Method) (e : Edit) : Prop where
  isNone : e.isNone = false ↔ ∃ r ∈ rs, r.targets m = true
  enter : e.enter = (rs.filter (·.targets m)).filterMap Rule.enterHook?
  exit : e.exit = (rs.filter (·.targets m)).filterMap Rule.exitHook?
  replacedBy : ∀ id, e.replacedBy = some id ↔
    ∃ r ∈ rs, r.targets m = true ∧ r.isReplacement = true ∧ r.id = id
  rules : e.rules = (rs.filter (·.targets m)).map (·.id)

namespace Plan

variable {file : ClassFile} {rules : Ruleset} {ids : List String} {rs : List Rule} {r s : Rule}

def Compatible (file : ClassFile) (rs : List Rule) : Prop :=
  rs.Pairwise fun r s => ∀ m ∈ file.methods, ¬ r.Clashes m s

lemma isSome_conflict? : ((ofRules file rs).conflict? r).isSome = true ↔
    ∃ m ∈ file.methods, ∃ s ∈ rs, s.Clashes m r := by
  rw [conflict?, ofRules_eq, List.findSome?_isSome_iff, ← List.map_prod_left_eq_zip]
  simp only [List.mem_map, exists_exists_and_eq_and]
  refine exists_congr fun m => and_congr_right fun _ => ?_
  by_cases htargets : r.targets m = true
  · rw [if_pos htargets, Option.isSome_map, Edit.isSome_clash?]
    simp only [Rule.Clashes, htargets, true_and]
  · rw [if_neg htargets]
    refine iff_of_false Bool.false_ne_true ?_
    rintro ⟨s, -, -, h, -⟩
    exact htargets h

lemma knows_ofRules {id : String} (fresh : id ∉ file.appliedRules) (new : id ∉ rs.map (·.id)) :
    (ofRules file rs).knows id = false := by
  rw [Bool.eq_false_iff, ne_eq, knows_iff, ofRules_eq, List.mem_append]
  rintro (h | h)
  · exact fresh h
  · exact new (List.map_subset _ (List.filter_subset_self _) h)

lemma apply_cases_of_new {id : String} (hr : rules.find? id = some r)
    (new : (ofRules file rs).knows id = false) (free : Compatible file rs) :
    (Compatible file (rs ++ [r]) ∧
      (ofRules file rs).apply rules id = .ok (ofRules file (rs ++ [r]))) ∨
    (¬ Compatible file (rs ++ [r]) ∧ ∃ c, (ofRules file rs).apply rules id = .error c) := by
  unfold apply
  rw [hr]
  simp only [new, Bool.false_eq_true, if_false]
  cases hconflict : (ofRules file rs).conflict? r with
  | some c =>
    obtain ⟨m, hm, s, hs, hclash⟩ := isSome_conflict?.1 (Option.isSome_of_mem hconflict)
    refine .inr ⟨fun h => ?_, c, rfl⟩
    exact (List.pairwise_append.1 h).2.2 s hs r (List.mem_singleton_self r) m hm hclash
  | none =>
    refine .inl ⟨List.pairwise_append.2 ⟨free, List.pairwise_singleton _ _, ?_⟩, ?_⟩
    · rintro s hs t ht m hm hclash
      rw [List.mem_singleton.1 ht] at hclash
      have h := isSome_conflict?.2 ⟨m, hm, s, hs, hclash⟩
      rw [hconflict] at h
      cases h
    · rw [ofRules_append]
      rfl

lemma applyAll_cases (free : Compatible file rs) (nodup : ids.Nodup)
    (fresh : ∀ id ∈ ids, id ∉ file.appliedRules) (new : ∀ id ∈ ids, id ∉ rs.map (·.id)) :
    (Compatible file (rs ++ rules.named ids) ∧
      (ofRules file rs).applyAll rules ids = .ok (ofRules file (rs ++ rules.named ids))) ∨
    (¬ Compatible file (rs ++ rules.named ids) ∧
      ∃ c, (ofRules file rs).applyAll rules ids = .error c) := by
  -- the plan stays the one that `rs` lead to, and `rs` grows by each rule that is found
  induction ids generalizing rs with
  | nil =>
    rw [Ruleset.named, List.filterMap_nil, List.append_nil]
    exact .inl ⟨free, rfl⟩
  | cons id ids ih =>
    rw [List.nodup_cons] at nodup
    rw [List.forall_mem_cons] at fresh new
    rw [applyAll, Ruleset.named, List.filterMap_cons]
    cases hr : rules.find? id with
    | none =>
      have hsame : (ofRules file rs).apply rules id = .ok (ofRules file rs) := by
        rw [apply, hr]
      rw [hsame]
      exact ih free nodup.2 fresh.2 new.2
    | some r =>
      have hknows := knows_ofRules fresh.1 new.1
      rcases apply_cases_of_new hr hknows free with ⟨free', hok⟩ | ⟨clash, c, herror⟩
      · rw [hok, List.append_cons]
        refine ih free' nodup.2 fresh.2 fun id' hid' => ?_
        rw [List.map_append, List.mem_append, List.map_singleton, List.mem_singleton, find?_id hr]
        rintro (h | rfl)
        · exact new.2 id' hid' h
        · exact nodup.1 hid'
      · rw [herror]
        refine .inr ⟨fun h => clash ?_, c, rfl⟩
        rw [List.append_cons] at h
        exact (List.pairwise_append.1 h).1

lemma nodup_named (nodup : ids.Nodup) : (rules.named ids).Nodup := by
  refine nodup.filterMap fun id id' r hr hr' => ?_
  rw [← find?_id (Option.mem_def.1 hr), find?_id (Option.mem_def.1 hr')]

lemma compatible_iff (nodup : rs.Nodup) : Compatible file rs ↔
    ∀ r ∈ rs, ∀ s ∈ rs, r ≠ s → ∀ m ∈ file.methods, ¬ r.Clashes m s := by
  have : Std.Symm fun r s : Rule => ∀ m ∈ file.methods, ¬ r.Clashes m s :=
    ⟨fun _ _ h m hm hclash => h m hm hclash.symm⟩
  exact ⟨fun h r hr s hs hne => h.forall hr hs hne, nodup.pairwise_of_forall_ne⟩

lemma replacedBy_eq_some_iff {m : Method} {id : String} (nodup : rs.Nodup)
    (free : Compatible file rs) (hm : m ∈ file.methods) :
    (Edit.ofRules rs m).replacedBy = some id ↔
      ∃ r ∈ rs, r.targets m = true ∧ r.isReplacement = true ∧ r.id = id := by
  have hmem (r : Rule) : r ∈ (rs.filter (·.targets m)).filter (·.isReplacement) ↔
      r ∈ rs ∧ r.targets m = true ∧ r.isReplacement = true := by
    rw [List.mem_filter, List.mem_filter, and_assoc]
  rw [Edit.ofRules_eq, Option.map_eq_some_iff]
  constructor
  · rintro ⟨r, hr, hid⟩
    obtain ⟨hr, htargets, hreplaces⟩ := (hmem r).1 (List.mem_of_getLast? hr)
    exact ⟨r, hr, htargets, hreplaces, hid⟩
  · rintro ⟨r, hr, htargets, hreplaces, hid⟩
    -- the last of the rules that replace the body would clash with any other of them
    have hne := List.ne_nil_of_mem ((hmem r).2 ⟨hr, htargets, hreplaces⟩)
    refine ⟨_, List.getLast?_eq_some_getLast hne, ?_⟩
    obtain ⟨hs, htargets', hreplaces'⟩ := (hmem _).1 (List.getLast_mem hne)
    by_contra hother
    refine (compatible_iff nodup).1 free r hr _ hs ?_ m hm ⟨htargets, htargets', .inl hreplaces⟩
    rintro he
    rw [← he] at hother
    exact hother hid

lemma gathers_ofRules {m : Method} (nodup : rs.Nodup) (free : Compatible file rs)
    (hm : m ∈ file.methods) : Edit.Gathers rs m (Edit.ofRules rs m) where
  isNone := Edit.isNone_ofRules
  enter := by rw [Edit.ofRules_eq]
  exit := by rw [Edit.ofRules_eq]
  replacedBy _ := replacedBy_eq_some_iff nodup free hm
  rules := by rw [Edit.ofRules_eq]

lemma hasEdits_ofRules :
    (ofRules file rs).hasEdits = true ↔ (ofRules file rs).newlyApplied ≠ [] := by
  have hedits : (ofRules file rs).hasEdits = true ↔
      ∃ m ∈ file.methods, ∃ r ∈ rs, r.targets m = true := by
    rw [ofRules_eq, hasEdits]
    simp only [List.any_map, List.any_eq_true, Function.comp_apply, Bool.not_eq_true',
      Edit.isNone_ofRules]
  have hnew : (ofRules file rs).newlyApplied ≠ [] ↔
      ∃ r ∈ rs, ∃ m ∈ file.methods, r.targets m = true := by
    rw [ofRules_eq]
    simp
  rw [hedits, hnew]
  constructor
  · rintro ⟨m, hm, r, hr, htargets⟩
    exact ⟨r, hr, m, hm, htargets⟩
  · rintro ⟨r, hr, m, hm, htargets⟩
    exact ⟨m, hm, r, hr, htargets⟩

lemma applyAll_of_cases (nodup : ids.Nodup) (fresh : ∀ id ∈ ids, id ∉ file.appliedRules) :
    (Compatible file (rules.named ids) ∧
      (of file).applyAll rules ids = .ok (ofRules file (rules.named ids))) ∨
    (¬ Compatible file (rules.named ids) ∧ ∃ c, (of file).applyAll rules ids = .error c) :=
  applyAll_cases .nil nodup fresh nofun

lemma applyAll_fails_iff (nodup : ids.Nodup) (fresh : ∀ id ∈ ids, id ∉ file.appliedRules) :
    (∃ c, (of file).applyAll rules ids = .error c) ↔
      ∃ m ∈ file.methods, ∃ r ∈ rules.named ids, ∃ s ∈ rules.named ids, r ≠ s ∧ r.Clashes m s := by
  have hcompatible : Compatible file (rules.named ids) ↔ _ := compatible_iff (nodup_named nodup)
  rcases applyAll_of_cases nodup fresh with ⟨free, hok⟩ | ⟨clash, herror⟩
  · refine iff_of_false ?_ ?_
    · rintro ⟨c, herror⟩
      rw [hok] at herror
      cases herror
    · rintro ⟨m, hm, r, hr, s, hs, hne, hclash⟩
      exact hcompatible.1 free r hr s hs hne m hm hclash
  · refine iff_of_true herror ?_
    rw [hcompatible] at clash
    push Not at clash
    obtain ⟨r, hr, s, hs, hne, m, hm, hclash⟩ := clash
    exact ⟨m, hm, r, hr, s, hs, hne, hclash⟩

/-- Rules that a class does not know yet meet a conflict exactly if two of them clash on one of its
methods. If none do, the methods are edited that some rule is for, and the class is told of the
rules that are for some method. -/
theorem applyAll_conflicts_iff (nodup : ids.Nodup) (fresh : ∀ id ∈ ids, id ∉ file.appliedRules) :
    ((∃ c, (Plan.of file).applyAll rules ids = .error c) ↔
      ∃ m ∈ file.methods, ∃ r ∈ rules.named ids, ∃ s ∈ rules.named ids, r ≠ s ∧ r.Clashes m s) ∧
    (∀ ids' : List String, ids'.Perm ids →
      ((∃ c, (Plan.of file).applyAll rules ids' = .error c) ↔
        ∃ c, (Plan.of file).applyAll rules ids = .error c)) ∧
    (∀ p, (Plan.of file).applyAll rules ids = .ok p →
      p.file = file ∧
      List.Forall₂ (Edit.Gathers (rules.named ids)) file.methods p.edits ∧
      p.newlyApplied =
        ((rules.named ids).filter fun r => file.methods.any r.targets).map (·.id) ∧
      (p.hasEdits = true ↔ p.newlyApplied ≠ [])) := by
  refine ⟨applyAll_fails_iff nodup fresh, fun ids' hperm => ?_, fun p hp => ?_⟩
  · have hmem (r : Rule) : r ∈ rules.named ids' ↔ r ∈ rules.named ids :=
      (hperm.filterMap rules.find?).mem_iff
    rw [applyAll_fails_iff (hperm.nodup_iff.2 nodup) fun id hid => fresh id (hperm.mem_iff.1 hid),
      applyAll_fails_iff nodup fresh]
    simp only [hmem]
  · obtain ⟨free, hok⟩ | ⟨-, c, herror⟩ := @applyAll_of_cases file rules ids nodup fresh
    · rw [hok] at hp
      cases hp
      rw [hasEdits_ofRules, ofRules_eq]
      refine ⟨rfl, ?_, rfl, Iff.rfl⟩
      rw [List.forall₂_map_right_iff, List.forall₂_same]
      intro m hm
      exact gathers_ofRules (nodup_named nodup) free hm
    · rw [herror] at hp
      cases hp

end Plan

namespace Sample

def entering : Rule := ⟨"in", .named "A", .default, .enter ⟨"h", "e"⟩⟩

def replacing : Rule := ⟨"swap", .named "A", .default, .replace⟩

def exclusive : Ruleset :=
  ⟨[entering, replacing, ⟨"out", .named "A", .default, .exit ⟨"h", "x"⟩⟩]⟩

end Sample

theorem Plan.applyAll_conflicts_iff_sample :
    ["in", "swap"].Nodup ∧ (∀ id ∈ ["in", "swap"], id ∉ Sample.file.appliedRules) ∧
    (∃ c, (Plan.of Sample.file).applyAll Sample.exclusive ["swap", "in"] = .error c) ∧
    ["in", "out"].Nodup ∧ (∀ id ∈ ["in", "out"], id ∉ Sample.file.appliedRules) ∧
    ∃ p, (Plan.of Sample.file).applyAll Sample.exclusive ["in", "out"] = .ok p ∧
      (p.hasEdits = true ↔ p.newlyApplied ≠ []) := by
  have hin : ["in", "swap"].Nodup := by decide
  have hout : ["in", "out"].Nodup := by decide
  have freshIn : ∀ id ∈ ["in", "swap"], id ∉ Sample.file.appliedRules := by decide
  have freshOut : ∀ id ∈ ["in", "out"], id ∉ Sample.file.appliedRules := by decide
  obtain ⟨hconflict, hperm, -⟩ :=
    @applyAll_conflicts_iff Sample.file Sample.exclusive _ hin freshIn
  obtain ⟨-, -, hfree⟩ := @applyAll_conflicts_iff Sample.file Sample.exclusive _ hout freshOut
  have clash : ∃ m ∈ Sample.file.methods, ∃ r ∈ Sample.exclusive.named ["in", "swap"],
      ∃ s ∈ Sample.exclusive.named ["in", "swap"], r ≠ s ∧ r.Clashes m s := by
    refine ⟨Sample.method, List.mem_singleton_self _, Sample.entering, by decide +kernel,
      Sample.replacing, by decide +kernel, by decide, ?_⟩
    exact ⟨by decide +kernel, by decide +kernel, .inr rfl⟩
  obtain ⟨p, hp⟩ : ∃ p, (Plan.of Sample.file).applyAll Sample.exclusive ["in", "out"] = .ok p :=
    ⟨⟨Sample.file, [⟨[⟨"h", "e"⟩], [⟨"h", "x"⟩], none, ["in", "out"]⟩], ["in", "out"]⟩,
      by decide +kernel⟩
  exact ⟨hin, freshIn, (hperm ["swap", "in"] (.swap "in" "swap" [])).2 (hconflict.2 clash), hout,
    freshOut, p, hp, (hfree p hp).2.2.2⟩

end ClassWeaver
