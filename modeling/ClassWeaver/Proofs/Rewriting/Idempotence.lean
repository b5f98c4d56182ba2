import ClassWeaver.Proofs.Rewriting.ChangedClass
import ClassWeaver.Proofs.Rule.Plans
import ClassWeaver.Weaving

/-! The stage on its own output. A class that was changed chooses the same rules and the same methods
as before, and its marker keeps each rule from being applied once more. -/

namespace ClassWeaver

open Read

section Alike

variable {p q : Pool}

def Attribute.Alike (a b : Attribute) : Prop := b.name = a.name ∧ (a.name ≠ "Code" → b = a)

lemma Method.Content.ofAttributes_alike (hq : p.Extends q) {signature signature' : String}
    {index : Nat} {as bs : List (Nat × Attribute)}
    (hab : List.Forall₂ (fun x y => x.2.Alike y.2) as bs) {c d c' d' : Content}
    (hc : ofAttributes p signature index as c = .ok c')
    (hd : ofAttributes q signature' index bs d = .ok d') (ha : d.annotations = c.annotations)
    (hs : d.code.isSome = c.code.isSome) :
    d'.annotations = c'.annotations ∧ d'.code.isSome = c'.code.isSome := by
  induction hab generalizing index c d with
  | nil =>
    cases hc
    cases hd
    exact ⟨ha, hs⟩
  | @cons x y as bs hxy _ ih =>
    obtain ⟨pos, a⟩ := x
    obtain ⟨pos', b⟩ := y
    obtain ⟨hname, hsame⟩ := hxy
    obtain ⟨mid, hm, htail⟩ := ofAttributes_cons_iff.1 hc
    obtain ⟨mid', hm', htail'⟩ := ofAttributes_cons_iff.1 hd
    dsimp only at hname hsame
    by_cases hcode : a.name = "Code"
    · obtain ⟨code, -, -, rfl⟩ := (include_code_iff hcode).1 hm
      obtain ⟨code', -, -, rfl⟩ := (include_code_iff (hname.trans hcode)).1 hm'
      exact ih htail htail' ha rfl
    · obtain rfl := hsame hcode
      rw [include_other_iff hcode] at hm hm'
      by_cases hp : Annotations.arePresent b.name = true
      · rw [if_pos hp] at hm hm'
        obtain ⟨types, ht, rfl⟩ := hm
        obtain ⟨types', ht', rfl⟩ := hm'
        rw [Attribute.readBody, (Annotations.carries_readTypes hq).runAt ht _] at ht'
        cases ht'
        exact ih htail htail' (congrArg (types :: ·) ha) hs
      · rw [if_neg hp] at hm hm'
        rw [hm] at htail
        rw [hm'] at htail'
        exact ih htail htail' ha hs

structure Method.SameShape (m m' : Method) : Prop where
  accessFlags : m'.accessFlags = m.accessFlags
  name : m'.name = m.name
  descriptor : m'.descriptor = m.descriptor
  annotations : m'.annotations = m.annotations
  hasCode : m'.code.isSome = m.code.isSome

lemma Method.SameShape.refl (m : Method) : m.SameShape m := ⟨rfl, rfl, rfl, rfl, rfl⟩

lemma Rule.targets_of_sameShape {m m' : Method} (h : m.SameShape m') (r : Rule) :
    r.targets m' = r.targets m := by
  simp only [targets, Selector.accepts, Method.isAbstract, Method.isNative,
    Method.isConstructor, h.accessFlags, h.name, h.descriptor, h.annotations, h.hasCode]

lemma Method.Recoded.sameShape {m m' : Method} (h : m.Recoded m') (hq : p.Extends q)
    (hm : m.Fits p) (hm' : m'.Fits q) : m.SameShape m' := by
  obtain ⟨hflags, hn, hd, before, a, body, after, hold, ha, -, hnew⟩ := h
  have hname : m'.name = m.name := by
    have := hm'.name
    rw [hn, hq.utf8 hm.name] at this
    exact (Except.ok.inj this).symm
  have hdescriptor : m'.descriptor = m.descriptor := by
    have := hm'.descriptor
    rw [hd, hq.utf8 hm.descriptor] at this
    exact (Except.ok.inj this).symm
  have halike : List.Forall₂ Attribute.Alike m.attributes m'.attributes := by
    rw [hold, hnew]
    exact List.rel_append (List.forall₂_same.2 fun _ _ => ⟨rfl, fun _ => rfl⟩)
      (.cons ⟨rfl, fun h => absurd ha h⟩ (List.forall₂_same.2 fun _ _ => ⟨rfl, fun _ => rfl⟩))
  rw [← Attribute.place_map_snd 0 m.attributes, ← Attribute.place_map_snd 0 m'.attributes,
    List.forall₂_map_left_iff, List.forall₂_map_right_iff] at halike
  obtain ⟨types, ht, hc⟩ := hm.content
  obtain ⟨types', ht', hc'⟩ := hm'.content
  obtain ⟨hann, hcode⟩ := Content.ofAttributes_alike hq halike hc hc' rfl rfl
  dsimp only at hann hcode
  exact ⟨hflags, hname, hdescriptor, by rw [ht, ht', hann], hcode⟩

end Alike

namespace Plan

variable {file c : ClassFile} {p q : Plan} {rules : Ruleset} {id : String} {ids : List String}

lemma sameShape_of_makes {pool : Pool} {edits : List Edit} {methods : List Method}
    (hq : file.pool.Extends pool) (hf : ∀ m ∈ file.methods, m.Fits file.pool)
    (hms : ∀ m ∈ methods, m.Fits pool) (hlen : edits.length = file.methods.length)
    (h : List.Forall₂ (fun x m => x.2.Makes x.1 m) (file.methods.zip edits) methods) :
    List.Forall₂ Method.SameShape file.methods methods := by
  have hzip : file.methods = (file.methods.zip edits).map Prod.fst := by
    rw [List.map_fst_zip (Nat.le_of_eq hlen.symm)]
  have hold := (List.forall₂_and_left _ _).2 ⟨fun x hx => hf x.1 (List.of_mem_zip hx).1, h⟩
  have hboth := (List.forall₂_and_left _ _).2 ⟨hms, hold.flip⟩
  rw [hzip, List.forall₂_map_left_iff]
  refine hboth.flip.imp ?_
  rintro x m ⟨hm, hx, hmakes⟩
  rw [Edit.Makes] at hmakes
  split at hmakes
  · exact hmakes ▸ .refl m
  · exact hmakes.sameShape hq hx hm

lemma targets_of_sameShape {ms ms' : List Method} (h : List.Forall₂ Method.SameShape ms ms')
    {r : Rule} (hr : ∀ m ∈ ms, r.targets m = false) : ∀ m ∈ ms', r.targets m = false := by
  intro m' hm'
  obtain ⟨m, hm, hshape⟩ := exists_of_forall₂ h.flip hm'
  rw [r.targets_of_sameShape hshape, hr m hm]

/-- The rule of that id has been applied, or it is for none of the methods. -/
def Settled (rules : Ruleset) (p : Plan) (id : String) : Prop :=
  ∀ r, rules.find? id = some r → p.knows id = true ∨ ∀ m ∈ p.file.methods, r.targets m = false

lemma apply_cases (h : p.apply rules id = .ok q) :
    q = p ∧ p.Settled rules id ∨
      ∃ r, rules.find? id = some r ∧ p.knows id = false ∧ q = p.add r := by
  unfold apply at h
  split at h
  · next hr =>
    cases h
    exact .inl ⟨rfl, fun r h => by rw [hr] at h; cases h⟩
  · next r hr =>
    split at h
    · next hk =>
      cases h
      exact .inl ⟨rfl, fun _ _ => .inl hk⟩
    · next hk =>
      split at h
      · cases h
      · cases h
        exact .inr ⟨r, hr, Bool.eq_false_iff.2 hk, rfl⟩

lemma add_newlyApplied (p : Plan) (r : Rule) :
    (p.add r).newlyApplied =
      if p.file.methods.any r.targets then p.newlyApplied ++ [r.id] else p.newlyApplied := rfl

lemma apply_spec (h : p.apply rules id = .ok q) :
    q.file = p.file ∧ p.newlyApplied <+: q.newlyApplied ∧ q.Settled rules id ∧
      ((p.file.appliedRules ++ p.newlyApplied).Nodup →
        (q.file.appliedRules ++ q.newlyApplied).Nodup) := by
  rcases apply_cases h with ⟨rfl, hs⟩ | ⟨r, hr, hk, rfl⟩
  · exact ⟨rfl, List.prefix_rfl, hs, fun h => h⟩
  · have hid := find?_id hr
    refine ⟨rfl, ?_, ?_, ?_⟩
    · rw [add_newlyApplied]
      split
      · exact List.prefix_append ..
      · exact List.prefix_rfl
    · intro r' hr'
      obtain rfl : r = r' := Option.some.inj (hr.symm.trans hr')
      by_cases hany : p.file.methods.any r.targets = true
      · refine .inl (knows_iff.2 ?_)
        rw [add_newlyApplied, if_pos hany, hid]
        simp
      · refine .inr fun m hm => ?_
        simpa using fun ht => hany (List.any_eq_true.2 ⟨m, hm, ht⟩)
    · intro hnodup
      rw [add_newlyApplied]
      split
      · rw [← List.append_assoc, List.nodup_append_comm, List.singleton_append,
          List.nodup_cons, hid]
        exact ⟨fun hmem => Bool.false_ne_true (hk ▸ knows_iff.2 hmem), hnodup⟩
      · exact hnodup

lemma Settled.mono (h : p.Settled rules id) (hfile : q.file = p.file)
    (hnew : p.newlyApplied <+: q.newlyApplied) : q.Settled rules id := by
  intro r hr
  rcases h r hr with hk | hm
  · refine .inl (knows_iff.2 ?_)
    rw [hfile, List.mem_append]
    exact (List.mem_append.1 (knows_iff.1 hk)).imp_right fun h => hnew.subset h
  · exact .inr (hfile ▸ hm)

lemma applyAll_spec (h : p.applyAll rules ids = .ok q) :
    q.file = p.file ∧ p.newlyApplied <+: q.newlyApplied ∧ (∀ id ∈ ids, q.Settled rules id) ∧
      ((p.file.appliedRules ++ p.newlyApplied).Nodup →
        (q.file.appliedRules ++ q.newlyApplied).Nodup) := by
  induction ids generalizing p with
  | nil =>
    cases h
    exact ⟨rfl, List.prefix_rfl, nofun, fun h => h⟩
  | cons id ids ih =>
    rw [applyAll] at h
    split at h
    · cases h
    next mid hmid =>
      obtain ⟨hfile, hnew, hsettled, hnodup⟩ := apply_spec hmid
      obtain ⟨hfile', hnew', hsettled', hnodup'⟩ := ih h
      refine ⟨hfile'.trans hfile, hnew.trans hnew', ?_, hnodup' ∘ hnodup⟩
      intro id' hid'
      rcases List.mem_cons.1 hid' with rfl | hid'
      · exact hsettled.mono hfile' hnew'
      · exact hsettled' id' hid'

lemma planned_applyAll (hp : Planned file p) (h : p.applyAll rules ids = .ok q) :
    Planned file q := by
  induction ids generalizing p with
  | nil =>
    cases h
    exact hp
  | cons id ids ih =>
    rw [applyAll] at h
    split at h
    · cases h
    next mid hmid => exact ih (hp.step hmid) h

lemma apply_of_settled (h : (Plan.of c).Settled rules id) :
    (Plan.of c).apply rules id = .ok (.of c) := by
  unfold apply
  split
  · rfl
  next r hr =>
    split
    · rfl
    next hk =>
      have hm := (h r hr).resolve_left hk
      have hconflict : (Plan.of c).conflict? r = none := by
        rw [conflict?, List.findSome?_eq_none_iff]
        rintro ⟨m, e⟩ hx
        dsimp only
        rw [hm m (List.of_mem_zip hx).1, if_neg Bool.false_ne_true]
      have hany : ¬ c.methods.any r.targets = true := by
        intro hany
        obtain ⟨m, hmem, ht⟩ := List.any_eq_true.1 hany
        exact Bool.false_ne_true ((hm m hmem).symm.trans ht)
      have hedits : List.zipWith (fun m e => if r.targets m then e.add r else e) c.methods
          (c.methods.map fun _ => Edit.none) = c.methods.map fun _ => Edit.none := by
        rw [List.zipWith_map_right, List.zipWith_self]
        apply List.map_congr_left
        intro m hmem
        rw [hm m hmem, if_neg Bool.false_ne_true]
      have hadd : (Plan.of c).add r = .of c := by
        rw [add, of]
        simp only [hedits]
        rw [if_neg hany]
      rw [hconflict]
      exact congrArg Except.ok hadd

lemma applyAll_of_settled (h : ∀ id ∈ ids, (Plan.of c).Settled rules id) :
    (Plan.of c).applyAll rules ids = .ok (.of c) := by
  induction ids with
  | nil => rfl
  | cons id ids ih =>
    rw [applyAll, apply_of_settled (h id List.mem_cons_self)]
    exact ih fun id' hid' => h id' (List.mem_cons_of_mem id hid')

lemma hasEdits_of (c : ClassFile) : (Plan.of c).hasEdits = false := by
  simp [hasEdits, of, Edit.isNone, Edit.none]

structure IsWritable (p : Plan) (out : ClassFile) : Prop where
  texts : ∀ c ∈ out.pool.appended, c.IsShort
  rules : (p.file.appliedRules ++ p.newlyApplied).length ≤ 65535
  codes : ∀ m ∈ out.methods, m.IsShort

end Plan

def Weaving.output (before : Bytes) : Weaving → Bytes
  | .rewritten _ bytes _ => bytes
  | .skipped _ | .failed _ => before

namespace Settings

variable {s : Settings} {bytes bytes' : Bytes} {file c : ClassFile} {w : Weaving}

def CanWrite (s : Settings) (bytes : Bytes) : Prop :=
  ∀ file p out, ClassFile.parse bytes = .ok file →
    (Plan.of file).applyAll s.ruleset (s.ruleset.matching file.name file.annotations) = .ok p →
      p.carryOut = .ok out → p.IsWritable out

lemma weaveClass_rewritten {name : String} {rules : List String}
    (h : s.weaveClass file = .ok (.rewritten name bytes' rules)) :
    s.ruleset.matching file.name file.annotations ≠ [] ∧ ∃ p out,
      (Plan.of file).applyAll s.ruleset (s.ruleset.matching file.name file.annotations) = .ok p ∧
        p.hasEdits = true ∧ p.carryOut = .ok out ∧ bytes' = out.encode := by
  unfold weaveClass at h
  split at h
  · cases h
  · next hne =>
    refine ⟨by simpa using hne, ?_⟩
    split at h
    · cases h
    next p hp =>
      split at h
      · next hedits =>
        split at h
        · cases h
        · cases h
        next out hout =>
          cases h
          exact ⟨p, out, hp, hedits, hout, rfl⟩
      · cases h

lemma weaveClass_settled
    (h : ∀ id ∈ s.ruleset.matching c.name c.annotations, (Plan.of c).Settled s.ruleset id) :
    s.weaveClass c = .ok (.skipped (if s.ruleset.matching c.name c.annotations = [] then
      .noMatchingRule else .nothingToApply)) := by
  unfold weaveClass
  split
  · next hids => rw [if_pos hids]
  · next hne =>
    rw [Plan.applyAll_of_settled h, if_neg (by simpa using hne)]
    dsimp only
    rw [Plan.hasEdits_of, if_neg Bool.false_ne_true]

lemma weave_eq (he : s.enabled = true) (hp : ClassFile.parse bytes = .ok file) :
    s.weave bytes = ((s.filter.accepts file.name).mapError .rooted >>= fun accepted =>
      if accepted then s.weaveClass file else .ok (.skipped .filtered)) := by
  rw [weave, he, hp]
  rfl

lemma rewritten_spec (hw : s.CanWrite bytes) {name : String} {rules : List String}
    (h : s.weave bytes = .ok (.rewritten name bytes' rules)) :
    ∃ file c new, s.enabled = true ∧ ClassFile.parse bytes = .ok file ∧
      s.filter.accepts file.name = .ok true ∧ ClassFile.parse bytes' = .ok c ∧
      c.name = file.name ∧ c.annotations = file.annotations ∧
      s.ruleset.matching file.name file.annotations ≠ [] ∧
      c.appliedRules = file.appliedRules ++ new ∧
      (file.appliedRules.Nodup → c.appliedRules.Nodup) ∧
      ∀ id ∈ s.ruleset.matching file.name file.annotations,
        (Plan.of c).Settled s.ruleset id := by
  have he : s.enabled = true := by
    by_contra he
    rw [weave, Bool.not_eq_true _ |>.mp he] at h
    cases h
  cases hp : ClassFile.parse bytes with
  | error fault =>
    rw [weave, he, hp] at h
    cases h
  | ok file =>
    rw [weave_eq he hp] at h
    obtain ⟨accepted, haccepts, h⟩ := bind_eq_ok_iff.1 h
    rw [mapError_eq_ok_iff] at haccepts
    cases accepted with
    | false => cases h
    | true =>
      obtain ⟨hne, p, out, hplan, hedits, hout, rfl⟩ := weaveClass_rewritten h
      obtain ⟨texts, few, codes⟩ := hw file p out hp hplan hout
      have planned := Plan.planned_applyAll .start hplan
      obtain ⟨hw, hf, -⟩ := ClassFile.parse_iff.1 hp
      obtain ⟨rfl, hlen⟩ := planned.spec
      obtain ⟨pool, ms, marker, hext, -, -, hmakes, -, hc⟩ :=
        Plan.carryOut_parses hp planned hedits hout texts few codes
      have hms := (ClassFile.parse_iff.1 hc).2.1.methods.2
      have hshape : List.Forall₂ Method.SameShape p.file.methods ms :=
        Plan.sameShape_of_makes hext hf.methods.2 hms hlen hmakes
      obtain ⟨-, -, hsettled, hnodup⟩ := Plan.applyAll_spec hplan
      refine ⟨p.file, _, p.newlyApplied, he, rfl, haccepts, hc, rfl, rfl, hne, rfl, ?_, ?_⟩
      · intro hold
        exact hnodup (by simpa [Plan.of] using hold)
      · intro id hid r hr
        rcases hsettled id hid r hr with hk | hm
        · refine .inl (Plan.knows_iff.2 ?_)
          simpa [Plan.of] using Plan.knows_iff.1 hk
        · exact .inr (Plan.targets_of_sameShape hshape hm)

lemma output_spec (hw : s.CanWrite bytes) (hp : ClassFile.parse bytes = .ok file)
    (h : s.weave bytes = .ok w) :
    ∃ c, ClassFile.parse (w.output bytes) = .ok c ∧ file.appliedRules <+: c.appliedRules ∧
      (file.appliedRules.Nodup → c.appliedRules.Nodup) := by
  cases w with
  | rewritten name bytes' rules =>
    obtain ⟨file', c, new, -, hp', -, hc, -, -, -, happlied, hnodup, -⟩ := rewritten_spec hw h
    obtain rfl : file = file' := Except.ok.inj (hp.symm.trans hp')
    exact ⟨c, hc, happlied ▸ List.prefix_append _ _, hnodup⟩
  | skipped _ | failed _ => exact ⟨file, hp, List.prefix_rfl, fun h => h⟩

lemma weave_of_rewritten (hw : s.CanWrite bytes) {name : String} {rules : List String}
    (h : s.weave bytes = .ok (.rewritten name bytes' rules)) :
    s.weave bytes' = .ok (.skipped .nothingToApply) := by
  obtain ⟨file, c, new, he, -, haccepts, hc, hname, hannotations, hne, -, -, hsettled⟩ :=
    rewritten_spec hw h
  rw [← hname, ← hannotations] at hne hsettled
  rw [weave_eq he hc, hname, haccepts]
  show s.weaveClass c = _
  rw [weaveClass_settled hsettled, if_neg hne]

end Settings

/-- Runs under any settings, each on the output of the one before. -/
inductive Rewoven (first : Bytes) : Bytes → Prop
  | start : Rewoven first first
  | run {bytes : Bytes} {s : Settings} {w : Weaving} (earlier : Rewoven first bytes)
      (writable : s.CanWrite bytes) (result : s.weave bytes = .ok w) :
      Rewoven first (w.output bytes)

lemma Rewoven.spec {bytes bytes' : Bytes} (h : Rewoven bytes bytes') {file : ClassFile}
    (hp : ClassFile.parse bytes = .ok file) :
    ∃ c, ClassFile.parse bytes' = .ok c ∧ file.appliedRules <+: c.appliedRules ∧
      (file.appliedRules.Nodup → c.appliedRules.Nodup) := by
  induction h with
  | start => exact ⟨file, hp, List.prefix_rfl, fun h => h⟩
  | run _ hw result ih =>
    obtain ⟨mid, hmid, hprefix, hnodup⟩ := ih
    obtain ⟨c, hc, hprefix', hnodup'⟩ := Settings.output_spec hw hmid result
    exact ⟨c, hc, hprefix.trans hprefix', hnodup' ∘ hnodup⟩

lemma ClassFile.readClassAttributes_unmarked {pool : Pool} {as : List (Nat × Attribute)}
    (ha : ∀ a ∈ as, a.2.name ≠ markerName) {annotations : List (List String)}
    {x : List String × List String}
    (h : readClassAttributes pool as annotations [] = .ok x) : x.2 = [] := by
  induction as generalizing annotations with
  | nil =>
    cases h
    rfl
  | cons a as ih =>
    obtain ⟨pos, a⟩ := a
    have hrest : ∀ b ∈ as, b.2.name ≠ markerName := fun b hb => ha b (List.mem_cons_of_mem _ hb)
    have hname : a.name ≠ markerName := ha (pos, a) List.mem_cons_self
    rw [readClassAttributes, if_neg hname] at h
    split at h
    · split at h
      · cases h
      · exact ih hrest h
    · exact ih hrest h

lemma ClassFile.appliedRules_unmarked {bytes : Bytes} {file : ClassFile}
    (hp : ClassFile.parse bytes = .ok file) (ha : ∀ a ∈ file.attributes, a.name ≠ markerName) :
    file.appliedRules = [] := by
  refine readClassAttributes_unmarked (fun a hmem => ha a.2 ?_) (parse_iff.1 hp).2.1.content
  rw [← Attribute.place_map_snd 0 file.attributes]
  exact List.mem_map_of_mem hmem

/-- A class that was rewritten has nothing left to apply. However often and under whatever settings
a class without a marker goes through the stage, its marker only grows at the end, names no rule
twice, and makes a run whose rules it names leave the class as it is. -/
theorem Settings.weave_settles :
    (∀ (s : Settings) (bytes bytes' : Bytes) (name : String) (rules : List String),
      s.CanWrite bytes → s.weave bytes = .ok (.rewritten name bytes' rules) →
        s.weave bytes' = .ok (.skipped .nothingToApply)) ∧
    ∀ (first : Bytes) (file : ClassFile), ClassFile.parse first = .ok file →
      (∀ a ∈ file.attributes, a.name ≠ ClassFile.markerName) →
        ∀ bytes, Rewoven first bytes → ∃ c, ClassFile.parse bytes = .ok c ∧
          c.appliedRules.Nodup ∧
          (∀ later, Rewoven bytes later → ∃ d, ClassFile.parse later = .ok d ∧
            c.appliedRules <+: d.appliedRules) ∧
          ∀ (s : Settings) (w : Weaving), s.weave bytes = .ok w →
            (∀ id ∈ s.ruleset.matching c.name c.annotations, id ∈ c.appliedRules) →
              ∃ reason, w = .skipped reason ∧ w.output bytes = bytes := by
  refine ⟨fun s bytes bytes' name rules hw h => weave_of_rewritten hw h, ?_⟩
  intro first file hp hunmarked bytes hruns
  obtain ⟨c, hc, -, hnodup⟩ := hruns.spec hp
  refine ⟨c, hc, ?_, ?_, ?_⟩
  · apply hnodup
    rw [ClassFile.appliedRules_unmarked hp hunmarked]
    exact List.nodup_nil
  · intro later hlater
    obtain ⟨d, hd, hprefix, -⟩ := hlater.spec hc
    exact ⟨d, hd, hprefix⟩
  · intro s w h hall
    have hsettled : ∀ id ∈ s.ruleset.matching c.name c.annotations,
        (Plan.of c).Settled s.ruleset id := by
      intro id hid r _
      exact .inl (Plan.knows_iff.2 (by simpa [Plan.of] using hall id hid))
    cases he : s.enabled with
    | false =>
      rw [weave, he] at h
      cases h
      exact ⟨_, rfl, rfl⟩
    | true =>
      rw [weave_eq he hc, weaveClass_settled hsettled] at h
      obtain ⟨accepted, -, h⟩ := bind_eq_ok_iff.1 h
      cases accepted <;> cases h <;> exact ⟨_, rfl, rfl⟩

lemma Settings.canWrite_of_length_le {s : Settings} {bytes : Bytes}
    (small : bytes.length ≤ 1073741824)
    (fields : ∀ file p out, ClassFile.parse bytes = .ok file →
      (Plan.of file).applyAll s.ruleset (s.ruleset.matching file.name file.annotations) = .ok p →
        p.carryOut = .ok out → (∀ c ∈ out.pool.appended, c.IsShort) ∧
          (file.appliedRules ++ p.newlyApplied).length ≤ 65535) : s.CanWrite bytes := by
  intro file p out parsed hplan done
  obtain ⟨texts, rules⟩ := fields file p out parsed hplan done
  have planned := Plan.planned_applyAll .start hplan
  obtain ⟨rfl, -⟩ := planned.spec
  refine ⟨texts, rules, ?_⟩
  cases edited : p.hasEdits with
  | true => exact Plan.carryOut_isShort parsed planned edited done small
  | false =>
    rw [Plan.carryOut, edited] at done
    cases done
    obtain ⟨-, fits, rfl⟩ := ClassFile.parse_iff.1 parsed
    intro m hm
    have hcode := (fits.methods.2 m hm).codeLength_le
    have hmethod := total_le_of_mem (fun m => m.encode.length) hm
    simp only [ClassFile.encode, ClassFile.encodeMethods, List.length_append,
      length_flatMap] at small
    rw [Method.IsShort]
    omega

theorem Settings.weave_of_rewritten_of_length_le {s : Settings} {bytes bytes' : Bytes}
    {name : String} {ids : List String} (small : bytes.length ≤ 1073741824)
    (fields : ∀ file p out, ClassFile.parse bytes = .ok file →
      (Plan.of file).applyAll s.ruleset (s.ruleset.matching file.name file.annotations) = .ok p →
        p.carryOut = .ok out → (∀ c ∈ out.pool.appended, c.IsShort) ∧
          (file.appliedRules ++ p.newlyApplied).length ≤ 65535)
    (h : s.weave bytes = .ok (.rewritten name bytes' ids)) :
    s.weave bytes' = .ok (.skipped .nothingToApply) :=
  weave_of_rewritten (canWrite_of_length_le small fields) h

lemma Settings.canWrite_of {s : Settings} {bytes : Bytes} {file out : ClassFile} {p : Plan}
    (hp : ClassFile.parse bytes = .ok file)
    (hplan : (Plan.of file).applyAll s.ruleset
      (s.ruleset.matching file.name file.annotations) = .ok p)
    (hout : p.carryOut = .ok out) (h : p.IsWritable out) : s.CanWrite bytes := by
  intro file' p' out' hp' hplan' hout'
  obtain rfl : file = file' := Except.ok.inj (hp.symm.trans hp')
  obtain rfl : p = p' := Except.ok.inj (hplan.symm.trans hplan')
  obtain rfl : out = out' := Except.ok.inj (hout.symm.trans hout')
  exact h

namespace Sample

def settings : Settings where
  enabled := true
  includePatterns := []
  excludePatterns := []
  strictMode := true
  incrementalEnabled := true
  excludeGeneratedClasses := true
  jarStreamThreshold := 1024
  maxWorkers := none
  ruleset := rules
  filter := ⟨none, [], true⟩

end Sample

theorem Settings.weave_settles_sample :
    Sample.settings.CanWrite Sample.file.encode ∧
      Sample.settings.weave Sample.file.encode =
        .ok (.rewritten "A" Sample.changed.encode ["in", "out"]) ∧
      Sample.settings.weave Sample.changed.encode = .ok (.skipped .nothingToApply) ∧
      ∃ c, ClassFile.parse Sample.changed.encode = .ok c ∧ c.appliedRules.Nodup := by
  have planned : (Plan.of Sample.file).applyAll Sample.settings.ruleset
      (Sample.settings.ruleset.matching Sample.file.name Sample.file.annotations) =
        .ok Sample.plan := by decide +kernel
  have done : Sample.plan.carryOut = .ok Sample.changed := by decide +kernel
  have writable : Sample.settings.CanWrite Sample.file.encode := by
    refine canWrite_of Sample.parse_file planned done ⟨?_, ?_, ?_⟩
    · decide +kernel
    · decide
    · have short : Sample.file.encode.length ≤ 1073741824 := by decide +kernel
      have planning : Planned Sample.file Sample.plan := Plan.planned_applyAll .start planned
      exact Plan.carryOut_isShort Sample.parse_file planning (by decide +kernel) done short
  have rewritten : Sample.settings.weave Sample.file.encode =
      .ok (.rewritten "A" Sample.changed.encode ["in", "out"]) := by decide +kernel
  have runs : Rewoven Sample.file.encode Sample.changed.encode :=
    Rewoven.run .start writable rewritten
  obtain ⟨c, hc, hnodup, -⟩ := weave_settles.2 Sample.file.encode Sample.file Sample.parse_file
    (by decide) Sample.changed.encode runs
  exact ⟨writable, rewritten, weave_settles.1 _ _ _ _ _ writable rewritten, c, hc, hnodup⟩

end ClassWeaver
