import ClassWeaver.Proofs.Pool.GrownPool
import ClassWeaver.Proofs.Rewriting.Edits
import ClassWeaver.Proofs.Rewriting.Marker

namespace ClassWeaver

open Read

inductive Planned (file : ClassFile) : Plan → Prop
  | start : Planned file (.of file)
  | step {p q : Plan} {rules : Ruleset} {id : String} (h : Planned file p)
    (apply : p.apply rules id = .ok q) : Planned file q

structure Plan.Changes (p : Plan) (d : ClassFile) : Prop where
  minorVersion : d.minorVersion = p.file.minorVersion
  majorVersion : d.majorVersion = p.file.majorVersion
  accessFlags : d.accessFlags = p.file.accessFlags
  thisClass : d.thisClass = p.file.thisClass
  superClass : d.superClass = p.file.superClass
  interfaces : d.interfaces = p.file.interfaces
  fields : d.encodeFields = p.file.encodeFields
  constants : p.file.pool.slots.toList <+: d.pool.slots.toList
  constantBytes : p.file.pool.raw <+: d.pool.raw
  methodCount : d.methods.length = p.file.methods.length
  methods : List.Forall₂ (fun x m => x.2.Makes x.1 m) (p.file.methods.zip p.edits) d.methods
  attributes : ∃ marker : Attribute, marker.name = ClassFile.markerName ∧
    d.attributes = p.file.attributes.filter (·.name != ClassFile.markerName) ++ [marker]
  appliedRules : d.appliedRules = p.file.appliedRules ++ p.newlyApplied

section Carrying

variable {bytes : Bytes} {p q : Plan} {file out : ClassFile}

namespace Plan

lemma apply_eq_ok {rules : Ruleset} {id : String} (h : p.apply rules id = .ok q) :
    q = p ∨ ∃ r, q = p.add r := by
  unfold apply at h
  split at h
  · cases h
    exact .inl rfl
  · split at h
    · cases h
      exact .inl rfl
    · split at h
      · cases h
      · cases h
        exact .inr ⟨_, rfl⟩

lemma carryOut_carried (hw : p.file.pool.Whole) (hf : p.file.Fits) (edited : p.hasEdits = true)
    (h : p.carryOut = .ok out) :
    ∃ ms marker pool, p.file.pool.Grown pool ∧
      List.Forall₂ (Instrumentation.Carried p.file pool) (p.file.methods.zip p.edits) ms ∧
      ClassFile.Marks pool marker (p.file.appliedRules ++ p.newlyApplied) ∧
      (p.file.attributes.filter (·.name != ClassFile.markerName)).length < 65535 ∧
      out = { p.file with
        pool
        methods := ms
        attributes := p.file.attributes.filter (·.name != ClassFile.markerName) ++ [marker]
        appliedRules := p.file.appliedRules ++ p.newlyApplied } := by
  rw [carryOut, edited, Bool.not_true, if_neg Bool.false_ne_true] at h
  obtain ⟨⟨ms, pool⟩, hms, h⟩ := ClassWeaver.bind_eq_ok_iff.1 h
  have hzip : ∀ x ∈ p.file.methods.zip p.edits, x.1.Fits p.file.pool :=
    fun x hx => hf.methods.2 x.1 (List.of_mem_zip hx).1
  obtain ⟨tail, htail, g, hall⟩ := Instrumentation.methods_carried hw hzip .refl hms
  obtain rfl : ms = tail := htail
  dsimp only at h
  split at h
  · cases h
  next marker pool' hmarker =>
    split at h
    · cases h
    next hcounted =>
    cases h
    obtain ⟨g', marks⟩ := ClassFile.yields_marker (g.count_le hw.count_le)
      (Instrumentation.grow_eq_ok_iff.1 hmarker)
    have hfew := hf.attributes.1
    have hle := List.length_filter_le (·.name != ClassFile.markerName) p.file.attributes
    rw [not_or, UInt16.toNat_ofNat', UInt16.size] at hcounted
    exact ⟨ms, marker, pool', g.trans g', hall.imp fun _ _ h => h.mono g', marks, by omega, rfl⟩

lemma carryOut_spec (hw : p.file.pool.Whole) (hf : p.file.Fits) (edited : p.hasEdits = true)
    (h : p.carryOut = .ok out) :
    ∃ ms marker pool, p.file.pool.Grown pool ∧
      List.Forall₂ (fun x m => x.2.Makes x.1 m ∧
        m.codeLength ≤ Code.maxLength + 3 * x.1.encode.length ∧ (m.IsShort → m.Fits pool))
        (p.file.methods.zip p.edits) ms ∧
      ClassFile.Marks pool marker (p.file.appliedRules ++ p.newlyApplied) ∧
      (p.file.attributes.filter (·.name != ClassFile.markerName)).length < 65535 ∧
      out = { p.file with
        pool
        methods := ms
        attributes := p.file.attributes.filter (·.name != ClassFile.markerName) ++ [marker]
        appliedRules := p.file.appliedRules ++ p.newlyApplied } := by
  obtain ⟨ms, marker, pool, grown, hall, rest⟩ := carryOut_carried hw hf edited h
  refine ⟨ms, marker, pool, grown, forall₂_imp_of_mem hall fun x hx m _ hcarried => ?_, rest⟩
  exact hcarried.spec hw (hf.methods.2 x.1 (List.of_mem_zip hx).1) grown

end Plan

lemma Planned.spec (h : Planned file p) :
    p.file = file ∧ p.edits.length = file.methods.length := by
  induction h with
  | start => exact ⟨rfl, List.length_map _⟩
  | step _ happly ih =>
    obtain ⟨rfl, hlen⟩ := ih
    rcases Plan.apply_eq_ok happly with rfl | ⟨r, rfl⟩
    · exact ⟨rfl, hlen⟩
    · refine ⟨rfl, ?_⟩
      rw [Plan.add, List.length_zipWith, hlen, Nat.min_self]

namespace ClassFile

lemma Fits.grown {q : Pool} (h : file.Fits) (hq : file.pool.Extends q) {ms : List Method}
    {as : List Attribute} {rules : List String} (hms : AllFit (Method.Fits q) ms)
    (has : AllFit (Attribute.Fits q) as)
    (hcontent : readClassAttributes q (Attribute.place 0 as) [] [] =
      .ok (file.annotations, rules)) :
    Fits { file with pool := q, methods := ms, attributes := as, appliedRules := rules } := by
  refine ⟨h.version, hq.className h.name, ?_, ?_, ?_, hms, has, hcontent⟩
  · have hs := h.superName
    by_cases hz : file.superClass = 0
    · rw [if_pos hz] at hs
      rw [if_pos hz]
      exact hs
    · rw [if_neg hz] at hs
      rw [if_neg hz]
      obtain ⟨name, hname, hs⟩ := hs
      exact ⟨name, hq.className hname, hs⟩
  · obtain ⟨pairs, hpairs, hi⟩ := h.interfaces
    exact ⟨pairs, hpairs.mono fun _ _ hname => hq.className hname, hi⟩
  · exact h.fields.mono fun _ _ hf => hf.mono hq

end ClassFile

/-- A class of up to one gigabyte never comes to a code that is too long. -/
lemma Plan.carryOut_isShort (parsed : ClassFile.parse bytes = .ok file) (planned : Planned file p)
    (edited : p.hasEdits = true) (done : p.carryOut = .ok out) (hlen : bytes.length ≤ 1073741824) :
    ∀ m ∈ out.methods, m.IsShort := by
  obtain ⟨hw, fits, rfl⟩ := ClassFile.parse_iff.1 parsed
  obtain ⟨rfl, -⟩ := planned.spec
  obtain ⟨ms, marker, pool, -, hall, -, -, rfl⟩ := carryOut_spec hw fits edited done
  intro m hm
  obtain ⟨x, hx, -, hle, -⟩ := exists_of_forall₂ hall.flip hm
  have hmethod := total_le_of_mem (fun m => m.encode.length) (List.of_mem_zip hx).1
  simp only [ClassFile.encode, ClassFile.encodeMethods, List.length_append, length_flatMap] at hlen
  rw [Code.maxLength] at hle
  rw [Method.IsShort]
  omega

lemma Plan.carryOut_settles (parsed : ClassFile.parse bytes = .ok file)
    (planned : Planned file p) (edited : p.hasEdits = true) (done : p.carryOut = .ok out)
    (texts : ∀ c ∈ out.pool.appended, c.IsShort) (rules : out.appliedRules.length ≤ 65535)
    (codes : ∀ m ∈ out.methods, m.IsShort) :
    ClassFile.parse out.encode = .ok { out with pool := out.pool.settle } := by
  obtain ⟨hw, fits, -⟩ := ClassFile.parse_iff.1 parsed
  obtain ⟨rfl, hlen⟩ := planned.spec
  obtain ⟨ms, marker, pool, grown, hall, marks, room, rfl⟩ := carryOut_spec hw fits edited done
  have hsettle := pool.extends_settle
  have hext : p.file.pool.Extends pool.settle := grown.extends.trans hsettle
  have hmarks := marks.mono hsettle
  have hrules := Nat.lt_succ_of_le rules
  have methodsFit : AllFit (Method.Fits pool.settle) ms := by
    have hcount : ms.length = p.file.methods.length := by
      rw [← hall.length_eq, List.length_zip, hlen, Nat.min_self]
    refine ⟨hcount ▸ fits.methods.1, fun m hmem => ?_⟩
    obtain ⟨x, -, -, -, hfit⟩ := exists_of_forall₂ hall.flip hmem
    exact (hfit (codes m hmem)).mono hsettle
  have attributesFit : AllFit (Attribute.Fits pool.settle)
      (p.file.attributes.filter (·.name != ClassFile.markerName) ++ [marker]) := by
    refine ⟨?_, fun a ha => ?_⟩
    · rw [List.length_append, List.length_singleton]
      omega
    rcases List.mem_append.1 ha with ha | ha
    · exact (fits.attributes.2 a (List.mem_filter.1 ha).1).mono hext
    · rw [List.mem_singleton.1 ha]
      exact hmarks.fits hrules
  have content := ClassFile.readClassAttributes_marked hext fits.content hmarks hrules
  refine ClassFile.parse_iff.2 ⟨hw.settle grown texts,
    fits.grown hext methodsFit attributesFit content, ?_⟩
  simp only [ClassFile.encode, Pool.encode_settle]
  rfl

lemma Plan.carryOut_parses (parsed : ClassFile.parse bytes = .ok file)
    (planned : Planned file p) (edited : p.hasEdits = true) (done : p.carryOut = .ok out)
    (texts : ∀ c ∈ out.pool.appended, c.IsShort)
    (rules : (file.appliedRules ++ p.newlyApplied).length ≤ 65535)
    (codes : ∀ m ∈ out.methods, m.IsShort) :
    ∃ pool ms, ∃ marker : Attribute, file.pool.Extends pool ∧ file.pool.raw <+: pool.raw ∧
      ms.length = file.methods.length ∧
      List.Forall₂ (fun x m => x.2.Makes x.1 m) (file.methods.zip p.edits) ms ∧
      marker.name = ClassFile.markerName ∧
      ClassFile.parse out.encode = .ok { file with
        pool
        methods := ms
        attributes := file.attributes.filter (·.name != ClassFile.markerName) ++ [marker]
        appliedRules := file.appliedRules ++ p.newlyApplied } := by
  obtain ⟨hw, fits, -⟩ := ClassFile.parse_iff.1 parsed
  obtain ⟨rfl, hlen⟩ := planned.spec
  obtain ⟨ms, marker, pool, grown, hall, marks, -, rfl⟩ := carryOut_spec hw fits edited done
  have hcount : ms.length = p.file.methods.length := by
    rw [← hall.length_eq, List.length_zip, hlen, Nat.min_self]
  refine ⟨pool.settle, ms, marker, grown.extends.trans pool.extends_settle, ?_, hcount,
    hall.imp fun _ _ h => h.1, marks.name,
    carryOut_settles parsed planned edited done texts rules codes⟩
  rw [← grown.raw_eq.1]
  exact List.prefix_append _ _

lemma Plan.changes_marked {pool : Pool} {ms : List Method} {marker : Attribute}
    (constants : p.file.pool.Extends pool) (constantBytes : p.file.pool.raw <+: pool.raw)
    (methodCount : ms.length = p.file.methods.length)
    (methods : List.Forall₂ (fun x m => x.2.Makes x.1 m) (p.file.methods.zip p.edits) ms)
    (name : marker.name = ClassFile.markerName) :
    p.Changes { p.file with
      pool
      methods := ms
      attributes := p.file.attributes.filter (·.name != ClassFile.markerName) ++ [marker]
      appliedRules := p.file.appliedRules ++ p.newlyApplied } where
  minorVersion := rfl
  majorVersion := rfl
  accessFlags := rfl
  thisClass := rfl
  superClass := rfl
  interfaces := rfl
  fields := rfl
  constants := constants
  constantBytes := constantBytes
  methodCount := methodCount
  methods := methods
  attributes := ⟨marker, name, rfl⟩
  appliedRules := rfl

/-- A class parses again after its edits, and nothing but what they ask for has changed. -/
theorem Plan.carryOut_rereads (parsed : ClassFile.parse bytes = .ok file)
    (planned : Planned file p) (edited : p.hasEdits = true) (done : p.carryOut = .ok out)
    (texts : ∀ c ∈ out.pool.appended, c.IsShort)
    (rules : (file.appliedRules ++ p.newlyApplied).length ≤ 65535)
    (codes : ∀ m ∈ out.methods, m.IsShort) :
    ∃ d, ClassFile.parse out.encode = .ok d ∧ p.Changes d := by
  obtain ⟨pool, ms, marker, hext, hraw, hcount, hmakes, hname, hparse⟩ :=
    carryOut_parses parsed planned edited done texts rules codes
  obtain ⟨rfl, -⟩ := planned.spec
  exact ⟨_, hparse, changes_marked hext hraw hcount hmakes hname⟩

theorem Plan.exists_changes_of_length_le (parsed : ClassFile.parse bytes = .ok file)
    (planned : Planned file p) (edited : p.hasEdits = true) (done : p.carryOut = .ok out)
    (texts : ∀ c ∈ out.pool.appended, c.IsShort)
    (rules : (file.appliedRules ++ p.newlyApplied).length ≤ 65535)
    (small : bytes.length ≤ 1073741824) :
    ∃ d, ClassFile.parse out.encode = .ok d ∧ p.Changes d := by
  have codes := carryOut_isShort parsed planned edited done small
  obtain ⟨pool, ms, marker, hext, hraw, hcount, hmakes, hname, hparse⟩ :=
    carryOut_parses parsed planned edited done texts rules codes
  obtain ⟨rfl, -⟩ := planned.spec
  exact ⟨_, hparse, changes_marked hext hraw hcount hmakes hname⟩

end Carrying

namespace Sample

def rules : Ruleset :=
  ⟨[⟨"in", .named "A", .default, .enter ⟨"h", "e"⟩⟩,
    ⟨"out", .named "A", .default, .exit ⟨"h", "x"⟩⟩]⟩

def plan : Plan := ⟨file, [⟨[⟨"h", "e"⟩], [⟨"h", "x"⟩], none, ["in", "out"]⟩], ["in", "out"]⟩

def changed : ClassFile :=
  { file with
    pool := { hookedPool with
      slots := #[.unusable, .utf8 "A", .classRef 1, .utf8 "f", .utf8 "()V", .utf8 "Code",
        .utf8 "A#f()V", .string 6, .utf8 "h", .classRef 8, .utf8 "e",
        .utf8 "(Ljava/lang/String;)V", .nameAndType 10 11, .methodRef 9 12, .utf8 "x",
        .nameAndType 14 11, .methodRef 9 15, .utf8 "AmsInstrumented", .utf8 "in", .utf8 "out"] }
    methods := [Instrumentation.withCode method 0 hooked.code]
    attributes := [⟨17, "AmsInstrumented", [0, 2, 0, 18, 0, 19]⟩]
    appliedRules := ["in", "out"] }

lemma planned : Planned file plan := by
  let middle : Plan := ⟨file, [⟨[⟨"h", "e"⟩], [], none, ["in"]⟩], ["in"]⟩
  have first : (Plan.of file).apply rules "in" = .ok middle := by decide +kernel
  have second : middle.apply rules "out" = .ok plan := by decide +kernel
  exact (Planned.start.step first).step second

lemma carryOut_plan : plan.carryOut = .ok changed := by decide +kernel

end Sample

theorem Plan.carryOut_rereads_sample :
    Sample.plan.hasEdits = true ∧
      ∃ d, ClassFile.parse Sample.changed.encode = .ok d ∧ Sample.plan.Changes d := by
  have edited : Sample.plan.hasEdits = true := by decide +kernel
  have short : Sample.file.encode.length ≤ 1073741824 := by decide +kernel
  have codes :=
    Plan.carryOut_isShort Sample.parse_file Sample.planned edited Sample.carryOut_plan short
  exact ⟨edited, Plan.carryOut_rereads Sample.parse_file Sample.planned edited
    Sample.carryOut_plan (by decide +kernel) (by decide) codes⟩

end ClassWeaver
