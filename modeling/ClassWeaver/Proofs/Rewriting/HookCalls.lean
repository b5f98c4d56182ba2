import ClassWeaver.Proofs.ClassFile.Uniqueness
import ClassWeaver.Proofs.Code.ControlFlow
import ClassWeaver.Proofs.Rewriting.ChangedClass
import ClassWeaver.Proofs.Rule.Plans

/-! The calls of hooks are found again in the class that is read after its edits: at the start of a
method in the order in which the rules were applied, and in front of each return. -/

namespace ClassWeaver

open Instruction

def CallsHooks (pool : Pool) (site : String) (enter exit : List Hook) (bytes : Bytes) : Prop :=
  ∃ is, Instruction.decode bytes = .ok is ∧
    (∃ calls rest, is = calls ++ rest ∧ Hook.AreCalls pool site enter calls) ∧
    ∀ before i after, is = before ++ i :: after → i.isReturn = true →
      ∃ front calls, before = front ++ calls ∧ Hook.AreCalls pool site exit calls

lemma CallsHooks.mono {p q : Pool} {site : String} {enter exit : List Hook} {bytes : Bytes}
    (h : CallsHooks p site enter exit bytes) (hq : p.Extends q) :
    CallsHooks q site enter exit bytes := by
  obtain ⟨is, hd, ⟨calls, rest, his, hcalls⟩, hreturns⟩ := h
  refine ⟨is, hd, ⟨calls, rest, his, hcalls.mono hq⟩, fun before i after hsplit hi => ?_⟩
  obtain ⟨front, calls, hbefore, hcalls⟩ := hreturns before i after hsplit hi
  exact ⟨front, calls, hbefore, hcalls.mono hq⟩

section Returns

variable {m : Placement} {prologue epilogue is before after : List Instruction} {i : Instruction}

lemma Instruction.leaves_of_isReturn (h : i.isReturn = true) : i.leaves = true := by
  have hreturn : Opcode.isReturn i.opcode = true := h
  simp [leaves, endsFlow, Opcode.endsFlow, hreturn]

lemma Placement.IsWoven.epilogue_of_return (h : m.IsWoven prologue epilogue is)
    (hsplit : m.weave prologue epilogue is = before ++ i :: after) (hi : i.isReturn = true) :
    ∃ front pos, before = front ++ layAt pos epilogue := by
  have hstraight : ¬ i.IsStraight := fun hs => by
    rw [IsStraight, leaves_of_isReturn hi] at hs
    exact Bool.noConfusion hs.2
  have hmem : i ∈ m.weave prologue epilogue is := by
    rw [hsplit]
    exact List.mem_append_right _ List.mem_cons_self
  rcases List.mem_append.1 hmem with hprologue | hwoven
  · exact absurd (h.straight_prologue i hprologue) hstraight
  obtain ⟨j, hj, hij⟩ := List.mem_flatMap.1 hwoven
  rw [woven_eq, List.mem_append, List.mem_singleton] at hij
  rcases hij with hahead | rfl
  · exact absurd (h.straight_ahead j i hahead) hstraight
  obtain ⟨as, bs, rfl⟩ := List.append_of_mem hj
  have hreturn : j.isReturn = true := by
    rw [isReturn, (h.alike j hj).1]
    exact hi
  have hcode : m.weave prologue epilogue (as ++ j :: bs) =
      (prologue ++ as.flatMap (m.woven epilogue) ++ m.ahead epilogue j) ++
        m.image j :: bs.flatMap (m.woven epilogue) := by
    rw [weave_split]
    simp only [List.append_assoc]
  refine ⟨prologue ++ as.flatMap (m.woven epilogue), m.start j.offset, ?_⟩
  rw [eq_of_split h.new.nodup hsplit hcode, ahead, if_pos hreturn]

end Returns

namespace Instrumentation

variable {file : ClassFile} {m m' : Method} {code : Code} {e : Edit} {pool pool' : Pool}

def site (file : ClassFile) (m : Method) : String := file.dottedName ++ ("#" ++ m.signature)

lemma body_calls {b : Body} (hw : file.pool.Whole) (hf : code.Fits file.pool)
    (hg : file.pool.Grown pool) (hkeep : e.replacedBy = none)
    (h : body file m code e pool = .ok (b, pool')) :
    CallsHooks pool' (site file m) e.enter e.exit b.code.bytes := by
  rw [body, hkeep, Option.isSome_none, if_neg Bool.false_ne_true] at h
  obtain ⟨⟨ins, q⟩, hins, h⟩ := bind_eq_ok_iff.1 h
  obtain ⟨b', hb, h⟩ := bind_eq_ok_iff.1 h
  rw [mapError_eq_ok_iff] at hins
  cases h
  obtain ⟨-, hcalling⟩ := insertion_calling (hg.count_le hw.count_le) hins
  obtain ⟨⟨prologue, hp, np, cp⟩, epilogue, he, ne, ce⟩ := hcalling pool' (.refl pool')
  obtain ⟨placed, stop, hr⟩ := Code.relocates hb
  have hwoven := hr.isWoven hf.nonempty hp he (fun i hi => (np.straight i hi).1)
    fun i hi => (ne.straight i hi).1
  refine ⟨_, hr.decode_weave hf.nonempty hp he fun i hi => (ne.straight i hi).1.1,
    ⟨prologue, _, rfl, cp⟩, fun before i after hsplit hi => ?_⟩
  obtain ⟨front, pos, hbefore⟩ := hwoven.epilogue_of_return hsplit hi
  exact ⟨front, _, hbefore, ce.layAt pos⟩

lemma method_calls (hw : file.pool.Whole) (hf : m.Fits file.pool) (hg : file.pool.Grown pool)
    (hkeep : e.replacedBy = none) (h : method file m e pool = .ok (m', pool')) :
    ∃ index code, m'.code = some (index, code) ∧
      CallsHooks pool' (site file m) e.enter e.exit code.bytes := by
  unfold method at h
  split at h
  · cases h
  · next index code hcode =>
    obtain ⟨⟨b, q⟩, hb, h⟩ := bind_eq_ok_iff.1 h
    obtain ⟨depth, -, h⟩ := bind_eq_ok_iff.1 h
    cases h
    obtain ⟨-, -, -, -, -, -, -, codeFits, -⟩ := hf.exists_code hcode
    exact ⟨index, _, rfl, body_calls hw codeFits hg hkeep hb⟩

lemma Carried.calls {last : Pool} {x : Method × Edit} (h : Carried file last x m')
    (hw : file.pool.Whole) (hf : x.1.Fits file.pool) (hchanged : x.2.isNone = false)
    (hkeep : x.2.replacedBy = none) : ∃ index code, m'.code = some (index, code) ∧
      CallsHooks last (site file x.1) x.2.enter x.2.exit code.bytes := by
  rw [Carried, hchanged, if_neg Bool.false_ne_true] at h
  obtain ⟨p, q, hp, hmethod, hq⟩ := h
  obtain ⟨index, code, hcode, hcalls⟩ := method_calls hw hf hp hkeep hmethod
  exact ⟨index, code, hcode, hcalls.mono hq.extends⟩

end Instrumentation

section Rules

namespace Plan

def taken (p : Plan) (rules : Ruleset) (id : String) : List Rule :=
  if p.knows id then [] else (rules.find? id).toList

lemma apply_taken {p q : Plan} {rules : Ruleset} {id : String} (h : p.apply rules id = .ok q) :
    q = (p.taken rules id).foldl add p := by
  unfold apply at h
  unfold taken
  split at h
  · next hr =>
    cases h
    split <;> simp [hr]
  · next r hr =>
    split at h
    · next hknown =>
      cases h
      rw [if_pos hknown]
      rfl
    · next hknown =>
      rw [if_neg hknown, hr]
      split at h
      · cases h
      · cases h
        rfl

end Plan

inductive Applied (file : ClassFile) : List Rule → Plan → Prop
  | start : Applied file [] (.of file)
  | step {rs : List Rule} {p q : Plan} {rules : Ruleset} {id : String} (h : Applied file rs p)
    (apply : p.apply rules id = .ok q) : Applied file (rs ++ p.taken rules id) q

variable {file : ClassFile} {p : Plan} {rs : List Rule}

lemma Applied.planned (h : Applied file rs p) : Planned file p := by
  induction h with
  | start => exact .start
  | step _ apply ih => exact ih.step apply

lemma Applied.eq_ofRules (h : Applied file rs p) : p = .ofRules file rs := by
  induction h with
  | start => rfl
  | step h apply ih => rw [Plan.apply_taken apply, Plan.ofRules_append, ih]

lemma Applied.edits_eq (h : Applied file rs p) : p.edits = file.methods.map (Edit.ofRules rs) := by
  rw [h.eq_ofRules, Plan.ofRules_eq]

end Rules

section Rereading

variable {bytes : Bytes} {p : Plan} {file out d : ClassFile} {rs : List Rule}

lemma Plan.reread_inFront (parsed : ClassFile.parse bytes = .ok file) (planned : Planned file p)
    (edited : p.hasEdits = true) (done : p.carryOut = .ok out)
    (reread : ClassFile.parse out.encode = .ok d)
    (texts : ∀ c ∈ out.pool.appended, c.IsShort) (codes : ∀ m ∈ out.methods, m.IsShort) :
    d.pool = out.pool.settle ∧ d.methods = out.methods := by
  obtain ⟨hw, fits, -⟩ := ClassFile.parse_iff.1 parsed
  obtain ⟨hwd, fitsd, hbytes⟩ := ClassFile.parse_iff.1 reread
  obtain ⟨rfl, hlen⟩ := planned.spec
  obtain ⟨ms, marker, pool, grown, hall, -, -, rfl⟩ := carryOut_spec hw fits edited done
  have hsettle := pool.extends_settle
  have hext : p.file.pool.Extends pool.settle := grown.extends.trans hsettle
  have hcount : ms.length = p.file.methods.length := by
    rw [← hall.length_eq, List.length_zip, hlen, Nat.min_self]
  have hfront := fits.inFront hw
  have inFront : ClassFile.FitsInFront { p.file with
      pool := pool.settle
      methods := ms
      attributes := p.file.attributes.filter (·.name != ClassFile.markerName) ++ [marker] } := by
    refine ⟨hw.settle grown texts, hfront.interfaces, hfront.fields.mono fun _ _ hf => hf.mono hext,
      hcount ▸ fits.methods.1, fun m hmem => ?_⟩
    obtain ⟨x, -, -, -, hfit⟩ := exists_of_forall₂ hall.flip hmem
    exact (hfit (codes m hmem)).mono hsettle
  have hencode := hbytes
  obtain ⟨hpool, -, hmethods⟩ := inFront.cancel (fitsd.inFront hwd) (by
    rw [← hbytes]
    simp only [ClassFile.encode, Pool.encode_settle]
    rfl)
  exact ⟨hpool.symm, hmethods.symm⟩

lemma Plan.calls_of_edited (parsed : ClassFile.parse bytes = .ok file)
    (applied : Applied file rs p) (edited : p.hasEdits = true) (done : p.carryOut = .ok out) :
    List.Forall₂ (fun m m' => (∃ r ∈ rs, r.targets m = true) →
      (∀ r ∈ rs, r.targets m = true → r.isReplacement = false) →
      ∃ index code, m'.code = some (index, code) ∧
        CallsHooks out.pool.settle (file.dottedName ++ ("#" ++ m.signature))
          ((rs.filter (·.targets m)).filterMap Rule.enterHook?)
          ((rs.filter (·.targets m)).filterMap Rule.exitHook?) code.bytes)
      file.methods out.methods := by
  obtain ⟨hw, fits, -⟩ := ClassFile.parse_iff.1 parsed
  obtain ⟨rfl, -⟩ := applied.planned.spec
  obtain ⟨ms, marker, pool, grown, hall, -, -, rfl⟩ := carryOut_carried hw fits edited done
  have hzip : p.file.methods.zip p.edits =
      p.file.methods.map fun m => (m, Edit.ofRules rs m) := by
    rw [applied.edits_eq, List.map_prod_left_eq_zip]
  rw [hzip, List.forall₂_map_left_iff] at hall
  refine forall₂_imp_of_mem hall fun m hm m' _ hcarried hrule hkeep => ?_
  obtain ⟨r, hr, htargets⟩ := hrule
  obtain ⟨index, code, hcode, hcalls⟩ := hcarried.calls hw (fits.methods.2 m hm)
    (Edit.isNone_ofRules.2 ⟨r, hr, htargets⟩) (Edit.replacedBy_eq_none.2 hkeep)
  rw [Edit.ofRules_eq] at hcalls
  exact ⟨index, code, hcode, hcalls.mono pool.extends_settle⟩

/-- After its edits a class is read with all calls of hooks. Those of a method that some rule is for,
and that none replaces, lead to the text of the method and to the hooks of its rules, in the order in
which the rules were applied. -/
theorem Plan.hookCalls_of_carryOut (parsed : ClassFile.parse bytes = .ok file)
    (applied : Applied file rs p) (done : p.carryOut = .ok out)
    (reread : ClassFile.parse out.encode = .ok d)
    (texts : ∀ c ∈ out.pool.appended, c.IsShort) (codes : ∀ m ∈ out.methods, m.IsShort) :
    List.Forall₂ (fun m m' => (∃ r ∈ rs, r.targets m = true) →
      (∀ r ∈ rs, r.targets m = true → r.isReplacement = false) →
      ∃ index code, m'.code = some (index, code) ∧
        CallsHooks d.pool (file.dottedName ++ ("#" ++ m.signature))
          ((rs.filter (·.targets m)).filterMap Rule.enterHook?)
          ((rs.filter (·.targets m)).filterMap Rule.exitHook?) code.bytes)
      file.methods d.methods := by
  by_cases edited : p.hasEdits = true
  · obtain ⟨hpool, hmethods⟩ :=
      reread_inFront parsed applied.planned edited done reread texts codes
    rw [hpool, hmethods]
    exact calls_of_edited parsed applied edited done
  · obtain ⟨hw, fits, rfl⟩ := ClassFile.parse_iff.1 parsed
    obtain ⟨rfl, -⟩ := applied.planned.spec
    have hedits := applied.edits_eq
    rw [Bool.not_eq_true] at edited
    rw [carryOut, edited] at done
    cases done
    rw [parsed] at reread
    cases reread
    refine List.forall₂_same.2 fun m hm hrule hkeep => ?_
    obtain ⟨r, hr, htargets⟩ := hrule
    have hnone : (Edit.ofRules rs m).isNone = true := by
      have hmem : Edit.ofRules rs m ∈ p.edits := hedits ▸ List.mem_map_of_mem hm
      simpa [hasEdits] using List.any_eq_false.1 edited _ hmem
    rw [Edit.isNone_ofRules.2 ⟨r, hr, htargets⟩] at hnone
    cases hnone

theorem Plan.exists_hookCalls_of_length_le (parsed : ClassFile.parse bytes = .ok file)
    (applied : Applied file rs p) (edited : p.hasEdits = true) (done : p.carryOut = .ok out)
    (texts : ∀ c ∈ out.pool.appended, c.IsShort) (rules : out.appliedRules.length ≤ 65535)
    (small : bytes.length ≤ 1073741824) :
    ∃ d, ClassFile.parse out.encode = .ok d ∧
      List.Forall₂ (fun m m' => (∃ r ∈ rs, r.targets m = true) →
        (∀ r ∈ rs, r.targets m = true → r.isReplacement = false) →
        ∃ index code, m'.code = some (index, code) ∧
          CallsHooks d.pool (file.dottedName ++ ("#" ++ m.signature))
            ((rs.filter (·.targets m)).filterMap Rule.enterHook?)
            ((rs.filter (·.targets m)).filterMap Rule.exitHook?) code.bytes)
        file.methods d.methods := by
  have codes := carryOut_isShort parsed applied.planned edited done small
  exact ⟨_, carryOut_settles parsed applied.planned edited done texts rules codes,
    calls_of_edited parsed applied edited done⟩

end Rereading

namespace Sample

lemma applied : Applied file rules.rules plan := by
  let middle : Plan := ⟨file, [⟨[⟨"h", "e"⟩], [], none, ["in"]⟩], ["in"]⟩
  have first : (Plan.of file).apply rules "in" = .ok middle := by decide +kernel
  have second : middle.apply rules "out" = .ok plan := by decide +kernel
  have taken : [] ++ (Plan.of file).taken rules "in" ++ middle.taken rules "out" = rules.rules := by
    decide +kernel
  exact taken ▸ (Applied.start.step first).step second

end Sample

theorem Plan.hookCalls_of_carryOut_sample :
    ∃ d, ClassFile.parse Sample.changed.encode = .ok d ∧
      ∃ m ∈ d.methods, ∃ index code, m.code = some (index, code) ∧
        CallsHooks d.pool "A#f()V" [⟨"h", "e"⟩] [⟨"h", "x"⟩] code.bytes := by
  have edited : Sample.plan.hasEdits = true := by decide +kernel
  have texts : ∀ c ∈ Sample.changed.pool.appended, c.IsShort := by decide +kernel
  have codes := Plan.carryOut_isShort Sample.parse_file Sample.planned edited Sample.carryOut_plan
    (by decide +kernel)
  have reread := Plan.carryOut_settles Sample.parse_file Sample.planned edited Sample.carryOut_plan
    texts (by decide) codes
  have hall := Plan.hookCalls_of_carryOut Sample.parse_file Sample.applied Sample.carryOut_plan reread
    texts codes
  obtain ⟨m, hm, hcalls⟩ := exists_of_forall₂ hall (List.mem_singleton.2 rfl)
  have enter : (Sample.rules.rules.filter (·.targets Sample.method)).filterMap Rule.enterHook? =
      [⟨"h", "e"⟩] := by decide +kernel
  have exit : (Sample.rules.rules.filter (·.targets Sample.method)).filterMap Rule.exitHook? =
      [⟨"h", "x"⟩] := by decide +kernel
  have site : Sample.file.dottedName ++ ("#" ++ Sample.method.signature) = "A#f()V" := by
    decide +kernel
  rw [enter, exit, site] at hcalls
  exact ⟨_, reread, m, hm, hcalls (by decide +kernel) (by decide +kernel)⟩

end ClassWeaver
