import ClassWeaver.Proofs.Unit.Results

namespace ClassWeaver

open FileTree TreeM FilePlace

def InputUnit.classesIn (u : InputUnit) (bytes : Bytes) : List (String × Bytes) :=
  match u.kind with
  | .file relative =>
    if (ClassName.ofFile? relative).isSome then [(u.classTitle relative, bytes)] else []
  | .archive =>
    match Zip.decode bytes with
    | .error _ => []
    | .ok contents =>
      ((contents.filterMap Except.toOption).filter fun e =>
        (ClassName.ofFile? e.name).isSome && !e.isDirectory).map fun e =>
          (u.classTitle e.name, e.data)

lemma InputUnit.classesIn_archive {u : InputUnit} {bytes : Bytes} {entries : List Entry}
    (hkind : u.kind = .archive) (hdecode : Zip.decode bytes = .ok (entries.map .ok)) :
    u.classesIn bytes = ((entries.filter (!·.isDirectory)).filter fun e =>
      (ClassName.ofFile? e.name).isSome).map fun e => (u.classTitle e.name, e.data) := by
  have hall : (entries.map (.ok : Entry → Except String Entry)).filterMap Except.toOption =
      entries := by
    rw [List.filterMap_map]
    exact List.filterMap_some
  rw [classesIn, hkind, hdecode]
  dsimp only
  rw [hall, List.filter_filter]

namespace Settings

variable (s : Settings)

def failureOf? (title : String) (bytes : Bytes) : Option Failure :=
  match s.weave bytes with
  | .ok (.failed fault) =>
    if !s.strictMode && fault.allowsPassthrough then none else some (.of title fault)
  | _ => none

def failuresIn (u : InputUnit) (bytes : Bytes) : List Failure :=
  (u.classesIn bytes).filterMap fun c => s.failureOf? c.1 c.2

def Handles (c : String × Bytes) (r : ArtifactReport) : Prop :=
  ∃ replacement, s.handle c.1 c.2 = .ok (replacement, r)

end Settings

namespace ArtifactReport

def failure? (r : ArtifactReport) : Option Failure :=
  if r.passthrough then none else (Tally.faultOf r).map (.of r.artifact)

def HoldsConflicts (r : ArtifactReport) : Prop :=
  ∀ c, Tally.faultOf r = some (.conflict c) → r.passthrough = false

end ArtifactReport

open ArtifactReport

namespace Settings.Handles

variable {s : Settings} {c : String × Bytes} {r : ArtifactReport}

lemma failure?_eq (h : s.Handles c r) : r.failure? = s.failureOf? c.1 c.2 := by
  obtain ⟨replacement, h⟩ := h
  obtain ⟨w, hweave, hreport⟩ := map_eq_ok_iff.1 h
  rw [failureOf?, hweave]
  cases w with
  | skipped | rewritten | failed =>
    cases hreport
    rfl

lemma holdsConflicts (h : s.Handles c r) : r.HoldsConflicts := by
  obtain ⟨replacement, h⟩ := h
  obtain ⟨w, -, hreport⟩ := map_eq_ok_iff.1 h
  intro conflict hconflict
  cases w with
  | skipped | rewritten =>
    cases hreport
    rfl
  | failed fault =>
    cases hreport
    cases hconflict
    exact Bool.and_false _

lemma failures_eq {u : InputUnit} {bytes : Bytes} {classes : List ArtifactReport}
    (h : List.Forall₂ s.Handles (u.classesIn bytes) classes) :
    classes.filterMap failure? = s.failuresIn u bytes := by
  rw [failuresIn]
  generalize u.classesIn bytes = artifacts at h
  induction h with
  | nil => rfl
  | cons hr _ ih => rw [List.filterMap_cons, List.filterMap_cons, hr.failure?_eq, ih]

end Settings.Handles

namespace RunContext

variable {run : RunContext} {u : InputUnit} {t t' : FileTree}

lemma handles_files {files : List Entry} {reports : List (Option ArtifactReport)}
    (h : List.Forall₂ (fun (e : Entry) report =>
      (run.decideEntry u e.name e.data).detail = .ok report) files reports) :
    List.Forall₂ run.settings.Handles
      ((files.filter fun e => (ClassName.ofFile? e.name).isSome).map fun e =>
        (u.classTitle e.name, e.data)) (reports.filterMap id) := by
  induction h with
  | nil => exact .nil
  | @cons e report files reports hreport _ ih =>
    unfold decideEntry at hreport
    split at hreport
    · next hname =>
      cases hreport
      rw [List.filter_cons_of_neg (by simpa using hname)]
      exact ih
    next hname =>
    rw [List.filter_cons_of_pos (by simpa [Option.isSome_iff_ne_none] using hname)]
    split at hreport
    · cases hreport
    · next replacement r hhandle =>
      cases hreport
      exact .cons ⟨replacement, hhandle⟩ ih

lemma handles_outputOf {relative : String} {bytes : Bytes} {output : Option Bytes}
    {classes : List ArtifactReport} {resources : Nat} (hkind : u.kind = .file relative)
    (h : run.outputOf u relative bytes = .ok (output, classes, resources)) :
    List.Forall₂ run.settings.Handles (u.classesIn bytes) classes := by
  unfold outputOf at h
  rw [InputUnit.classesIn, hkind]
  dsimp only
  split at h
  · next hname =>
    cases h
    rw [if_neg (by simpa using hname)]
    exact .nil
  · next hname =>
    obtain ⟨⟨replacement, r⟩, hhandle, hout⟩ := map_eq_ok_iff.1 h
    cases hout
    rw [if_pos (by simpa [Option.isSome_iff_ne_none] using hname)]
    exact .cons ⟨replacement, hhandle⟩ .nil

theorem handles_processUnit {result : UnitResult}
    (h : (run.processUnit system u).run.run.run t = (.ok (.ok result), t'))
    (hfresh : result.reused = false) :
    ∃ s bytes, Within (· = run.layout.stagedPlace u) t s ∧
      s.fileAt (ofPath u.path) = some bytes ∧
        List.Forall₂ run.settings.Handles (u.classesIn bytes) result.classes := by
  obtain ⟨bytes, hbytes, ⟨r, -, -, rfl⟩ | ⟨classes, resources, hkind, harchive, rfl⟩ |
    ⟨relative, output, classes, resources, hkind, houtput, rfl, -⟩⟩ := processUnit_cases h
  · cases hfresh
  · obtain ⟨s, bytes', entries, reports, hwithin, hbytes', hdecode, -, hreports, rfl⟩ :=
      processArchive_ok harchive
    refine ⟨s, bytes', hwithin, hbytes', ?_⟩
    rw [InputUnit.classesIn_archive hkind hdecode]
    exact handles_files hreports
  · exact ⟨t, bytes, .refl, hbytes, handles_outputOf hkind houtput⟩

end RunContext

end ClassWeaver
