import ClassWeaver.Proofs.Archive.Transformation
import ClassWeaver.Run.Tally
import ClassWeaver.Unit.Process

namespace ClassWeaver

namespace Settings

variable (s : Settings)

def replacement? (name : String) (bytes : Bytes) : Option Bytes :=
  if (ClassName.ofFile? name).isNone then none
  else
    match s.weave bytes with
    | .ok (.rewritten _ out _) => some out
    | _ => none

def expectedArchive (entries : List Entry) : Bytes :=
  Zip.encode (entries.map fun e => e.written (s.replacement? e.name e.data))

/-- The output of a unit with these contents when it is processed from scratch. None is expected of
what is no archive, although it ought to be one. -/
def expected? (kind : UnitKind) (bytes : Bytes) : Option Bytes :=
  match kind with
  | .file relative => some ((s.replacement? relative bytes).getD bytes)
  | .archive =>
    match Zip.decode bytes with
    | .error _ => none
    | .ok contents => (contents.mapM Except.toOption).map s.expectedArchive

variable {s}

lemma expected?_archive {bytes : Bytes} {entries : List Entry}
    (h : Zip.decode bytes = .ok (entries.map .ok)) :
    s.expected? .archive bytes = some (s.expectedArchive entries) := by
  have hall : (entries.map Except.ok).mapM
      (Except.toOption : Except String Entry → Option Entry) = some entries := by
    clear h
    induction entries with
    | nil => rfl
    | cons e entries ih =>
      rw [List.map_cons, List.mapM_cons, ih]
      rfl
  rw [expected?, h]
  dsimp only
  rw [hall]
  rfl

end Settings

structure ArtifactReport.Blocks (r : ArtifactReport) : Prop where
  state : r.state = .failed
  passthrough : r.passthrough = false
  fault : r.fault.isSome

lemma ArtifactReport.blocks_ofFault (title : String) (fault : ArtifactFault) :
    (ofFault title fault false).Blocks := ⟨rfl, rfl, rfl⟩

lemma Tally.not_blocks {t : Tally} (h : t.fault? = none) {r : ArtifactReport}
    (hr : r ∈ t.classes) : ¬ r.Blocks := by
  rintro ⟨hstate, hpass, hsome⟩
  obtain ⟨fault, hfault⟩ := Option.isSome_iff_exists.1 hsome
  have hof : faultOf r = some fault := by rw [faultOf, if_pos hstate, hfault]
  unfold fault? at h
  split at h
  · cases h
  next hconflict =>
  split at h
  · cases h
  next hfatal =>
  have hnone := List.filterMap_eq_nil_iff.1 hconflict r hr
  have hnone' := List.filterMap_eq_nil_iff.1 hfatal r hr
  rw [conflictOf, hof] at hnone
  rw [fatalOf, hof] at hnone'
  cases fault <;> simp_all

namespace RunContext

variable {run : RunContext} {u : InputUnit} {bytes : Bytes}

lemma replacement_decideEntry (name : String) :
    (run.decideEntry u name bytes).replacement = run.settings.replacement? name bytes := by
  unfold decideEntry Settings.replacement?
  split
  · rfl
  · rw [Settings.handle]
    cases run.settings.weave bytes with
    | error e => rfl
    | ok w => cases w <;> rfl

lemma decided_decideEntry (e : Entry) : e.decided (run.decideEntry u) =
    e.written (run.settings.replacement? e.name e.data) := by
  rw [Entry.decided, replacement_decideEntry]

lemma outputOf_cases {relative : String} {output : Option Bytes} {classes : List ArtifactReport}
    {resources : Nat}
    (h : run.outputOf u relative bytes = .ok (output, classes, resources)) :
    output = run.settings.expected? (.file relative) bytes ∨
      output = none ∧ ∃ r ∈ classes, r.Blocks := by
  unfold outputOf at h
  rw [Settings.expected?, Settings.replacement?]
  split at h
  · next hname =>
    cases h
    rw [if_pos hname]
    exact .inl rfl
  · next hname =>
    obtain ⟨⟨replacement, report⟩, hhandle, hout⟩ := map_eq_ok_iff.1 h
    obtain ⟨w, hweave, hreport⟩ := map_eq_ok_iff.1 hhandle
    cases hout
    rw [if_neg hname, hweave]
    cases w with
    | skipped reason =>
      cases hreport
      exact .inl rfl
    | rewritten name out rules =>
      cases hreport
      exact .inl rfl
    | failed fault =>
      cases hreport
      by_cases hpass : (!run.settings.strictMode && fault.allowsPassthrough) = true
      · rw [hpass]
        exact .inl rfl
      · rw [Bool.not_eq_true] at hpass
        rw [hpass]
        exact .inr ⟨rfl, _, List.mem_singleton.2 rfl, ArtifactReport.blocks_ofFault _ _⟩

end RunContext

end ClassWeaver
