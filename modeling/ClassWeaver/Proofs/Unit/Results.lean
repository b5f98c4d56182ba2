import ClassWeaver.Proofs.Unit.Confinement
import ClassWeaver.Proofs.Unit.Expected

namespace ClassWeaver

open FileTree TreeM FilePlace

variable {α : Type} {t t' : FileTree} {path : String}

namespace FileSystem

lemma worded_observe_run (f : FileTree → Except FileFault α) :
    (worded (observe f)).run t = ((f t).mapError FileFault.message, t) := rfl

lemma retryRead_observe_ok {what : String} {f : FileTree → Except FileFault α} {a : α}
    (h : (retryRead what (worded (observe f))).run t = (.ok a, t')) : t = t' ∧ f t = .ok a := by
  obtain ⟨first, s, hfirst, h⟩ := bind_eq_iff.1 h
  rw [worded_observe_run] at hfirst
  obtain ⟨rfl, rfl⟩ := Prod.mk.inj hfirst
  cases hf : f t with
  | ok b =>
    rw [hf] at h
    obtain ⟨hb, rfl⟩ := pure_eq_iff.1 h
    exact ⟨rfl, congrArg Except.ok (Except.ok.inj hb)⟩
  | error fault =>
    rw [hf] at h
    obtain ⟨second, s, hsecond, h⟩ := bind_eq_iff.1 h
    rw [worded_observe_run, hf] at hsecond
    obtain ⟨rfl, rfl⟩ := Prod.mk.inj hsecond
    cases (pure_eq_iff.1 h).1

lemma mapError_worded_ok {attempt : ExceptT FileFault TreeM α} {fault : String → IoFault} {a : α}
    (h : (do return (← worded attempt).mapError fault : TreeM (Except IoFault α)).run t =
      (.ok a, t')) : attempt.run.run t = (.ok a, t') := by
  obtain ⟨told, s, htold, h⟩ := bind_eq_iff.1 h
  obtain ⟨htold', rfl⟩ := pure_eq_iff.1 h
  obtain ⟨r, s', hr, hword⟩ := bind_eq_iff.1 htold
  obtain ⟨rfl, rfl⟩ := pure_eq_iff.1 hword
  rwa [mapError_eq_ok_iff.1 (mapError_eq_ok_iff.1 htold')] at hr

lemma transformArchive_ok {source target : String} {threshold : Nat}
    {decide : String → Bytes → Decision α} {details : List (String × α)}
    (h : (transformArchive system source target threshold decide).run.run t =
      (.ok details, t')) : ∃ s bytes mode out, Within (· = ofPath target) t s ∧
        s.fileAt (ofPath source) = some bytes ∧
          transformBytes source decide mode bytes = .ok (out, details) ∧
            t'.fileAt (ofPath target) = some out := by
  unfold transformArchive at h
  dsimp only at h
  obtain ⟨info, t₁, hinfo, h⟩ := bindE_ok_iff.1 h
  obtain ⟨rfl, -⟩ := retryRead_observe_ok hinfo
  obtain ⟨_, t₁, hparent, h⟩ := bindE_ok_iff.1 h
  obtain ⟨_, t₂, hbegin, h⟩ := bindE_ok_iff.1 h
  obtain ⟨bytes, t₃, hread, h⟩ := bindE_ok_iff.1 h
  obtain ⟨rfl, hbytes⟩ := retryRead_observe_ok hread
  obtain ⟨⟨out, details'⟩, t₃, hpure, h⟩ := bindE_ok_iff.1 h
  obtain ⟨htransform, rfl⟩ := pure_eq_iff.1 hpure
  obtain ⟨_, t₄, hwrite, h⟩ := bindE_ok_iff.1 h
  cases h
  have hbefore : Confined (· = ofPath target) (makeParent system target).run :=
    confined_makeParent target
  have hbegun : Confined (· = ofPath target) (system.write target []).run := confined_write rfl
  exact ⟨t₂, bytes, _, out, (hbefore.within (mapError_worded_ok hparent)).trans
    (hbegun.within (mapError_worded_ok hbegin)), fileAt_of_read hbytes, htransform,
    fileAt_of_write (change_ok_iff.1 (mapError_worded_ok hwrite))⟩

end FileSystem

open FileSystem

def UnitResult.Blocked (result : UnitResult) : Prop := ∃ r ∈ result.classes, r.Blocks

namespace RunContext

variable {run : RunContext} {u : InputUnit}

section Steps

lemma lowered_ok {action : ExceptT IoFault TreeM α} {a : α}
    (h : (lowered action).run.run.run t = (.ok (.ok a), t')) : action.run.run t = (.ok a, t') := by
  have hlow : (lowered action).run.run.run t =
      (.ok (action.run.run t).1, (action.run.run t).2) := rfl
  rw [hlow] at h
  obtain ⟨ha, ht⟩ := Prod.mk.inj h
  exact Prod.ext (Except.ok.inj ha) ht

lemma answered_ok {answer : Except Crash α} {a : α}
    (h : (answered answer : UnitM TreeM α).run.run.run t = (.ok (.ok a), t')) :
    t = t' ∧ answer = .ok a := by
  cases answer with
  | error e => cases (Prod.mk.inj h).1
  | ok b =>
    obtain ⟨hb, ht⟩ := Prod.mk.inj h
    exact ⟨ht, congrArg Except.ok (Except.ok.inj (Except.ok.inj hb))⟩

lemma reusable?_eq {hash : String} {found : Option UnitRecord}
    (h : (run.reusable? system u hash).run t = (found, t')) : t = t' ∧ ∀ r, found = some r →
      run.prior.bind (·.reusable? u.key hash) = some r ∧ r.output = Layout.unitLocation u := by
  unfold reusable? at h
  split at h
  · cases h
    exact ⟨rfl, nofun⟩
  next r hr =>
  split at h
  · cases h
    exact ⟨rfl, nofun⟩
  next hplace =>
  obtain ⟨there, s, hthere, h⟩ := bind_eq_iff.1 h
  obtain ⟨rfl, -⟩ := exists_eq_iff.1 hthere
  split at h
  · cases h
    refine ⟨rfl, fun r' hr' => ?_⟩
    cases hr'
    exact ⟨hr, by simpa using hplace⟩
  · cases h
    exact ⟨rfl, nofun⟩

lemma writeStaged_ok {bytes : Bytes}
    (h : (writeStaged system path bytes).run.run t = (.ok (), t')) :
    t'.fileAt (ofPath path) = some bytes := by
  obtain ⟨_, s, -, h⟩ := bindE_ok_iff.1 h
  exact fileAt_of_write (change_ok_iff.1 (mapError_worded_ok h))

lemma processArchive_ok {classes : List ArtifactReport} {resources : Nat}
    (h : (run.processArchive system u).run.run.run t = (.ok (.ok (classes, resources)), t')) :
    ∃ s bytes entries reports, Within (· = run.layout.stagedPlace u) t s ∧
      s.fileAt (ofPath u.path) = some bytes ∧ Zip.decode bytes = .ok (entries.map .ok) ∧
        t'.fileAt (run.layout.stagedPlace u) = some (run.settings.expectedArchive entries) ∧
          List.Forall₂ (fun (e : Entry) report =>
            (run.decideEntry u e.name e.data).detail = .ok report)
              (entries.filter (!·.isDirectory)) reports ∧ classes = reports.filterMap id := by
  unfold processArchive at h
  obtain ⟨details, t₁, hdetails, h⟩ := bindEE_ok_iff.1 h
  obtain ⟨reports, t₂, hreports, h⟩ := bindEE_ok_iff.1 h
  obtain ⟨rfl, htold⟩ := answered_ok hreports
  cases h
  obtain ⟨s, bytes, mode, out, hwithin, hbytes, htransform, hout⟩ :=
    transformArchive_ok (lowered_ok hdetails)
  obtain ⟨entries, hdecode, rfl, rfl⟩ := transformBytes_ok htransform
  have hdecided : Entry.decided (run.decideEntry u) =
      fun e => e.written (run.settings.replacement? e.name e.data) := funext decided_decideEntry
  rw [hdecided] at hout
  rw [mapM_eq_ok_iff, List.forall₂_map_left_iff] at htold
  exact ⟨s, bytes, entries, reports, hwithin, hbytes, hdecode, hout, htold, rfl⟩

lemma processUnit_cases {result : UnitResult}
    (h : (run.processUnit system u).run.run.run t = (.ok (.ok result), t')) :
    ∃ bytes, t.fileAt (ofPath u.path) = some bytes ∧
      ((∃ r, run.prior.bind (·.reusable? u.key (contentHash bytes)) = some r ∧
          r.output = Layout.unitLocation u ∧ result = .reuse r 0) ∨
        (∃ classes resources, u.kind = .archive ∧
          (run.processArchive system u).run.run.run t = (.ok (.ok (classes, resources)), t') ∧
            result = .finished u (contentHash bytes) 0 classes resources true) ∨
        ∃ relative output classes resources, u.kind = .file relative ∧
          run.outputOf u relative bytes = .ok (output, classes, resources) ∧
            result = .finished u (contentHash bytes) 0 classes resources output.isSome ∧
              ∀ out, output = some out → t'.fileAt (run.layout.stagedPlace u) = some out) := by
  unfold processUnit at h
  obtain ⟨lastModified, s, hmodified, h⟩ := liftEE_bind_iff.1 h
  rw [modified_run] at hmodified
  obtain ⟨rfl, rfl⟩ := Prod.mk.inj hmodified
  obtain ⟨bytes, s, hread, h⟩ := bindEE_ok_iff.1 h
  obtain ⟨rfl, hbytes⟩ := retryRead_observe_ok (lowered_ok hread)
  obtain ⟨found, s, hfound, h⟩ := liftEE_bind_iff.1 h
  obtain ⟨rfl, hprior⟩ := reusable?_eq hfound
  refine ⟨bytes, fileAt_of_read hbytes, ?_⟩
  cases found with
  | some r =>
    cases h
    obtain ⟨hr, hplace⟩ := hprior r rfl
    exact .inl ⟨r, hr, hplace, rfl⟩
  | none =>
    dsimp only at h
    split at h
    · next hkind =>
      obtain ⟨⟨classes, resources⟩, s, harchive, h⟩ := bindEE_ok_iff.1 h
      cases h
      exact .inr (.inl ⟨classes, resources, hkind, harchive, rfl⟩)
    · next relative hkind =>
      obtain ⟨⟨output, classes, resources⟩, s, hanswer, h⟩ := bindEE_ok_iff.1 h
      obtain ⟨rfl, houtput⟩ := answered_ok hanswer
      refine .inr (.inr ⟨relative, output, classes, resources, hkind, houtput, ?_⟩)
      cases output with
      | none =>
        cases h
        exact ⟨rfl, nofun⟩
      | some out =>
        obtain ⟨_, s, hwrite, h⟩ := bindEE_ok_iff.1 h
        cases h
        refine ⟨rfl, fun _ hout => ?_⟩
        cases hout
        exact writeStaged_ok (lowered_ok hwrite)

end Steps

inductive Yields (run : RunContext) (u : InputUnit) (t t' : FileTree) : UnitResult → Prop
  | reused {bytes : Bytes} {r : UnitRecord} (hinput : t.fileAt (ofPath u.path) = some bytes)
      (hprior : run.prior.bind (·.reusable? u.key (contentHash bytes)) = some r)
      (hplace : r.output = Layout.unitLocation u) : Yields run u t t' (.reuse r 0)
  | staged {bytes out : Bytes} {classes : List ArtifactReport} {resources : Nat}
      (hinput : t.fileAt (ofPath u.path) = some bytes)
      (hexpected : run.settings.expected? u.kind bytes = some out)
      (houtput : t'.fileAt (run.layout.stagedPlace u) = some out) :
      Yields run u t t' (.finished u (contentHash bytes) 0 classes resources true)

lemma Yields.congr {s s' : FileTree} {result : UnitResult} (h : Yields run u t t' result)
    (hinput : s.fileAt (ofPath u.path) = t.fileAt (ofPath u.path))
    (houtput : s'.fileAt (run.layout.stagedPlace u) = t'.fileAt (run.layout.stagedPlace u)) :
    Yields run u s s' result := by
  cases h with
  | reused hbytes hprior hplace => exact .reused (hinput.trans hbytes) hprior hplace
  | staged hbytes hexpected hout =>
    exact .staged (hinput.trans hbytes) hexpected (houtput.trans hout)

lemma yields_processUnit {result : UnitResult} (hinput : ofPath u.path ≠ run.layout.stagedPlace u)
    (h : (run.processUnit system u).run.run.run t = (.ok (.ok result), t')) :
    result.Blocked ∨ Yields run u t t' result := by
  obtain ⟨bytes, hbytes, ⟨r, hprior, hplace, rfl⟩ | ⟨classes, resources, hkind, harchive, rfl⟩ |
    ⟨relative, output, classes, resources, hkind, houtput, rfl, hstaged⟩⟩ := processUnit_cases h
  · exact .inr (.reused hbytes hprior hplace)
  · obtain ⟨s, bytes', entries, -, hwithin, hbytes', hdecode, hout, -⟩ :=
      processArchive_ok harchive
    rw [hwithin.files _ hinput, hbytes] at hbytes'
    cases hbytes'
    refine .inr (.staged hbytes ?_ hout)
    rw [hkind]
    exact Settings.expected?_archive hdecode
  · rcases outputOf_cases houtput with hsome | ⟨-, hblocked⟩
    · rw [← hkind] at hsome
      cases output with
      | none =>
        rw [hkind] at hsome
        cases hsome
      | some out => exact .inr (.staged hbytes hsome.symm (hstaged out rfl))
    · exact .inl hblocked

theorem yields_resultOf {result : UnitResult} (hinput : ofPath u.path ≠ run.layout.stagedPlace u)
    (h : (run.resultOf system u).run.run t = (.ok result, t')) :
    result.Blocked ∨ Yields run u t t' result := by
  unfold resultOf at h
  obtain ⟨answer, s, hanswer, h⟩ := bindE_ok_iff.1 h
  cases answer with
  | ok r =>
    cases h
    exact yields_processUnit hinput hanswer
  | error fault =>
    cases h
    exact .inl ⟨_, List.mem_singleton.2 rfl, ArtifactReport.blocks_ofFault _ _⟩

end RunContext

end ClassWeaver
