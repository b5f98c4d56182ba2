import ClassWeaver.Proofs.Run.Phases

/-! A run that fails leaves the outputs and the snapshot of the last run as they are, unless it fails
when it is moving its own outputs to their places. -/

namespace ClassWeaver

open FileTree TreeM FilePlace

variable {t t' : FileTree} {l : Layout} {path : String}

structure Apart (l : Layout) (statePath : String) : Prop where
  notOutput : ∀ q, IsStorePlace statePath q → ¬ l.IsOutput q
  notStaged : ¬ l.IsStaged (ofPath statePath)
  twoFiles : ofPath statePath ≠ ofPath (lockPath statePath)

/-- The outputs and the snapshot that can be loaded are the same. -/
structure Spared (l : Layout) (statePath : String) (t t' : FileTree) : Prop where
  outputs : ∀ q, l.IsOutput q → t'.fileAt q = t.fileAt q
  snapshot : t'.stored statePath = t.stored statePath

lemma Layout.IsOutput.not_isStaged {q : FilePlace} (h : l.IsOutput q) : ¬ l.IsStaged q := by
  obtain ⟨scope, hscope⟩ := h
  exact l.not_staged_of_scope hscope

namespace Spared

lemma trans {t'' : FileTree} (h : Spared l path t t') (h' : Spared l path t' t'') :
    Spared l path t t'' where
  outputs q hq := (h'.outputs q hq).trans (h.outputs q hq)
  snapshot := h'.snapshot.trans h.snapshot

lemma of_staged (hapart : Apart l path) (h : Within l.IsStaged t t') : Spared l path t t' where
  outputs q hq := h.files q hq.not_isStaged
  snapshot := stored_congr (h.files _ hapart.notStaged)

end Spared

namespace Settings

variable {s : Settings} {i : Invocation} {units : List InputUnit} {store : Option StateStore}

lemma collect_ok {t₁ : FileTree} (h : (collect system i).run.run t = (.ok units, t₁)) :
    ∃ us, (Input.allUnits system i.inputs).run t = (.ok us, t₁) ∧
      units = InputUnit.distinct us := by
  unfold collect at h
  obtain ⟨found, t₂, hfound, h⟩ := bind_eq_iff.1 h
  split at h
  · cases (pure_eq_iff.1 h).1
  · obtain ⟨hunits, rfl⟩ := pure_eq_iff.1 h
    exact ⟨_, hfound, (Except.ok.inj hunits).symm⟩

lemma openStore_opens (htwo : ofPath i.statePath ≠ ofPath (lockPath i.statePath))
    (h : (s.openStore system i).run t = (store, t')) :
    StateStore.Opens i.statePath t store t' := by
  unfold openStore at h
  split at h
  · obtain ⟨opened, t₁, hopened, h⟩ := bind_eq_iff.1 h
    obtain ⟨rfl, rfl⟩ := pure_eq_iff.1 h
    exact StateStore.opens_openAt htwo hopened
  · obtain ⟨rfl, rfl⟩ := pure_eq_iff.1 h
    exact StateStore.opens_of_eq rfl rfl

namespace Begins

lemma exists_allUnits (h : Begins s i t units store t') :
    ∃ us, ((Input.allUnits system i.inputs).run t).1 = .ok us ∧
      units = InputUnit.distinct us := by
  obtain ⟨t₁, t₂, hcollect, -⟩ := h.steps
  obtain ⟨us, hus, hunits⟩ := collect_ok hcollect
  exact ⟨us, by rw [hus], hunits⟩

lemma staysInside (h : Begins s i t units store t') (ht : t.WellFormed) :
    ∀ u ∈ units, u.StaysInside := by
  obtain ⟨t₁, t₂, hcollect, -⟩ := h.steps
  obtain ⟨us, hus, rfl⟩ := collect_ok hcollect
  exact fun u hu => Input.staysInside_of_allUnits ht hus u (InputUnit.mem_of_mem_distinct hu)

lemma spared (h : Begins s i t units store t') (hapart : Apart i.layout i.statePath) :
    Spared i.layout i.statePath t t' := by
  obtain ⟨t₁, t₂, hcollect, hprepare, hopen⟩ := h.steps
  have hstaged : Within i.layout.IsStaged t t₂ :=
    (confined_collect.within hcollect).trans
      ((confined_prepareStaging fun _ hq => hq).within hprepare)
  refine (Spared.of_staged hapart hstaged).trans ⟨fun q hq => ?_, ?_⟩
  · refine ((confined_openStore fun _ hq => hq).within hopen).files q fun hstore => ?_
    exact hapart.notOutput q hstore hq
  · exact (openStore_opens hapart.twoFiles hopen).stored

end Begins

lemma read_of_forgetState (h : (forgetState system i).run t = ((), t')) (bytes : Bytes) :
    t'.read i.statePath ≠ .ok bytes := by
  unfold forgetState at h
  obtain ⟨r, t₁, hclean, h⟩ := bind_eq_iff.1 h
  obtain ⟨-, rfl⟩ := pure_eq_iff.1 h
  exact read_of_cleanState hclean bytes

lemma confined_results (hunits : ∀ u ∈ units, u.StaysInside) :
    Confined i.layout.IsStaged (resultsOf system (s.contextOf i store) units).run :=
  confined_resultsOf fun u hu => Layout.stagingPlace_prefix_stagedPlace (hunits u hu)

structure Reckons (s : Settings) (i : Invocation) (t : FileTree) (units : List InputUnit)
    (store : Option StateStore) (tally : Tally) (t' : FileTree) : Prop where
  steps : ∃ t₁ results, Begins s i t units store t₁ ∧
    (resultsOf system (s.contextOf i store) units).run.run t₁ = (.ok results, t') ∧
      tally = .of s.fingerprint results
  valid : tally.fault? = none

theorem ends_cases {r : Except Crash (Except RunFault RunReport)} (ht : t.WellFormed)
    (h : Ends s i t r t') :
    ((∀ report, r ≠ .ok (.ok report)) ∧ (Within i.layout.IsStaged t t' ∨
      ∃ units store t₁, Begins s i t units store t₁ ∧ Within i.layout.IsStaged t₁ t')) ∨
    ∃ units store tally t₁, Reckons s i t units store tally t₁ ∧
      ((∃ c t₂ t₃, (i.layout.commit system (s.prior? i store) tally.next tally.staged).run.run t₁ =
            (.error c, t₂) ∧ (i.layout.discardStaging system).run t₂ = ((), t₃) ∧
          (forgetState system i).run t₃ = ((), t') ∧ r = .ok (.error (.setup c.causes))) ∨
        ∃ removed t₂ report,
          (i.layout.commit system (s.prior? i store) tally.next tally.staged).run.run t₁ =
            (.ok removed, t₂) ∧
          (saveState system i store tally.next).run t₂ = ((), t') ∧ r = .ok (.ok report)) := by
  have hdiscarded : ∀ {t₁ t₂ : FileTree}, (i.layout.discardStaging system).run t₁ = ((), t₂) →
      Within i.layout.IsStaged t₁ t₂ :=
    fun h => (Layout.confined_discardStaging fun _ hq => hq).within h
  have hstaged : ∀ {units done : List InputUnit} {store : Option StateStore} {t₁ t₂ : FileTree}
      {r : Except Crash (List UnitResult)}, Begins s i t units store t₁ →
      done.Sublist units → (resultsOf system (s.contextOf i store) done).run.run t₁ = (r, t₂) →
      Within i.layout.IsStaged t₁ t₂ := fun hbegins hdone hresults =>
    (confined_results fun u hu => hbegins.staysInside ht u (hdone.mem hu)).within hresults
  cases h with
  | calledOff hbegins hdone hresults hdiscard =>
    exact .inl ⟨nofun, .inr ⟨_, _, _, hbegins,
      (hstaged hbegins hdone hresults).trans (hdiscarded hdiscard)⟩⟩
  | byItself h =>
    rcases run_cases h with ⟨_, rfl, -, hwithin⟩ | ⟨units, store, t₁, hbegins, hrest⟩
    · exact .inl ⟨nofun, .inl hwithin⟩
    rcases hrest with ⟨e, hresults, rfl⟩ | ⟨results, t₂, q, hresults, hfinish, rfl⟩
    · exact .inl ⟨nofun, .inr ⟨_, _, _, hbegins, hstaged hbegins (.refl _) hresults⟩⟩
    rcases finish_cases hfinish with ⟨_, -, rfl, hdiscard⟩ | ⟨hvalid, hcommit⟩
    · exact .inl ⟨nofun, .inr ⟨_, _, _, hbegins,
        (hstaged hbegins (.refl _) hresults).trans (hdiscarded hdiscard)⟩⟩
    refine .inr ⟨units, store, _, t₂, ⟨⟨t₁, results, hbegins, hresults, rfl⟩, hvalid⟩, ?_⟩
    rcases hcommit with ⟨c, t₃, t₄, hc, hdiscard, hforget, rfl⟩ | ⟨removed, t₃, hok, hsave, rfl⟩
    · exact .inl ⟨c, t₃, t₄, hc, hdiscard, hforget, rfl⟩
    · exact .inr ⟨removed, t₃, _, hok, hsave, rfl⟩

/-- Until its outputs are committed there is nothing that a run cannot take back. If the commit fails
some of them may be lost, but then nothing is left that could be taken for a record of them. -/
theorem error_spares {fault : RunFault} (ht : t.WellFormed)
    (hapart : Apart i.layout i.statePath) (h : Ends s i t (.ok (.error fault)) t') :
    ((∀ q, i.layout.IsOutput q → t'.fileAt q = t.fileAt q) ∧
        t'.kept i.statePath = t.kept i.statePath) ∨
      (∃ c : CommitFault, fault = .setup c.causes) ∧ ∀ bytes, t'.read i.statePath ≠ .ok bytes := by
  have hspared : Spared i.layout i.statePath t t' →
      (∀ q, i.layout.IsOutput q → t'.fileAt q = t.fileAt q) ∧
        t'.kept i.statePath = t.kept i.statePath :=
    fun h => ⟨h.outputs, kept_congr h.snapshot⟩
  rcases ends_cases ht h with ⟨-, hstaged | ⟨units, store, t₁, hbegins, hstaged⟩⟩ |
    ⟨units, store, tally, t₁, -, hcommit⟩
  · exact .inl (hspared (.of_staged hapart hstaged))
  · exact .inl (hspared ((hbegins.spared hapart).trans (.of_staged hapart hstaged)))
  rcases hcommit with ⟨c, t₂, t₃, -, -, hforget, hfault⟩ | ⟨removed, t₂, report, -, -, hok⟩
  · exact .inr ⟨⟨c, Except.error.inj (Except.ok.inj hfault)⟩, read_of_forgetState hforget⟩
  · cases hok

section Sample

def sampleSettings : Settings :=
  ⟨true, [], [], true, false, true, 0, none, ⟨[]⟩, ⟨none, [], true⟩⟩

def sampleInvocation : Invocation := ⟨[], ⟨"out"⟩, false, "out.state", false⟩

def sampleOutput : FilePlace := ["out", "project", "a"]

def sampleTree : FileTree :=
  ⟨[(["out"], .directory), (["out", "project"], .directory), (sampleOutput, .file [1]),
    (["out", "sub-projects"], .file [])]⟩

theorem error_spares_sample : ∃ fault t',
    sampleTree.WellFormed ∧ Apart sampleInvocation.layout sampleInvocation.statePath ∧
    (sampleSettings.run system sampleInvocation).run.run.run sampleTree =
      (.ok (.error fault), t') ∧
    sampleTree.fileAt sampleOutput = some [1] ∧ t'.fileAt sampleOutput = none ∧
    (∃ c : CommitFault, fault = .setup c.causes) := by
  have hwell : sampleTree.WellFormed := wellFormed_of_nodes (by decide)
  have hapart : Apart sampleInvocation.layout sampleInvocation.statePath := by
    refine ⟨?_, by decide, by decide⟩
    rintro q (rfl | rfl) ⟨scope, hscope⟩ <;> cases scope <;> exact absurd hscope (by decide)
  have hrun : (sampleSettings.run system sampleInvocation).run.run.run sampleTree =
      (.ok (.error (.setup ["Failed to clear output dir: out/sub-projects",
        "Not a directory (os error 20)"])),
        ⟨[(["out"], .directory), (["out", "sub-projects"], .file [])]⟩) := by
    show @Eq (Except Crash (Except RunFault RunReport) × FileTree) _ _
    decide +kernel
  refine ⟨_, _, hwell, hapart, hrun, by decide, by decide, ?_⟩
  rcases error_spares hwell hapart (.byItself hrun) with ⟨houtputs, -⟩ | ⟨hcommit, -⟩
  · exact absurd (houtputs sampleOutput ⟨.project, by decide⟩) (by decide)
  · exact hcommit

end Sample

end Settings

end ClassWeaver
