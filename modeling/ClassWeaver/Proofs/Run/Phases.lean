import ClassWeaver.Proofs.Run.Confinement

namespace ClassWeaver

open FileTree TreeM FilePlace

namespace Settings

variable {s : Settings} {i : Invocation} {t t' : FileTree}

section Lowered

variable {α β : Type}

lemma lowered_run (action : ExceptT RunFault TreeM α) (t : FileTree) :
    (lowered action).run.run.run t = (.ok (action.run.run t).1, (action.run.run t).2) := rfl

lemma lowered_bind_eq {action : ExceptT RunFault TreeM α} {f : α → RunM TreeM β}
    {r : Except Crash (Except RunFault β)}
    (h : (lowered action >>= f).run.run.run t = (r, t')) :
    (∃ a s, action.run.run t = (.ok a, s) ∧ (f a).run.run.run s = (r, t')) ∨
      ∃ fault, action.run.run t = (.error fault, t') ∧ r = .ok (.error fault) := by
  have hlow := lowered_run action t
  rcases bindEE_eq h with ⟨a, s, hx, hf⟩ | ⟨e, hx, rfl⟩ | ⟨e, hx, rfl⟩
  · rw [hlow] at hx
    obtain ⟨ha, hs⟩ := Prod.mk.inj hx
    exact .inl ⟨a, s, Prod.ext (Except.ok.inj ha) hs, hf⟩
  · rw [hlow] at hx
    obtain ⟨ha, hs⟩ := Prod.mk.inj hx
    exact .inr ⟨e, Prod.ext (Except.ok.inj ha) hs, rfl⟩
  · rw [hlow] at hx
    cases (Prod.mk.inj hx).1

lemma lowered_bind_run {action : ExceptT RunFault TreeM α} {f : α → RunM TreeM β} {a : α}
    (h : action.run.run t = (.ok a, t')) :
    (lowered action >>= f).run.run.run t = (f a).run.run.run t' := by
  rw [ExceptT.run_bind, ExceptT.run_bind, StateT.run_bind, lowered_run, h]
  rfl

lemma lowered_eq_iff {action : ExceptT RunFault TreeM α} {r : Except Crash (Except RunFault α)} :
    (lowered action).run.run.run t = (r, t') ↔ ∃ q, action.run.run t = (q, t') ∧ r = .ok q := by
  rw [lowered_run]
  constructor
  · intro h
    obtain ⟨hr, ht⟩ := Prod.mk.inj h
    exact ⟨_, Prod.ext rfl ht, hr.symm⟩
  · rintro ⟨q, hq, rfl⟩
    rw [hq]

lemma lift_bind_eq {action : ExceptT Crash TreeM α} {f : α → RunM TreeM β}
    {r : Except Crash (Except RunFault β)}
    (h : (ExceptT.lift action >>= f).run.run.run t = (r, t')) :
    (∃ a s, action.run.run t = (.ok a, s) ∧ (f a).run.run.run s = (r, t')) ∨
      ∃ e, action.run.run t = (.error e, t') ∧ r = .error e := by
  rw [ExceptT.run_bind, ExceptT.run_lift, bind_map_left] at h
  exact bindE_eq h

end Lowered

structure Begins (s : Settings) (i : Invocation) (t : FileTree) (units : List InputUnit)
    (store : Option StateStore) (t' : FileTree) : Prop where
  called : i.cancelled = false
  steps : ∃ t₁ t₂, (collect system i).run.run t = (.ok units, t₁) ∧
    (prepareStaging system i).run.run t₁ = (.ok (), t₂) ∧
      (s.openStore system i).run t₂ = (store, t')

def contextOf (s : Settings) (i : Invocation) (store : Option StateStore) : RunContext :=
  ⟨s, i.layout, s.prior? i store⟩

lemma collect_error {fault : RunFault} (h : (collect system i).run.run t = (.error fault, t')) :
    ∃ causes, fault = .setup causes := by
  unfold collect at h
  obtain ⟨found, t₁, -, h⟩ := bind_eq_iff.1 h
  split at h <;> cases h
  exact ⟨_, rfl⟩

lemma prepareStaging_error {fault : RunFault}
    (h : (prepareStaging system i).run.run t = (.error fault, t')) :
    ∃ causes, fault = .setup causes := by
  unfold prepareStaging at h
  obtain ⟨_, t₁, -, h⟩ := liftE_bind_iff.1 h
  obtain ⟨made, t₂, -, h⟩ := liftE_bind_iff.1 h
  split at h <;> cases h
  exact ⟨_, rfl⟩

theorem run_cases {r : Except Crash (Except RunFault RunReport)}
    (h : (s.run system i).run.run.run t = (r, t')) :
    (∃ fault, r = .ok (.error fault) ∧ (fault = .cancelled ∨ ∃ causes, fault = .setup causes) ∧
      Within i.layout.IsStaged t t') ∨
    ∃ units store t₁, Begins s i t units store t₁ ∧
      ((∃ e, (resultsOf system (s.contextOf i store) units).run.run t₁ = (.error e, t') ∧
          r = .error e) ∨
        ∃ results t₂ q,
          (resultsOf system (s.contextOf i store) units).run.run t₁ = (.ok results, t₂) ∧
            (finish system i store (s.prior? i store) units.length
              (.of s.fingerprint results)).run.run t₂ = (q, t') ∧ r = .ok q) := by
  unfold run at h
  dsimp only at h
  split at h
  · cases h
    exact .inl ⟨.cancelled, rfl, .inl rfl, .refl⟩
  next hcalled =>
  rcases lowered_bind_eq h with ⟨units, t₁, hcollect, h⟩ | ⟨fault, hcollect, rfl⟩
  · have hsame : Within i.layout.IsStaged t t₁ := confined_collect.within hcollect
    rcases lowered_bind_eq h with ⟨_, t₂, hprepare, h⟩ | ⟨fault, hprepare, rfl⟩
    · obtain ⟨store, t₃, hopen, h⟩ := liftEE_bind_iff.1 h
      have hbegins : Begins s i t units store t₃ :=
        ⟨by simpa using hcalled, t₁, t₂, hcollect, hprepare, hopen⟩
      refine .inr ⟨units, store, t₃, hbegins, ?_⟩
      rcases lift_bind_eq h with ⟨results, t₄, hresults, h⟩ | ⟨e, hresults, rfl⟩
      · obtain ⟨q, hfinish, rfl⟩ := lowered_eq_iff.1 h
        exact .inr ⟨results, t₄, q, hresults, hfinish, rfl⟩
      · exact .inl ⟨e, hresults, rfl⟩
    · exact .inl ⟨fault, rfl, .inr (prepareStaging_error hprepare),
        hsame.trans ((confined_prepareStaging fun _ hq => hq).within hprepare)⟩
  · exact .inl ⟨fault, rfl, .inr (collect_error hcollect), confined_collect.within hcollect⟩

lemma Begins.run_eq {units : List InputUnit} {store : Option StateStore} {t₁ : FileTree}
    (h : Begins s i t units store t₁) : (s.run system i).run.run.run t =
      (do
        let results ← ExceptT.lift (resultsOf system (s.contextOf i store) units)
        lowered (finish system i store (s.prior? i store) units.length
          (.of s.fingerprint results)) : RunM TreeM RunReport).run.run.run t₁ := by
  obtain ⟨t₂, t₃, hcollect, hprepare, hopen⟩ := h.steps
  unfold run
  rw [h.called]
  refine (lowered_bind_run hcollect).trans ((lowered_bind_run hprepare).trans ?_)
  exact liftEE_bind_iff.2 ⟨store, t₁, hopen, rfl⟩

theorem finish_cases {store : Option StateStore} {prior : Option Snapshot} {units : Nat}
    {tally : Tally} {q : Except RunFault RunReport}
    (h : (finish system i store prior units tally).run.run t = (q, t')) :
    (∃ fault, tally.fault? = some fault ∧ q = .error fault ∧
      (i.layout.discardStaging system).run t = ((), t')) ∨
    tally.fault? = none ∧
      ((∃ c t₁ t₂, (i.layout.commit system prior tally.next tally.staged).run.run t = (.error c, t₁) ∧
          (i.layout.discardStaging system).run t₁ = ((), t₂) ∧
            (forgetState system i).run t₂ = ((), t') ∧ q = .error (.setup c.causes)) ∨
        ∃ removed t₁,
          (i.layout.commit system prior tally.next tally.staged).run.run t = (.ok removed, t₁) ∧
            (saveState system i store tally.next).run t₁ = ((), t') ∧
              q = .ok (tally.report prior.isSome units removed)) := by
  unfold finish at h
  split at h
  · next fault hfault =>
    obtain ⟨_, t₁, hdiscard, h⟩ := liftE_bind_iff.1 h
    cases h
    exact .inl ⟨fault, hfault, rfl, hdiscard⟩
  · next hfault =>
    refine .inr ⟨hfault, ?_⟩
    obtain ⟨committed, t₁, hcommit, h⟩ := liftE_bind_iff.1 h
    cases committed with
    | error c =>
      obtain ⟨_, t₂, hdiscard, h⟩ := liftE_bind_iff.1 h
      obtain ⟨_, t₃, hforget, h⟩ := liftE_bind_iff.1 h
      cases h
      exact .inl ⟨c, t₁, t₂, hcommit, hdiscard, hforget, rfl⟩
    | ok removed =>
      obtain ⟨_, t₂, hsave, h⟩ := liftE_bind_iff.1 h
      cases h
      exact .inr ⟨removed, t₁, hcommit, hsave, rfl⟩

lemma finish_eq {store : Option StateStore} {prior : Option Snapshot} {units removed : Nat}
    {tally : Tally} {t₁ : FileTree} (hfault : tally.fault? = none)
    (hcommit : (i.layout.commit system prior tally.next tally.staged).run.run t =
      (.ok removed, t₁))
    (hsave : (saveState system i store tally.next).run t₁ = ((), t')) :
    (finish system i store prior units tally).run.run t =
      (.ok (tally.report prior.isSome units removed), t') := by
  unfold finish
  rw [hfault]
  exact liftE_bind_iff.2 ⟨.ok removed, t₁, hcommit, liftE_bind_iff.2 ⟨(), t', hsave, rfl⟩⟩

/-- How a run can end. A host may call it off while units are being processed, so that only some of them
are done; what they have staged is thrown away then. -/
inductive Ends (s : Settings) (i : Invocation) (t : FileTree) :
    Except Crash (Except RunFault RunReport) → FileTree → Prop where
  | byItself {r : Except Crash (Except RunFault RunReport)} {t' : FileTree}
      (h : (s.run system i).run.run.run t = (r, t')) : Ends s i t r t'
  | calledOff {units done : List InputUnit} {store : Option StateStore} {t₁ t₂ t' : FileTree}
      {results : List UnitResult} (hbegins : Begins s i t units store t₁)
      (hdone : done.Sublist units)
      (hresults :
        (resultsOf system (s.contextOf i store) done).run.run t₁ = (.ok results, t₂))
      (hdiscard : (i.layout.discardStaging system).run t₂ = ((), t')) :
      Ends s i t (.ok (.error .cancelled)) t'

end Settings

end ClassWeaver
