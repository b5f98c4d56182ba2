import ClassWeaver.Proofs.State.Removal
import ClassWeaver.Proofs.Unit.Confinement
import ClassWeaver.Proofs.Unit.Scan
import ClassWeaver.Run.Basic

namespace ClassWeaver

open FileTree TreeM FilePlace

variable {A : FilePlace → Prop}

namespace Layout

variable {l : Layout}

def IsStaged (l : Layout) (q : FilePlace) : Prop := l.stagingPlace <+: q

instance (l : Layout) : DecidablePred l.IsStaged := fun q =>
  inferInstanceAs (Decidable (l.stagingPlace <+: q))

def IsOutput (l : Layout) (q : FilePlace) : Prop := ∃ scope, l.scopePlace scope <+: q

lemma confined_discardStaging (hA : ∀ q, l.IsStaged q → A q) :
    Confined A (l.discardStaging system) := by
  unfold discardStaging
  refine confined_exists.bind fun b => ?_
  split
  · exact (confined_removeDirectory hA).bind fun _ => confined_pure _
  · exact confined_pure _

end Layout

namespace Settings

variable {s : Settings} {i : Invocation}

lemma confined_openStore (hA : ∀ q, IsStorePlace i.statePath q → A q) :
    Confined A (s.openStore system i) := by
  unfold openStore
  split
  · exact (StateStore.confined_openAt hA).bind fun _ => confined_pure _
  · exact confined_pure _

lemma confined_forgetState (hA : ∀ q, IsStorePlace i.statePath q → A q) :
    Confined A (forgetState system i) := (confined_cleanState hA).bind fun _ => confined_pure _

lemma confined_collect : Confined A (collect system i).run := by
  unfold collect
  refine (Input.confined_allUnits _).bind fun found => ?_
  split <;> exact confined_pure _

lemma confined_prepareStaging (hA : ∀ q, i.layout.IsStaged q → A q) :
    Confined A (prepareStaging system i).run := by
  unfold prepareStaging
  refine Confined.bindE (Layout.confined_discardStaging hA).liftE fun _ => ?_
  refine Confined.bindE confined_makeDirectories.liftE fun made => ?_
  split
  · exact confined_throw _
  · exact confined_pure _

lemma confined_resultsOf {run : RunContext} {units : List InputUnit}
    (hA : ∀ u ∈ units, A (run.layout.stagedPlace u)) :
    Confined A (resultsOf system run units).run := by
  induction units with
  | nil => exact confined_pure _
  | cons u rest ih =>
    rw [List.forall_mem_cons] at hA
    rw [resultsOf]
    refine Confined.bindE (RunContext.confined_resultOf hA.1) fun result => ?_
    exact Confined.bindE (ih hA.2) fun _ => confined_pure _

end Settings

end ClassWeaver
