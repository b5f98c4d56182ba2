import ClassWeaver.Proofs.Files.Effects
import ClassWeaver.Proofs.Unit.Locations
import ClassWeaver.Unit.Process

namespace ClassWeaver

open FileTree TreeM

variable {α : Type} {A : FilePlace → Prop}

lemma confined_retryRead {what : String} {attempt : TreeM (Except String α)}
    (h : Confined A attempt) : Confined A (retryRead what attempt) := by
  refine h.bind fun first => ?_
  split
  · exact confined_pure _
  · refine h.bind fun second => ?_
    split <;> exact confined_pure _

namespace FileSystem

lemma confined_worded {attempt : ExceptT FileFault TreeM α} (h : Confined A attempt.run) :
    Confined A (worded attempt) := h.bind fun _ => confined_pure _

lemma confined_makeParent (path : String) : Confined A (makeParent system path).run := by
  unfold makeParent
  split
  · exact confined_makeDirectories
  · exact confined_pure _

lemma confined_transformArchive {source target : String} {threshold : Nat}
    {decide : String → Bytes → Decision α} (hA : A (FilePlace.ofPath target)) :
    Confined A (transformArchive system source target threshold decide).run := by
  unfold transformArchive
  dsimp only
  refine Confined.bindE (confined_retryRead (confined_worded (confined_observe _))) fun info => ?_
  refine Confined.bindE ((confined_worded (confined_makeParent target)).bind fun _ =>
    confined_pure _) fun _ => ?_
  refine Confined.bindE ((confined_worded (confined_write hA)).bind fun _ => confined_pure _)
    fun _ => ?_
  refine Confined.bindE (confined_retryRead (confined_worded (confined_observe _))) fun bytes => ?_
  refine Confined.bindE (confined_pure _) fun out => ?_
  refine Confined.bindE ((confined_worded (confined_write hA)).bind fun _ => confined_pure _)
    fun _ => ?_
  exact confined_pure _

end FileSystem

namespace RunContext

variable {run : RunContext} {u : InputUnit}

lemma confined_lowered {action : ExceptT IoFault TreeM α} (h : Confined A action.run) :
    Confined A (lowered action).run.run := h.bind fun _ => confined_pure _

lemma confined_answered (answer : Except Crash α) :
    Confined A (answered answer : UnitM TreeM α).run.run := by
  cases answer with
  | error e => exact confined_pure _
  | ok a => exact confined_pure _

lemma confined_readInput : Confined A (readInput system u).run :=
  confined_retryRead (FileSystem.confined_worded (confined_observe _))

lemma confined_reusable? {hash : String} : Confined A (run.reusable? system u hash) := by
  unfold reusable?
  split
  · exact confined_pure _
  split
  · exact confined_pure _
  refine confined_exists.bind fun b => ?_
  split <;> exact confined_pure _

lemma confined_writeStaged {path : String} {bytes : Bytes} (hA : A (FilePlace.ofPath path)) :
    Confined A (writeStaged system path bytes).run := by
  unfold writeStaged
  refine Confined.bindE ((FileSystem.confined_worded (FileSystem.confined_makeParent path)).bind
    fun _ => confined_pure _) fun _ => ?_
  exact (FileSystem.confined_worded (confined_write hA)).bind fun _ => confined_pure _

lemma confined_processArchive (hA : A (run.layout.stagedPlace u)) :
    Confined A (run.processArchive system u).run.run := by
  unfold processArchive
  refine Confined.bindEE (confined_lowered (FileSystem.confined_transformArchive hA)) fun _ => ?_
  refine Confined.bindEE (confined_answered _) fun _ => ?_
  exact confined_pure _

lemma confined_processUnit (hA : A (run.layout.stagedPlace u)) :
    Confined A (run.processUnit system u).run.run := by
  unfold processUnit
  refine Confined.bindEE confined_modified.liftEE fun lastModified => ?_
  refine Confined.bindEE (confined_lowered confined_readInput) fun bytes => ?_
  refine Confined.bindEE confined_reusable?.liftEE fun found => ?_
  split
  · exact confined_pure _
  split
  · refine Confined.bindEE (confined_processArchive hA) fun _ => ?_
    exact confined_pure _
  · refine Confined.bindEE (confined_answered _) fun ⟨output, classes, resources⟩ => ?_
    cases output with
    | none => exact confined_pure _
    | some bytes =>
      refine Confined.bindEE (confined_lowered (confined_writeStaged hA)) fun _ => ?_
      exact confined_pure _

lemma confined_resultOf (hA : A (run.layout.stagedPlace u)) :
    Confined A (run.resultOf system u).run := by
  unfold resultOf
  refine Confined.bindE (confined_processUnit hA) fun result => ?_
  split <;> exact confined_pure _

end RunContext

end ClassWeaver
