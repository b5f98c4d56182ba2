import ClassWeaver.Proofs.ClassFile.RoundTrip
import ClassWeaver.Proofs.Run.FailedRuns
import ClassWeaver.Proofs.Unit.Reports

namespace ClassWeaver

open FileTree TreeM FilePlace

namespace RunContext

variable {run : RunContext} {u : InputUnit} {t t' : FileTree}

inductive Accounts (run : RunContext) (u : InputUnit) (t t' : FileTree) : List Failure → Prop
  | unhandled {fault : IoFault}
      (h : (run.processUnit system u).run.run.run t = (.ok (.error fault), t')) :
      Accounts run u t t' [.of u.title (.io fault)]
  | reused {result : UnitResult}
      (h : (run.processUnit system u).run.run.run t = (.ok (.ok result), t'))
      (hreused : result.reused = true) : Accounts run u t t' []
  | processed {result : UnitResult} {s : FileTree} {bytes : Bytes}
      (h : (run.processUnit system u).run.run.run t = (.ok (.ok result), t'))
      (hfresh : result.reused = false) (hwithin : Within (· = run.layout.stagedPlace u) t s)
      (hbytes : s.fileAt (ofPath u.path) = some bytes) :
      Accounts run u t t' (run.settings.failuresIn u bytes)

inductive AccountsAll (run : RunContext) :
    FileTree → List InputUnit → List Failure → FileTree → Prop
  | nil {t : FileTree} : AccountsAll run t [] [] t
  | cons {t₁ t₂ t₃ : FileTree} {u : InputUnit} {rest : List InputUnit} {fs gs : List Failure}
      (first : run.Accounts u t₁ t₂ fs) (others : AccountsAll run t₂ rest gs t₃) :
      AccountsAll run t₁ (u :: rest) (fs ++ gs) t₃

lemma classes_of_reused {result : UnitResult}
    (h : (run.processUnit system u).run.run.run t = (.ok (.ok result), t'))
    (hreused : result.reused = true) : result.classes = [] := by
  obtain ⟨bytes, -, ⟨r, -, -, rfl⟩ | ⟨classes, resources, -, -, rfl⟩ |
    ⟨relative, output, classes, resources, -, -, rfl, -⟩⟩ := processUnit_cases h
  · rfl
  · cases hreused
  · cases hreused

lemma accounts_resultOf {result : UnitResult}
    (h : (run.resultOf system u).run.run t = (.ok result, t')) :
    run.Accounts u t t' (result.classes.filterMap ArtifactReport.failure?) ∧
      ∀ r ∈ result.classes, r.HoldsConflicts := by
  unfold resultOf at h
  obtain ⟨answer, s, hanswer, h⟩ := bindE_ok_iff.1 h
  cases answer with
  | error fault =>
    cases h
    refine ⟨.unhandled hanswer, fun r hr => ?_⟩
    rw [List.mem_singleton.1 hr]
    exact nofun
  | ok found =>
    cases h
    cases hreused : result.reused with
    | true =>
      rw [classes_of_reused hanswer hreused]
      exact ⟨.reused hanswer hreused, List.forall_mem_nil _⟩
    | false =>
      obtain ⟨s', bytes, hwithin, hbytes, hhandles⟩ := handles_processUnit hanswer hreused
      rw [Settings.Handles.failures_eq hhandles]
      refine ⟨.processed hanswer hreused hwithin hbytes, fun r hr => ?_⟩
      obtain ⟨c, -, hc⟩ := exists_of_forall₂ hhandles.flip hr
      exact Settings.Handles.holdsConflicts hc

end RunContext

namespace Settings

variable {s : Settings} {i : Invocation} {t t' : FileTree}

lemma accountsAll_resultsOf {run : RunContext} {units : List InputUnit}
    {results : List UnitResult}
    (h : (resultsOf system run units).run.run t = (.ok results, t')) :
    run.AccountsAll t units ((results.flatMap (·.classes)).filterMap ArtifactReport.failure?) t' ∧
      ∀ r ∈ results.flatMap (·.classes), r.HoldsConflicts := by
  induction units generalizing t results with
  | nil =>
    cases h
    exact ⟨.nil, List.forall_mem_nil _⟩
  | cons u rest ih =>
    rw [resultsOf] at h
    obtain ⟨result, t₁, hresult, h⟩ := bindE_ok_iff.1 h
    obtain ⟨more, t₂, hmore, h⟩ := bindE_ok_iff.1 h
    cases h
    obtain ⟨hfirst, hholds⟩ := RunContext.accounts_resultOf hresult
    obtain ⟨hothers, hholds'⟩ := ih hmore
    rw [List.flatMap_cons, List.filterMap_append]
    refine ⟨.cons hfirst hothers, fun r hr => ?_⟩
    exact (List.mem_append.1 hr).elim (hholds r) (hholds' r)

end Settings

def Failure.IsConflict (f : Failure) : Prop := f.kind = .conflictingRule

instance : DecidablePred Failure.IsConflict := fun f =>
  inferInstanceAs (Decidable (f.kind = .conflictingRule))

namespace Tally

variable {r : ArtifactReport} {tally : Tally}

lemma conflictOf_eq (h : r.HoldsConflicts) :
    conflictOf r = r.failure?.filter (·.IsConflict) := by
  unfold conflictOf ArtifactReport.failure?
  cases hfault : faultOf r with
  | none => cases r.passthrough <;> rfl
  | some fault =>
    cases fault with
    | conflict c =>
      rw [h c hfault]
      rfl
    | malformed | rejected | io => cases r.passthrough <;> rfl

lemma fatalOf_eq : fatalOf r = r.failure?.filter (¬ ·.IsConflict) := by
  unfold fatalOf ArtifactReport.failure?
  cases faultOf r with
  | none => cases r.passthrough <;> rfl
  | some fault => cases fault <;> cases r.passthrough <;> rfl

lemma fault?_spec {fs : List Failure} {fault : RunFault}
    (hfs : tally.classes.filterMap ArtifactReport.failure? = fs)
    (hholds : ∀ r ∈ tally.classes, r.HoldsConflicts) (h : tally.fault? = some fault) :
    (fault = .failed fs ∧ ∀ f ∈ fs, ¬ f.IsConflict) ∨
      fault = .conflict (fs.filter (·.IsConflict)) := by
  have hconflicts : tally.classes.filterMap conflictOf = fs.filter (·.IsConflict) := by
    rw [← hfs, List.filter_filterMap]
    exact List.filterMap_congr fun r hr => conflictOf_eq (hholds r hr)
  have hothers : tally.classes.filterMap fatalOf = fs.filter (¬ ·.IsConflict) := by
    rw [← hfs, List.filter_filterMap]
    exact List.filterMap_congr fun r _ => fatalOf_eq
  rw [fault?, hconflicts, hothers] at h
  split at h
  · next c cs hcs =>
    rw [← hcs] at h
    exact .inr (Option.some.inj h).symm
  next hnone =>
  have hall : ∀ f ∈ fs, ¬ f.IsConflict := by simpa using hnone
  have hsame : fs.filter (¬ ·.IsConflict) = fs := List.filter_eq_self.2 (by simpa using hall)
  rw [hsame] at h
  cases fs with
  | nil => cases h
  | cons f rest => exact .inl ⟨(Option.some.inj h).symm, hall⟩

end Tally

namespace Settings

variable {s : Settings} {i : Invocation} {t t' : FileTree}

def Accounted (s : Settings) (i : Invocation) (t : FileTree) (fs : List Failure) : Prop :=
  ∃ units store t₁ t₂, Begins s i t units store t₁ ∧
    (s.contextOf i store).AccountsAll t₁ units fs t₂

/-- A run that fails on account of its units tells everything that they have to tell, unless rules are
in conflict. Then it tells all conflicts, but no other failure. -/
theorem run_names_failures {fault : RunFault} (h : Ends s i t (.ok (.error fault)) t') :
    (∀ fs, fault = .failed fs → s.Accounted i t fs ∧ ∀ f ∈ fs, ¬ f.IsConflict) ∧
      ∀ fs, fault = .conflict fs →
        ∃ all, s.Accounted i t all ∧ fs = all.filter (·.IsConflict) := by
  cases h with
  | calledOff => exact ⟨nofun, nofun⟩
  | byItself h =>
    rcases run_cases h with ⟨_, hr, hearly, -⟩ | ⟨units, store, t₁, hbegins, hrest⟩
    · cases hr
      rcases hearly with rfl | ⟨causes, rfl⟩ <;> exact ⟨nofun, nofun⟩
    rcases hrest with ⟨e, -, hr⟩ | ⟨results, t₂, q, hresults, hfinish, hr⟩
    · cases hr
    cases hr
    obtain ⟨haccounts, hholds⟩ := accountsAll_resultsOf hresults
    have haccounted : s.Accounted i t _ := ⟨units, store, t₁, t₂, hbegins, haccounts⟩
    rcases finish_cases hfinish with ⟨_, hfault, hq, -⟩ | ⟨-, ⟨c, t₃, t₄, -, -, -, hq⟩ |
      ⟨removed, t₃, -, -, hq⟩⟩
    · cases hq
      rcases Tally.fault?_spec rfl hholds hfault with ⟨rfl, hall⟩ | rfl
      · refine ⟨fun fs hfs => ?_, nofun⟩
        cases hfs
        exact ⟨haccounted, hall⟩
      · refine ⟨nofun, fun fs hfs => ?_⟩
        cases hfs
        exact ⟨_, haccounted, rfl⟩
    · cases hq
      exact ⟨nofun, nofun⟩
    · cases hq

section Sample

def rivalSettings : Settings :=
  { sampleSettings with
    ruleset := ⟨[⟨"a", .named "A", .default, .replace⟩, ⟨"b", .named "A", .default, .replace⟩]⟩ }

def rivalInvocation : Invocation :=
  { sampleInvocation with inputs := [⟨.project, false, "in"⟩, ⟨.subProjects, false, "more"⟩] }

def rivalTree : FileTree :=
  ⟨[(["in"], .directory), (["in", "A.class"], .file Sample.file.encode),
    (["more"], .directory), (["more", "B.class"], .file [0])]⟩

def rivalConflict : Failure :=
  ⟨"in/A.class", .conflictingRule, "rules 'a' and 'b' conflict on A.f()V"⟩

lemma run_rivalTree : ((rivalSettings.run system rivalInvocation).run.run.run rivalTree).1 =
    .ok (.error (.conflict [rivalConflict])) := by
  decide +kernel

theorem run_names_failures_sample :
    (∃ all, rivalSettings.Accounted rivalInvocation rivalTree all ∧
      [rivalConflict] = all.filter (·.IsConflict)) ∧
    rivalSettings.failuresIn ⟨.subProjects, "more", .file "B.class"⟩ [0] =
      [⟨"more/B.class", .malformedClass, "truncated magic at byte 0"⟩] := by
  have hends : Ends rivalSettings rivalInvocation rivalTree
      (.ok (.error (.conflict [rivalConflict]))) _ := .byItself (Prod.ext run_rivalTree rfl)
  exact ⟨(run_names_failures hends).2 _ rfl, by decide +kernel⟩

end Sample

end Settings

end ClassWeaver
