import ClassWeaver.Proofs.Run.Confinement

/-! Committing takes the staged outputs to their places and leaves none behind that a snapshot does not
name any more. -/

namespace ClassWeaver

open FileTree TreeM FilePlace

variable {A : FilePlace → Prop} {t t' : FileTree} {l : Layout}

namespace Layout

def IsOpen (l : Layout) (t : FileTree) : Prop :=
  ∀ q ∈ approach l.root, t.get? q = some .directory

lemma IsOpen.within (h : l.IsOpen t) (hA : ∀ q ∈ approach l.root, ¬ A q) (hw : Within A t t') :
    l.IsOpen t' := fun q hq => hw.directories q (hA q hq) (h q hq)

section Steps

variable {α : Type}

lemma step_ok {action : ExceptT FileFault TreeM α} {fault : FileFault → CommitFault} {a : α}
    (h : (step action fault).run.run t = (.ok a, t')) : action.run.run t = (.ok a, t') := by
  obtain ⟨r, s, hr, h⟩ := bind_eq_iff.1 h
  obtain ⟨hok, rfl⟩ := pure_eq_iff.1 h
  rwa [mapError_eq_ok_iff.1 hok] at hr

lemma confined_step {action : ExceptT FileFault TreeM α} {fault : FileFault → CommitFault}
    (h : Confined A action.run) : Confined A (step action fault).run :=
  h.bind fun _ => confined_pure _

end Steps

section Clearing

lemma confined_clearScopes (hA : ∀ q, l.IsOutput q → A q) (scopes : List Scope) :
    Confined A (l.clearScopes system scopes).run := by
  induction scopes with
  | nil => exact confined_pure _
  | cons scope rest ih =>
    rw [clearScopes]
    refine Confined.bindE confined_exists.liftE fun b => ?_
    dsimp only
    split
    · refine Confined.bindE (confined_step (confined_removeDirectory fun q hq => ?_)) fun _ => ih
      exact hA q ⟨scope, hq⟩
    · exact ih

lemma fileAt_of_not_found {path : String} (ht : t.WellFormed) (hnamed : Named path)
    (hclosed : endsOpen path = false) (hway : ∀ q ∈ trail path, t.get? q = some .directory)
    (hnot : ¬ ∃ found, t.find path = .ok found) {q : FilePlace} (hq : ofPath path <+: q) :
    t.fileAt q = none := by
  by_contra hsome
  obtain ⟨bytes, hbytes⟩ := Option.ne_none_iff_exists'.1 hsome
  rw [fileAt_eq_some_iff] at hbytes
  have hplace : t.place path = .ok (ofPath path) := place_ok_iff.2 ⟨rfl, hnamed, hway⟩
  by_cases heq : ofPath path = q
  · exact hnot ⟨_, find_ok_iff.2 ⟨hplace, heq ▸ hbytes, fun _ => hclosed⟩⟩
  · exact hnot ⟨_, find_ok_iff.2
      ⟨hplace, ht.directory_of_prefix hbytes hq heq, fun h => absurd rfl h⟩⟩

lemma endsOpen_scopeDirectory (scope : Scope) : endsOpen (l.scopeDirectory scope) = false := by
  have hlast : (l.scopeDirectory scope).toList.getLast? = scope.dirName.toList.getLast? := by
    unfold scopeDirectory Path.append
    rw [if_neg (by cases scope <;> decide)]
    split <;> simp only [String.toList_append] <;> cases scope <;> simp [Scope.dirName]
  rw [endsOpen, hlast]
  cases scope <;> decide

lemma trail_scopeDirectory {scope : Scope} {q : FilePlace}
    (hq : q ∈ trail (l.scopeDirectory scope)) : q ∈ approach l.root := by
  rw [scopeDirectory, trail_append _ (descends_dirName scope)] at hq
  have hnames : FileTree.names scope.dirName.toList = [scope.dirName.toList] := by
    cases scope <;> decide
  rwa [hnames] at hq

lemma clearScopes_ok {scopes : List Scope} (ht : t.WellFormed) (hopen : l.IsOpen t)
    (hfree : ∀ q ∈ approach l.root, ¬ l.IsOutput q)
    (hnamed : ∀ scope, Named (l.scopeDirectory scope))
    (h : (l.clearScopes system scopes).run.run t = (.ok (), t')) :
    Shrinks t t' ∧ ∀ scope ∈ scopes, ∀ q, l.scopePlace scope <+: q → t'.fileAt q = none := by
  induction scopes generalizing t with
  | nil =>
    cases h
    exact ⟨.refl, nofun⟩
  | cons scope rest ih =>
    rw [clearScopes] at h
    obtain ⟨there, s, hthere, h⟩ := liftE_bind_iff.1 h
    obtain ⟨rfl, hfound⟩ := exists_eq_iff.1 hthere
    dsimp only at h
    split at h
    · obtain ⟨_, s, hremove, h⟩ := bindE_ok_iff.1 h
      have hchange := change_ok_iff.1 (step_ok hremove)
      have hwithin : Within l.IsOutput t s :=
        within_removeDirectory (fun q hq => ⟨scope, hq⟩) hchange
      obtain ⟨place, hfind, rfl⟩ := removeDirectory_ok_iff.1 hchange
      obtain rfl := (place_ok_iff.1 (find_ok_iff.1 hfind).1).1
      obtain ⟨hshrinks, hcleared⟩ :=
        ih (hwithin.wellFormed ht) (hopen.within hfree hwithin) h
      refine ⟨(shrinks_eraseBelow _).trans hshrinks, List.forall_mem_cons.2 ⟨fun q hq => ?_, hcleared⟩⟩
      exact hshrinks.fileAt_eq_none (fileAt_eraseBelow hq)
    · next hnot =>
      obtain ⟨hshrinks, hcleared⟩ := ih ht hopen h
      refine ⟨hshrinks, List.forall_mem_cons.2 ⟨fun q hq => ?_, hcleared⟩⟩
      refine hshrinks.fileAt_eq_none (fileAt_of_not_found ht (hnamed scope)
        (endsOpen_scopeDirectory scope) (fun q hq => hopen q (trail_scopeDirectory hq))
        (fun hany => hnot (hfound.2 hany)) hq)

end Clearing

section Stale

variable {next : Snapshot} {records : List UnitRecord}

def recordPlace (l : Layout) (r : UnitRecord) : FilePlace := ofPath (Path.append l.root r.output)

lemma confined_removeStale (hA : ∀ r ∈ records, (next.get? r.key).isNone → A (l.recordPlace r)) :
    Confined A (l.removeStale system next records).run := by
  induction records with
  | nil => exact confined_pure _
  | cons r rest ih =>
    rw [List.forall_mem_cons] at hA
    rw [removeStale]
    refine Confined.bindE confined_isFile.liftE fun b => ?_
    split
    · next hstale =>
      rw [Bool.and_eq_true] at hstale
      refine Confined.bindE (confined_step (confined_removeFile (hA.1 hstale.1))) fun _ => ?_
      exact Confined.bindE (ih hA.2) fun _ => confined_pure _
    · exact ih hA.2

structure Finds (l : Layout) (r : UnitRecord) : Prop where
  descends : Descends r.output
  leadsToFile : LeadsToFile (Path.append l.root r.output)
  isOutput : l.IsOutput (l.recordPlace r)

lemma removeStale_ok {n : Nat} (ht : t.WellFormed) (hopen : l.IsOpen t)
    (hfree : ∀ q ∈ approach l.root, ¬ l.IsOutput q) (hfinds : ∀ r ∈ records, l.Finds r)
    (h : (l.removeStale system next records).run.run t = (.ok n, t')) :
    Shrinks t t' ∧
      ∀ r ∈ records, (next.get? r.key).isNone → t'.fileAt (l.recordPlace r) = none := by
  induction records generalizing t n with
  | nil =>
    cases h
    exact ⟨.refl, nofun⟩
  | cons r rest ih =>
    rw [List.forall_mem_cons] at hfinds
    rw [removeStale] at h
    obtain ⟨there, s, hthere, h⟩ := liftE_bind_iff.1 h
    obtain ⟨rfl, hfound⟩ := isFile_eq_iff.1 hthere
    split at h
    · obtain ⟨_, s, hremove, h⟩ := bindE_ok_iff.1 h
      obtain ⟨m, s', hrest, h⟩ := bindE_ok_iff.1 h
      cases h
      have hchange := change_ok_iff.1 (step_ok hremove)
      have hwithin : Within l.IsOutput t s := within_removeFile hfinds.1.isOutput hchange
      obtain ⟨place, bytes, hfind, rfl⟩ := removeFile_ok_iff.1 hchange
      obtain ⟨hplace, hfile, -⟩ := find_ok_iff.1 hfind
      obtain rfl := (place_ok_iff.1 hplace).1
      obtain ⟨hshrinks, hgone⟩ :=
        ih (hwithin.wellFormed ht) (hopen.within hfree hwithin) hfinds.2 hrest
      refine ⟨(shrinks_erase hfile).trans hshrinks, List.forall_mem_cons.2 ⟨fun _ => ?_, hgone⟩⟩
      exact hshrinks.fileAt_eq_none (fileAt_erase hfile)
    · next hnot =>
      obtain ⟨hshrinks, hgone⟩ := ih ht hopen hfinds.2 h
      refine ⟨hshrinks, List.forall_mem_cons.2 ⟨fun hstale => hshrinks.fileAt_eq_none ?_, hgone⟩⟩
      -- a file in that place would have been found, and then removed
      by_contra hsome
      obtain ⟨bytes, hbytes⟩ := Option.ne_none_iff_exists'.1 hsome
      have hfind :=
        find_of_leadsToFile ht hopen hfinds.1.descends hfinds.1.leadsToFile hbytes
      exact hnot (by rw [hstale, hfound.2 ⟨_, _, hfind⟩]; rfl)

end Stale

section Moving

/-! ### The steps of moving one output -/

def makeAbove (target : String) : ExceptT CommitFault TreeM Unit :=
  match Path.parent? target with
  | none => pure ()
  | some above => step (system.makeDirectories above) (.makeDirectory above)

def clearTarget (target : String) : ExceptT CommitFault TreeM Unit := do
  if ← (system.exists target : TreeM Bool) then
    step (system.removeFile target) (.replace target)

lemma moveStaged_eq (location : String) : l.moveStaged system location = (do
    makeAbove (Path.append l.root location)
    clearTarget (Path.append l.root location)
    step (system.move (Path.append l.stagingDirectory location) (Path.append l.root location))
      (.move (Path.append l.stagingDirectory location) (Path.append l.root location))) := by
  have hclear : ∀ (target : String) (last : ExceptT CommitFault TreeM Unit), (do
      if ← (system.exists target : TreeM Bool) then
        step (system.removeFile target) (.replace target)
      last) = (do clearTarget target; last) := by
    intro target last
    rw [clearTarget, bind_assoc]
    congr 1
    funext there
    cases there <;> rfl
  rw [← hclear]
  unfold moveStaged makeAbove
  dsimp only
  cases Path.parent? (Path.append l.root location) <;> rfl

lemma confined_makeAbove (target : String) : Confined A (makeAbove target).run := by
  unfold makeAbove
  split
  · exact confined_pure _
  · exact confined_step confined_makeDirectories

lemma confined_clearTarget {target : String} (hA : A (ofPath target)) :
    Confined A (clearTarget target).run := by
  unfold clearTarget
  refine Confined.bindE confined_exists.liftE fun b => ?_
  split
  · exact confined_step (confined_removeFile hA)
  · exact confined_pure _

lemma confined_moveStaged {u : InputUnit} (hin : A (l.stagedPlace u)) (hout : A (l.outputPlace u)) :
    Confined A (l.moveStaged system (unitLocation u)).run := by
  rw [moveStaged_eq]
  refine Confined.bindE (confined_makeAbove _) fun _ => ?_
  refine Confined.bindE (confined_clearTarget hout) fun _ => ?_
  exact confined_step (confined_move hin hout)

lemma confined_moveAll {units : List InputUnit}
    (hA : ∀ u ∈ units, A (l.stagedPlace u) ∧ A (l.outputPlace u)) :
    Confined A (l.moveAll system (units.map unitLocation)).run := by
  induction units with
  | nil => exact confined_pure _
  | cons u rest ih =>
    rw [List.forall_mem_cons] at hA
    rw [List.map_cons, moveAll]
    exact Confined.bindE (confined_moveStaged hA.1.1 hA.1.2) fun _ => ih hA.2

structure Moves (l : Layout) (t t' : FileTree) (u : InputUnit) : Prop where
  contents : t'.fileAt (l.outputPlace u) = t.fileAt (l.stagedPlace u)
  leadsToFile : LeadsToFile (Path.append l.root (unitLocation u))

lemma outputPlace_ne_stagedPlace {u v : InputUnit} (hu : u.StaysInside) (hv : v.StaysInside) :
    l.outputPlace u ≠ l.stagedPlace v := by
  intro heq
  exact not_staged_of_scope (scopePlace_prefix_outputPlace hu)
    (heq ▸ stagingPlace_prefix_stagedPlace hv)

lemma moveStaged_ok {u : InputUnit} (hu : u.StaysInside)
    (h : (l.moveStaged system (unitLocation u)).run.run t = (.ok (), t')) : l.Moves t t' u := by
  rw [moveStaged_eq] at h
  obtain ⟨_, s, habove, h⟩ := bindE_ok_iff.1 h
  obtain ⟨_, s', htarget, h⟩ := bindE_ok_iff.1 h
  have hwithin : Within (· = l.outputPlace u) t s' :=
    ((confined_makeAbove _).within habove).trans ((confined_clearTarget (A := (· = l.outputPlace u)) rfl).within htarget)
  obtain ⟨place, bytes, hfind, hwrite⟩ := move_ok_iff.1 (change_ok_iff.1 (step_ok h))
  refine ⟨?_, leadsToFile_of_find (find_of_write hwrite)⟩
  rw [← hwithin.files _ (outputPlace_ne_stagedPlace hu hu).symm]
  obtain ⟨hplace, hfile, -⟩ := find_ok_iff.1 hfind
  obtain rfl := (place_ok_iff.1 hplace).1
  exact (fileAt_of_write hwrite).trans (fileAt_eq_some_iff.2 hfile).symm

lemma moveAll_ok {units : List InputUnit} (hinside : ∀ u ∈ units, u.StaysInside)
    (hapart : units.Pairwise fun u v => l.outputPlace u ≠ l.outputPlace v)
    (h : (l.moveAll system (units.map unitLocation)).run.run t = (.ok (), t')) :
    ∀ u ∈ units, l.Moves t t' u := by
  induction units generalizing t with
  | nil => exact nofun
  | cons u rest ih =>
    rw [List.forall_mem_cons] at hinside
    rw [List.pairwise_cons] at hapart
    rw [List.map_cons, moveAll] at h
    obtain ⟨_, s, hfirst, h⟩ := bindE_ok_iff.1 h
    have hmove : Confined (fun q => q = l.stagedPlace u ∨ q = l.outputPlace u)
        (l.moveStaged system (unitLocation u)).run := confined_moveStaged (.inl rfl) (.inr rfl)
    have hlater : Confined (fun q => ∃ v ∈ rest, q = l.stagedPlace v ∨ q = l.outputPlace v)
        (l.moveAll system (rest.map unitLocation)).run :=
      confined_moveAll fun v hv => ⟨⟨v, hv, .inl rfl⟩, ⟨v, hv, .inr rfl⟩⟩
    -- the first move and the later ones leave the places of each other as they are
    refine List.forall_mem_cons.2 ⟨?_, fun v hv => ?_⟩
    · obtain ⟨hcontents, hleads⟩ := moveStaged_ok hinside.1 hfirst
      refine ⟨((hlater.within h).files _ ?_).trans hcontents, hleads⟩
      rintro ⟨v, hv, heq | heq⟩
      · exact outputPlace_ne_stagedPlace hinside.1 (hinside.2 v hv) heq
      · exact hapart.1 v hv heq
    · obtain ⟨hcontents, hleads⟩ := ih hinside.2 hapart.2 h v hv
      refine ⟨hcontents.trans ((hmove.within hfirst).files _ ?_), hleads⟩
      rintro (heq | heq)
      · exact hapart.1 v hv
          (outputPlace_eq_of_stagedPlace_eq hinside.1 (hinside.2 v hv) heq.symm)
      · exact outputPlace_ne_stagedPlace hinside.1 (hinside.2 v hv) heq.symm

end Moving

section Commit

variable {prior : Option Snapshot} {next : Snapshot} {units : List InputUnit}

def dropOld (l : Layout) (prior : Option Snapshot) (next : Snapshot) :
    ExceptT CommitFault TreeM Nat :=
  match prior with
  | none => do
    l.clearScopes system Scope.all
    pure 0
  | some prior => l.removeStale system next prior.records

lemma commit_eq (staged : List String) : l.commit system prior next staged = (do
    let removed ← l.dropOld prior next
    l.moveAll system staged
    ExceptT.lift (l.discardStaging system)
    return removed) := by
  unfold commit dropOld
  cases prior with
  | none => exact (bind_assoc _ _ _).symm
  | some p => rfl

/-- What must not stay: without a snapshot everything, else the outputs of vanished units. -/
def IsDropped (l : Layout) (prior : Option Snapshot) (next : Snapshot) (q : FilePlace) : Prop :=
  match prior with
  | none => True
  | some prior => ∃ r ∈ prior.records, (next.get? r.key).isNone ∧ q = l.recordPlace r

lemma confined_dropOld (hfinds : ∀ p, prior = some p → ∀ r ∈ p.records, l.Finds r) :
    Confined (fun q => l.IsOutput q ∧ l.IsDropped prior next q) (l.dropOld prior next).run := by
  unfold dropOld
  cases prior with
  | none =>
    exact Confined.bindE (confined_clearScopes (fun q hq => ⟨hq, trivial⟩) _) fun _ =>
      confined_pure _
  | some p =>
    exact confined_removeStale fun r hr hstale =>
      ⟨(hfinds p rfl r hr).isOutput, r, hr, hstale, rfl⟩

lemma dropOld_ok {n : Nat} (ht : t.WellFormed) (hopen : l.IsOpen t)
    (hfree : ∀ q ∈ approach l.root, ¬ l.IsOutput q)
    (hnamed : ∀ scope, Named (l.scopeDirectory scope))
    (hfinds : ∀ p, prior = some p → ∀ r ∈ p.records, l.Finds r)
    (h : (l.dropOld prior next).run.run t = (.ok n, t')) {q : FilePlace} (hq : l.IsOutput q)
    (hdropped : l.IsDropped prior next q) : t'.fileAt q = none := by
  unfold dropOld at h
  cases prior with
  | none =>
    obtain ⟨_, s, hclear, h⟩ := bindE_ok_iff.1 h
    cases h
    obtain ⟨scope, hscope⟩ := hq
    have hall : scope ∈ Scope.all := by cases scope <;> decide
    exact (clearScopes_ok ht hopen hfree hnamed hclear).2 scope hall q hscope
  | some p =>
    obtain ⟨r, hr, hstale, rfl⟩ := hdropped
    exact (removeStale_ok ht hopen hfree (hfinds p rfl) h).2 r hr hstale

/-- The outputs of these units are in their places, what must not stay is gone, and everything else is
as it was. -/
structure Committed (l : Layout) (prior : Option Snapshot) (next : Snapshot)
    (units : List InputUnit) (t t' : FileTree) : Prop where
  moves : ∀ u ∈ units, l.Moves t t' u
  gone : ∀ q, l.IsOutput q → (∀ u ∈ units, q ≠ l.outputPlace u) → l.IsDropped prior next q →
    t'.fileAt q = none
  stays : ∀ q, l.IsOutput q → (∀ u ∈ units, q ≠ l.outputPlace u) → ¬ l.IsDropped prior next q →
    t'.fileAt q = t.fileAt q

lemma confined_commit (hinside : ∀ u ∈ units, u.StaysInside)
    (hfinds : ∀ p, prior = some p → ∀ r ∈ p.records, l.Finds r) :
    Confined (fun q => l.IsStaged q ∨ l.IsOutput q)
      (l.commit system prior next (units.map unitLocation)).run := by
  rw [commit_eq]
  refine Confined.bindE ((confined_dropOld hfinds).mono fun q hq => .inr hq.1) fun _ => ?_
  refine Confined.bindE (confined_moveAll fun u hu => ⟨?_, ?_⟩) fun _ => ?_
  · exact .inl (stagingPlace_prefix_stagedPlace (hinside u hu))
  · exact .inr ⟨u.scope, scopePlace_prefix_outputPlace (hinside u hu)⟩
  · exact Confined.bindE (confined_discardStaging fun q hq => .inl hq).liftE fun _ =>
      confined_pure _

theorem commit_ok {n : Nat} (ht : t.WellFormed) (hopen : l.IsOpen t)
    (hfree : ∀ q ∈ approach l.root, ¬ l.IsOutput q)
    (hnamed : ∀ scope, Named (l.scopeDirectory scope))
    (hfinds : ∀ p, prior = some p → ∀ r ∈ p.records, l.Finds r)
    (hinside : ∀ u ∈ units, u.StaysInside)
    (hapart : units.Pairwise fun u v => l.outputPlace u ≠ l.outputPlace v)
    (h : (l.commit system prior next (units.map unitLocation)).run.run t = (.ok n, t')) :
    l.Committed prior next units t t' := by
  rw [commit_eq] at h
  obtain ⟨m, s, hdrop, h⟩ := bindE_ok_iff.1 h
  obtain ⟨_, s', hmove, h⟩ := bindE_ok_iff.1 h
  obtain ⟨_, s'', hdiscard, h⟩ := liftE_bind_iff.1 h
  cases h
  have houtput : ∀ u ∈ units, l.IsOutput (l.outputPlace u) := fun u hu =>
    ⟨u.scope, scopePlace_prefix_outputPlace (hinside u hu)⟩
  have hstaged : ∀ u ∈ units, l.IsStaged (l.stagedPlace u) := fun u hu =>
    stagingPlace_prefix_stagedPlace (hinside u hu)
  have hdropped := (confined_dropOld hfinds).within hdrop
  have hmoved : Within (fun q => ∃ u ∈ units, q = l.stagedPlace u ∨ q = l.outputPlace u) s s' :=
    (confined_moveAll fun u hu => ⟨⟨u, hu, .inl rfl⟩, ⟨u, hu, .inr rfl⟩⟩).within hmove
  have hdiscarded : ∀ q, l.IsOutput q → t'.fileAt q = s'.fileAt q := by
    rintro q ⟨scope, hscope⟩
    exact ((confined_discardStaging fun _ hq => hq).within hdiscard).files q
      (not_staged_of_scope hscope)
  -- of all outputs, moving and discarding change none but those of the units
  have hothers : ∀ q, l.IsOutput q → (∀ u ∈ units, q ≠ l.outputPlace u) →
      t'.fileAt q = s.fileAt q := by
    intro q hq hne
    refine (hdiscarded q hq).trans (hmoved.files q ?_)
    rintro ⟨u, hu, heq | heq⟩
    · obtain ⟨scope, hscope⟩ := hq
      exact not_staged_of_scope hscope (heq ▸ hstaged u hu)
    · exact hne u hu heq
  constructor
  case moves =>
    intro u hu
    obtain ⟨hcontents, hleads⟩ := moveAll_ok hinside hapart hmove u hu
    refine ⟨?_, hleads⟩
    rw [hdiscarded _ (houtput u hu), hcontents]
    refine hdropped.files _ ?_
    rintro ⟨⟨scope, hscope⟩, -⟩
    exact not_staged_of_scope hscope (hstaged u hu)
  case gone =>
    intro q hq hne hgone
    exact (hothers q hq hne).trans (dropOld_ok ht hopen hfree hnamed hfinds hdrop hq hgone)
  case stays =>
    intro q hq hne hstays
    exact (hothers q hq hne).trans (hdropped.files q fun hdrop => hstays hdrop.2)

end Commit

end Layout

end ClassWeaver
