import ClassWeaver.Proofs.Run.Confinement
import ClassWeaver.Proofs.State.SnapshotRoundTrip
import ClassWeaver.Proofs.Unit.Results

namespace ClassWeaver

open FileTree TreeM FilePlace

variable {run : RunContext} {t t' : FileTree} {units : List InputUnit} {results : List UnitResult}

namespace Settings

/-- Units neither read nor write what others have staged. -/
theorem yields_resultsOf
    (h : (resultsOf system run units).run.run t = (.ok results, t'))
    (hinside : ∀ u ∈ units, u.StaysInside)
    (hinput : ∀ u ∈ units, ¬ run.layout.IsStaged (ofPath u.path))
    (hapart : units.Pairwise fun u v => run.layout.stagedPlace u ≠ run.layout.stagedPlace v) :
    List.Forall₂ (fun u result => result.Blocked ∨ run.Yields u t t' result) units results := by
  induction units generalizing t results with
  | nil =>
    cases h
    exact .nil
  | cons u rest ih =>
    rw [List.forall_mem_cons] at hinside hinput
    rw [List.pairwise_cons] at hapart
    rw [resultsOf] at h
    obtain ⟨result, s, hresult, h⟩ := bindE_ok_iff.1 h
    obtain ⟨more, s', hmore, h⟩ := bindE_ok_iff.1 h
    cases h
    have hstaged : ∀ v, v.StaysInside → run.layout.IsStaged (run.layout.stagedPlace v) :=
      fun v hv => Layout.stagingPlace_prefix_stagedPlace hv
    have hne : ∀ v : InputUnit, ¬ run.layout.IsStaged (ofPath v.path) →
        ofPath v.path ≠ run.layout.stagedPlace u := by
      intro v hv heq
      exact hv (heq ▸ hstaged u hinside.1)
    have hfirst : Confined (· = run.layout.stagedPlace u) (run.resultOf system u).run :=
      RunContext.confined_resultOf rfl
    have hlater : Confined (fun q => ∃ v ∈ rest, q = run.layout.stagedPlace v)
        (resultsOf system run rest).run := confined_resultsOf fun v hv => ⟨v, hv, rfl⟩
    -- no unit writes over what another one has staged, or over what it reads
    refine .cons ?_ (forall₂_imp_of_mem (ih hmore hinside.2 hinput.2 hapart.2) ?_)
    · refine (RunContext.yields_resultOf (hne u hinput.1) hresult).imp_right fun hyields => ?_
      refine hyields.congr rfl ((hlater.within hmore).files _ ?_)
      rintro ⟨v, hv, heq⟩
      exact hapart.1 v hv heq
    · intro v hv result _ hyields
      refine hyields.imp_right fun hyields => hyields.congr ?_ rfl
      exact ((hfirst.within hresult).files _ (hne v (hinput.2 v hv))).symm

end Settings

namespace Snapshot

lemma mem_of_reusable? {s : Snapshot} {key hash : String} {r : UnitRecord}
    (h : s.reusable? key hash = some r) : r ∈ s.records ∧ r.key = key ∧ r.contentHash = hash := by
  obtain ⟨hfind, htest⟩ := Option.filter_eq_some_iff.1 h
  rw [Bool.and_eq_true, beq_iff_eq] at htest
  exact ⟨List.mem_of_find?_eq_some hfind, by simpa using List.find?_some hfind, htest.1⟩

lemma get?_isNone_iff {s : Snapshot} {key : String} :
    (s.get? key).isNone = true ↔ ∀ r ∈ s.records, r.key ≠ key := by
  rw [Option.isNone_iff_eq_none, get?, List.find?_eq_none]
  simp

lemma ordered_ofFingerprint (f : String) : (ofFingerprint f).Ordered := List.Pairwise.nil

end Snapshot

structure UnitRecord.Notes (r : UnitRecord) (u : InputUnit) (bytes : Bytes) : Prop where
  key : r.key = u.key
  contents : r.contentHash = ClassWeaver.contentHash bytes
  output : r.output = Layout.unitLocation u
  storable : r.Storable

namespace RunContext.Yields

variable {u : InputUnit} {result : UnitResult}

lemma exists_record (h : run.Yields u t t' result) : ∃ r, result.record = some r ∧
    ∃ bytes, t.fileAt (ofPath u.path) = some bytes ∧ r.Notes u bytes := by
  cases h with
  | @reused bytes r hinput hprior hplace =>
    obtain ⟨prior, -, hr⟩ := Option.bind_eq_some_iff.1 hprior
    obtain ⟨-, hkey, hcontents⟩ := Snapshot.mem_of_reusable? hr
    exact ⟨_, rfl, bytes, hinput, hkey, hcontents, hplace, Nat.two_pow_pos 64⟩
  | @staged bytes out classes resources hinput _ _ =>
    exact ⟨_, rfl, bytes, hinput, rfl, rfl, rfl, Nat.two_pow_pos 64⟩

lemma expected_of_staged (h : run.Yields u t t' result) {location : String}
    (hstaged : result.staged = some location) : location = Layout.unitLocation u ∧
      ∃ bytes out, t.fileAt (ofPath u.path) = some bytes ∧
        run.settings.expected? u.kind bytes = some out ∧
          t'.fileAt (run.layout.stagedPlace u) = some out := by
  cases h with
  | reused => cases hstaged
  | staged hinput hexpected houtput =>
    cases hstaged
    exact ⟨rfl, _, _, hinput, hexpected, houtput⟩

lemma staged_or_reused (h : run.Yields u t t' result) :
    result.staged = some (Layout.unitLocation u) ∨
      ∃ bytes prior r, t.fileAt (ofPath u.path) = some bytes ∧ run.prior = some prior ∧
        r ∈ prior.records ∧ r.key = u.key ∧ r.contentHash = contentHash bytes := by
  cases h with
  | @reused bytes r hinput hprior _ =>
    obtain ⟨prior, hprior, hr⟩ := Option.bind_eq_some_iff.1 hprior
    exact .inr ⟨bytes, prior, r, hinput, hprior, Snapshot.mem_of_reusable? hr⟩
  | staged => exact .inl rfl

end RunContext.Yields

structure RunContext.Tallied (run : RunContext) (units : List InputUnit) (t t' : FileTree)
    (tally : Tally) : Prop where
  locations : tally.staged.Sublist (units.map Layout.unitLocation)
  staged : ∀ location ∈ tally.staged, ∃ u ∈ units, location = Layout.unitLocation u ∧
    ∃ bytes out, t.fileAt (ofPath u.path) = some bytes ∧
      run.settings.expected? u.kind bytes = some out ∧
        t'.fileAt (run.layout.stagedPlace u) = some out
  reused : ∀ u ∈ units, Layout.unitLocation u ∈ tally.staged ∨
    ∃ bytes prior r, t.fileAt (ofPath u.path) = some bytes ∧ run.prior = some prior ∧
      r ∈ prior.records ∧ r.key = u.key ∧ r.contentHash = contentHash bytes
  ordered : tally.next.Ordered
  noted : ∀ r ∈ tally.next.records, ∃ u ∈ units, ∃ bytes,
    t.fileAt (ofPath u.path) = some bytes ∧ r.Notes u bytes
  known : ∀ u ∈ units, ∃ r ∈ tally.next.records, r.key = u.key

namespace Tally

variable {f : String}

lemma not_blocked (h : (of f results).fault? = none) {result : UnitResult}
    (hresult : result ∈ results) : ¬ result.Blocked := by
  rintro ⟨r, hr, hblocks⟩
  exact not_blocks h (List.mem_flatMap.2 ⟨result, hresult, hr⟩) hblocks

lemma sublist_staged (h : List.Forall₂ (fun u result => run.Yields u t t' result) units results) :
    (results.filterMap (·.staged)).Sublist (units.map Layout.unitLocation) := by
  induction h with
  | nil => exact .slnil
  | @cons u result units results hyields _ ih =>
    rw [List.filterMap_cons, List.map_cons]
    cases hstaged : result.staged with
    | none => exact ih.cons _
    | some location =>
      rw [(hyields.expected_of_staged hstaged).1]
      exact ih.cons_cons _

lemma forall₂_records (h : List.Forall₂ (fun u result => run.Yields u t t' result) units results) :
    List.Forall₂ (fun u r => ∃ bytes, t.fileAt (ofPath u.path) = some bytes ∧
      UnitRecord.Notes r u bytes) units (results.filterMap (·.record)) := by
  induction h with
  | nil => exact .nil
  | cons hyields _ ih =>
    obtain ⟨r, hr, hnotes⟩ := hyields.exists_record
    rw [List.filterMap_cons, hr]
    exact .cons hnotes ih

theorem tallied_of (hkeys : units.Pairwise fun u v => u.key ≠ v.key)
    (hvalid : (of f results).fault? = none)
    (h : List.Forall₂ (fun u result => result.Blocked ∨ run.Yields u t t' result) units results) :
    run.Tallied units t t' (of f results) := by
  replace h : List.Forall₂ (fun u result => run.Yields u t t' result) units results :=
    forall₂_imp_of_mem h fun _ _ _ hresult hr => hr.resolve_left (not_blocked hvalid hresult)
  have hrecords := forall₂_records h
  have hdistinct : (results.filterMap (·.record)).Pairwise fun r r' => r.key ≠ r'.key := by
    have hmap : (results.filterMap (·.record)).map (·.key) = units.map (·.key) := by
      rw [← List.forall₂_eq_eq_eq, List.forall₂_map_left_iff, List.forall₂_map_right_iff]
      exact hrecords.flip.imp fun r u ⟨_, _, hnotes⟩ => hnotes.key
    have hall : (units.map (·.key)).Pairwise (· ≠ ·) := List.pairwise_map.2 hkeys
    exact List.pairwise_map.1 (hmap ▸ hall)
  have hperm : (of f results).next.records.Perm (results.filterMap (·.record)) :=
    Snapshot.perm_foldl (s := .ofFingerprint f) hdistinct
  constructor
  case locations => exact sublist_staged h
  case staged =>
    intro location hlocation
    obtain ⟨result, hresult, hstaged⟩ := List.mem_filterMap.1 hlocation
    obtain ⟨u, hu, hyields⟩ := exists_of_forall₂ h.flip hresult
    exact ⟨u, hu, RunContext.Yields.expected_of_staged hyields hstaged⟩
  case reused =>
    intro u hu
    obtain ⟨result, hresult, hyields⟩ := exists_of_forall₂ h hu
    exact hyields.staged_or_reused.imp_left fun hstaged =>
      List.mem_filterMap.2 ⟨result, hresult, hstaged⟩
  case ordered => exact Snapshot.ordered_foldl (Snapshot.ordered_ofFingerprint f) _
  case noted =>
    intro r hr
    obtain ⟨u, hu, hnotes⟩ := exists_of_forall₂ hrecords.flip (hperm.mem_iff.1 hr)
    exact ⟨u, hu, hnotes⟩
  case known =>
    intro u hu
    obtain ⟨r, hr, _, -, hnotes⟩ := exists_of_forall₂ hrecords hu
    exact ⟨r, hperm.mem_iff.2 hr, hnotes.key⟩

end Tally

end ClassWeaver
