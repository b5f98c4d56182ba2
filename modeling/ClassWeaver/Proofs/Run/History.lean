import ClassWeaver.Proofs.Run.Site
import ClassWeaver.Proofs.State.ReopenedStore

/-! After every run that is valid the outputs are the expected ones, whatever happened in the runs
before it and between them. -/

namespace ClassWeaver

open FileTree TreeM FilePlace

namespace Settings

variable {i : Invocation} {store : Option StateStore} {next : Snapshot} {t t' : FileTree}
  {A : FilePlace → Prop}

lemma confined_saveState (hA : ∀ q, IsStorePlace i.statePath q → A q) :
    Confined A (saveState system i store next) := by
  unfold saveState
  split
  · exact confined_forgetState hA
  · refine (confined_commitState (hA _ (.inl rfl))).bind fun wrote => ?_
    split
    · exact confined_forgetState hA
    · exact confined_pure _

lemma fileAt_of_forgetState (hread : t.Readable i.statePath)
    (h : (forgetState system i).run t = ((), t')) : t'.fileAt (ofPath i.statePath) = none := by
  unfold forgetState at h
  obtain ⟨r, t₁, hclean, h⟩ := bind_eq_iff.1 h
  obtain ⟨-, rfl⟩ := pure_eq_iff.1 h
  exact fileAt_of_cleanState hread hclean

lemma saveState_cases (hread : t.Readable i.statePath)
    (hfound : ∀ store', store = some store' →
      ∃ bytes, t.find i.statePath = .ok (ofPath i.statePath, .file bytes))
    (h : (saveState system i store next).run t = ((), t')) :
    t'.fileAt (ofPath i.statePath) = none ∨
      t.write i.statePath (StateStore.ofSnapshot next).encode = .ok t' := by
  unfold saveState at h
  split at h
  · exact .inl (fileAt_of_forgetState hread h)
  · obtain ⟨wrote, t₁, hwrote, hrest⟩ := bind_eq_iff.1 h
    obtain ⟨bytes, hfind⟩ := hfound _ rfl
    rcases commitState_cases hfind hwrote with ⟨rfl, rfl⟩ | ⟨rfl, hwrite⟩
    · exact .inl (fileAt_of_forgetState hread hrest)
    · cases hrest
      exact .inr hwrite

lemma saveState_eq (h : HasRoom i.statePath t) {bytes : Bytes}
    (hfind : t.find i.statePath = .ok (ofPath i.statePath, .file bytes)) {store : StateStore}
    (next : Snapshot) : (saveState system i (some store) next).run t =
      ((), t.put (ofPath i.statePath) (.file (StateStore.ofSnapshot next).encode)) := by
  obtain ⟨t₁, hrun, -, hwrite⟩ := h.run_commit hfind next
  rw [h.store.write] at hwrite
  cases hwrite
  exact bind_eq_iff.2 ⟨true, _, hrun, rfl⟩

end Settings

namespace Site

variable {site : Site} {s : Settings} {t t₁ t₂ t' : FileTree} {inputs : List Input}
  {incremental cancelled : Bool}

lemma Regular.eq_of_key (hsite : site.Regular) {u v : InputUnit} (hu : u ∈ site.units)
    (hv : v ∈ site.units) (h : u.key = v.key) : u = v :=
  hsite.keys hu hv (congrArg StateStore.rowKey h)

structure Ready (site : Site) (s : Settings) (t : FileTree) (prior : Option Snapshot)
    (units : List InputUnit) (tally : Tally) (t₁ : FileTree) : Prop where
  known : ∀ u ∈ units, u ∈ site.units ∧
    ∀ bytes, t.fileAt (ofPath u.path) = some bytes → bytes ∈ site.contents
  staysInside : ∀ u ∈ units, u.StaysInside
  distinct : units.Pairwise fun u v => u.key ≠ v.key
  described : ∀ p, prior = some p → site.Describes p s t
  tallied : (RunContext.mk s site.layout prior).Tallied units t t₁ tally
  fingerprint : tally.next.fingerprint = some s.fingerprint
  outputs : ∀ q, site.layout.IsOutput q → t₁.fileAt q = t.fileAt q

namespace Ready

variable {prior : Option Snapshot} {units fresh : List InputUnit} {tally : Tally}

section

variable (hsite : site.Regular) (h : site.Ready s t prior units tally t₁)
  (hfresh : fresh.Sublist units) (hstaged : tally.staged = fresh.map Layout.unitLocation)
  (hcommitted : site.layout.Committed prior tally.next fresh t₁ t₂)

include hsite h in
lemma eq_of_unitLocation {u v : InputUnit} (hu : u ∈ units) (hv : v ∈ units)
    (heq : Layout.unitLocation u = Layout.unitLocation v) : u = v := by
  refine hsite.outputs (h.known u hu).1 (h.known v hv).1 ?_
  rw [Layout.outputPlace, Layout.outputPlace, heq]

include hsite h in
lemma isNone_iff {p : Snapshot} (hp : prior = some p) {r : UnitRecord} (hr : r ∈ p.records) :
    (tally.next.get? r.key).isNone = true ↔
      ∀ u ∈ units, site.layout.recordPlace r ≠ site.layout.outputPlace u := by
  obtain ⟨v, bytes, hnotes, hholds⟩ := (h.described p hp).holds r hr
  rw [Snapshot.get?_isNone_iff, recordPlace_eq hnotes]
  constructor
  · intro hnone u hu heq
    obtain rfl := hsite.outputs hholds.known (h.known u hu).1 heq
    obtain ⟨r', hr', hkey⟩ := h.tallied.known v hu
    exact hnone r' hr' (hkey.trans hnotes.key.symm)
  · intro hne r' hr' hkey
    obtain ⟨u, hu, bytes', -, hnotes'⟩ := h.tallied.noted r' hr'
    refine hne u hu (congrArg _ (hsite.eq_of_key hholds.known (h.known u hu).1 ?_))
    rw [← hnotes.key, ← hkey, hnotes'.key]

include hsite h hfresh hcommitted

lemma complete {q : FilePlace} (hq : site.layout.IsOutput q) (hsome : t₂.fileAt q ≠ none) :
    ∃ u ∈ units, q = site.layout.outputPlace u := by
  -- an output of no unit is dropped, or was not there before the run either
  by_contra hne
  push Not at hne
  have hfreshNe : ∀ u ∈ fresh, q ≠ site.layout.outputPlace u := fun u hu => hne u (hfresh.mem hu)
  by_cases hdropped : site.layout.IsDropped prior tally.next q
  · exact hsome (hcommitted.gone q hq hfreshNe hdropped)
  rw [hcommitted.stays q hq hfreshNe hdropped, h.outputs q hq] at hsome
  cases hp : prior with
  | none => exact hdropped (hp ▸ trivial)
  | some p =>
    obtain ⟨r, hr, rfl⟩ := (h.described p hp).complete q hq hsome
    refine hdropped ?_
    rw [hp]
    exact ⟨r, hr, (h.isNone_iff hsite hp hr).2 hne, rfl⟩

include hstaged

lemma holds_of_fresh {u : InputUnit} (hu : u ∈ fresh) :
    ∃ bytes, t.fileAt (ofPath u.path) = some bytes ∧ site.Holds s t₂ u bytes := by
  have hmem : Layout.unitLocation u ∈ tally.staged := hstaged ▸ List.mem_map_of_mem hu
  obtain ⟨v, hv, heq, bytes, out, hinput, hexpected, hout⟩ := h.tallied.staged _ hmem
  obtain rfl := h.eq_of_unitLocation hsite (hfresh.mem hu) hv heq
  obtain ⟨hcontents, hleads⟩ := hcommitted.moves u hu
  obtain ⟨hknown, hbytes⟩ := h.known u hv
  exact ⟨bytes, hinput, hknown, hbytes bytes hinput, h.staysInside u hv, hleads, out, hexpected,
    hcontents.trans hout⟩

lemma holds_of_reused {u : InputUnit} (hu : u ∈ units) (hold : u ∉ fresh) :
    ∃ bytes, t.fileAt (ofPath u.path) = some bytes ∧ site.Holds s t₂ u bytes := by
  have hapart : ∀ v ∈ fresh, site.layout.outputPlace u ≠ site.layout.outputPlace v := by
    intro v hv heq
    have hv' := hfresh.mem hv
    exact hold (hsite.outputs (h.known u hu).1 (h.known v hv').1 heq ▸ hv)
  obtain ⟨bytes, p, r, hinput, hp, hr, hkey, hhash⟩ : ∃ bytes p r,
      t.fileAt (ofPath u.path) = some bytes ∧ prior = some p ∧ r ∈ p.records ∧ r.key = u.key ∧
        r.contentHash = contentHash bytes := by
    refine (h.tallied.reused u hu).resolve_left fun hmem => ?_
    rw [hstaged] at hmem
    obtain ⟨v, hv, heq⟩ := List.mem_map.1 hmem
    exact hold (h.eq_of_unitLocation hsite (hfresh.mem hv) hu heq ▸ hv)
  obtain ⟨v, bytes', hnotes, hholds⟩ := (h.described p hp).holds r hr
  obtain ⟨hknown, hcontents⟩ := h.known u hu
  obtain rfl := hsite.eq_of_key hholds.known hknown (hnotes.key.symm.trans hkey)
  obtain rfl := hsite.hashes hholds.contents (hcontents bytes hinput)
    (hnotes.contents.symm.trans hhash)
  refine ⟨bytes', hinput, hholds.congr ?_⟩
  -- the unit is still there, so that its output is not dropped
  rw [← h.outputs _ hholds.isOutput]
  refine hcommitted.stays _ hholds.isOutput hapart ?_
  rw [hp]
  rintro ⟨r', hr', hnone, heq⟩
  exact (h.isNone_iff hsite hp hr').1 hnone v hu heq.symm

lemma holds {u : InputUnit} (hu : u ∈ units) :
    ∃ bytes, t.fileAt (ofPath u.path) = some bytes ∧ site.Holds s t₂ u bytes := by
  by_cases hnew : u ∈ fresh
  · exact h.holds_of_fresh hsite hfresh hstaged hcommitted hnew
  · exact h.holds_of_reused hsite hfresh hstaged hcommitted hu hnew

lemma describes : site.Describes tally.next s t₂ where
  holds r hr := by
    obtain ⟨u, hu, bytes, hinput, hnotes⟩ := h.tallied.noted r hr
    obtain ⟨bytes', hinput', hholds⟩ := h.holds hsite hfresh hstaged hcommitted hu
    rw [hinput] at hinput'
    exact ⟨u, bytes, hnotes, Option.some.inj hinput' ▸ hholds⟩
  complete q hq hsome := by
    obtain ⟨u, hu, rfl⟩ := h.complete hsite hfresh hcommitted hq hsome
    obtain ⟨r, hr, hkey⟩ := h.tallied.known u hu
    obtain ⟨v, hv, bytes, -, hnotes⟩ := h.tallied.noted r hr
    obtain rfl := hsite.eq_of_key (h.known u hu).1 (h.known v hv).1
      (hkey.symm.trans hnotes.key)
    exact ⟨r, hr, (recordPlace_eq hnotes).symm⟩

end

end Ready

section

variable (hsite : site.Regular)

include hsite

lemma ready_of_reckons {units : List InputUnit} {store : Option StateStore} {tally : Tally}
    (h : site.Consistent t) (hadmits : site.Admits s inputs t)
    (hreckons :
      Settings.Reckons s (site.invocation inputs incremental cancelled) t units store tally t₁) :
    site.Underway t store t₁ ∧
      site.Ready s t (s.prior? (site.invocation inputs incremental cancelled) store) units tally
        t₁ := by
  let i := site.invocation inputs incremental cancelled
  obtain ⟨⟨t₀, results, hbegins, hresults, rfl⟩, hvalid⟩ := hreckons
  have hinside := hbegins.staysInside h.wellFormed
  have hbegun := underway_of_begins hsite h hbegins
  have hunderway : site.Underway t store t₁ :=
    hbegun.staged hsite ((Settings.confined_results (i := i) hinside).within hresults)
  obtain ⟨us, hus, hunits⟩ := hbegins.exists_allUnits
  have hknown : ∀ u ∈ units, u ∈ site.units ∧
      ∀ bytes, t.fileAt (ofPath u.path) = some bytes → bytes ∈ site.contents := by
    intro u hu
    rw [hunits] at hu
    exact hadmits.units us hus u (InputUnit.mem_of_mem_distinct hu)
  have hdistinct : units.Pairwise fun u v => u.key ≠ v.key :=
    hunits ▸ InputUnit.pairwise_distinct us
  have hinputs : ∀ u ∈ units, ¬ site.layout.IsStaged (ofPath u.path) ∧
      t₀.fileAt (ofPath u.path) = t.fileAt (ofPath u.path) := by
    intro u hu
    obtain ⟨hstaged, hstore⟩ := hsite.inputs u (hknown u hu).1
    exact ⟨hstaged, hbegun.others _ hstaged hstore⟩
  have hapart : units.Pairwise fun u v =>
      site.layout.stagedPlace u ≠ site.layout.stagedPlace v := by
    refine hdistinct.imp_of_mem fun hu hv hne heq => hne (congrArg InputUnit.key ?_)
    exact hsite.outputs (hknown _ hu).1 (hknown _ hv).1
      (Layout.outputPlace_eq_of_stagedPlace_eq (hinside _ hu) (hinside _ hv) heq)
  have hyields :=
    Settings.yields_resultsOf hresults hinside (fun u hu => (hinputs u hu).1) hapart
  refine ⟨hunderway, hknown, hinside, hdistinct,
    fun p hp => h.prior hsite hadmits.settings hunderway hp, ?_, Snapshot.fingerprint_foldl _ _,
    hunderway.spared.outputs⟩
  refine Tally.tallied_of hdistinct hvalid (forall₂_imp_of_mem hyields fun u hu _ _ hresult => ?_)
  exact hresult.imp_right fun hyields => hyields.congr (hinputs u hu).2.symm rfl

structure Delivers (site : Site) (s : Settings) (t : FileTree) (units : List InputUnit)
    (t' : FileTree) : Prop where
  outputs : ∀ u ∈ units, ∃ bytes out, t.fileAt (ofPath u.path) = some bytes ∧
    s.expected? u.kind bytes = some out ∧ t'.fileAt (site.layout.outputPlace u) = some out
  nothingElse : ∀ q, site.layout.IsOutput q → t'.fileAt q ≠ none →
    ∃ u ∈ units, q = site.layout.outputPlace u

end

namespace Ready

variable {prior : Option Snapshot} {units : List InputUnit} {tally : Tally}

lemma exists_fresh (h : site.Ready s t prior units tally t₁) :
    ∃ fresh : List InputUnit, fresh.Sublist units ∧
      tally.staged = fresh.map Layout.unitLocation :=
  List.sublist_map_iff.1 h.tallied.locations

lemma within_of_commit (h : site.Ready s t prior units tally t₁) {q : Except CommitFault Nat}
    (hcommit : (site.layout.commit system prior tally.next tally.staged).run.run t₁ = (q, t₂)) :
    Within (fun q => site.layout.IsStaged q ∨ site.layout.IsOutput q) t₁ t₂ := by
  obtain ⟨fresh, hfresh, hstaged⟩ := h.exists_fresh
  rw [hstaged] at hcommit
  exact (Layout.confined_commit (fun u hu => h.staysInside u (hfresh.mem hu))
    fun p hp => (h.described p hp).finds).within hcommit

lemma committed (hsite : site.Regular) (h : site.Ready s t prior units tally t₁)
    (ht : t₁.WellFormed) (hopen : site.layout.IsOpen t₁) {n : Nat}
    (hcommit : (site.layout.commit system prior tally.next tally.staged).run.run t₁ =
      (.ok n, t₂)) : ∃ fresh : List InputUnit, fresh.Sublist units ∧
        tally.staged = fresh.map Layout.unitLocation ∧
          site.layout.Committed prior tally.next fresh t₁ t₂ := by
  obtain ⟨fresh, hfresh, hstaged⟩ := h.exists_fresh
  refine ⟨fresh, hfresh, hstaged, ?_⟩
  rw [hstaged] at hcommit
  have hapart : fresh.Pairwise fun u v =>
      site.layout.outputPlace u ≠ site.layout.outputPlace v := by
    refine (h.distinct.sublist hfresh).imp_of_mem fun hu hv hne heq => hne (congrArg _ ?_)
    exact hsite.outputs (h.known _ (hfresh.mem hu)).1 (h.known _ (hfresh.mem hv)).1 heq
  exact Layout.commit_ok ht hopen (fun q hq => hsite.not_output_of_approach hq) hsite.named
    (fun p hp => (h.described p hp).finds) (fun u hu => h.staysInside u (hfresh.mem hu)) hapart
    hcommit

lemma kept_of_write (hsite : site.Regular) (h : site.Ready s t prior units tally t₁)
    (hwrite : t₂.write site.statePath (StateStore.ofSnapshot tally.next).encode = .ok t') :
    t'.kept site.statePath = some tally.next := by
  have hload := StateStore.load_ofSnapshot h.tallied.ordered (fun r hr => by
    obtain ⟨u, -, bytes, -, hnotes⟩ := h.tallied.noted r hr
    exact hnotes.storable) fun r hr r' hr' heq => by
    obtain ⟨u, hu, bytes, -, hnotes⟩ := h.tallied.noted r hr
    obtain ⟨v, hv, bytes', -, hnotes'⟩ := h.tallied.noted r' hr'
    rw [hnotes.key, hnotes'.key] at heq ⊢
    rw [hsite.keys (h.known u hu).1 (h.known v hv).1 heq]
  rw [FileTree.kept, StateStore.stored_of_write hwrite]
  exact congrArg Except.toOption hload

end Ready

section

variable {units : List InputUnit} {store : Option StateStore} {prior : Option Snapshot}
  {tally : Tally}

lemma Ready.consistent_of_failed (hsite : site.Regular)
    (hready : site.Ready s t prior units tally t₁) (hunderway : site.Underway t store t₁)
    {c : CommitFault} {t₃ : FileTree}
    (hcommit : (site.layout.commit system prior tally.next tally.staged).run.run t₁ =
      (.error c, t₂))
    (hdiscard : (site.layout.discardStaging system).run t₂ = ((), t₃))
    (hforget : (Settings.forgetState system (site.invocation inputs incremental cancelled)).run t₃ =
      ((), t')) : site.Consistent t' := by
  let i := site.invocation inputs incremental cancelled
  have hwithin : Within (fun q => site.layout.IsStaged q ∨ site.layout.IsOutput q) t₁ t₃ :=
    (hready.within_of_commit hcommit).trans
      ((Layout.confined_discardStaging fun _ => .inl).within hdiscard)
  obtain ⟨hfile, hway⟩ := hsite.store_stays hwithin
  have hread : t₃.Readable site.statePath := hunderway.readable.congr hfile hway
  have hforgotten : Within (IsStorePlace site.statePath) t₃ t' :=
    (Settings.confined_forgetState (i := i) fun _ hq => hq).within hforget
  exact .of_none (hforgotten.wellFormed (hwithin.wellFormed hunderway.wellFormed))
    (Settings.fileAt_of_forgetState (i := i) hread hforget)

lemma Ready.consistent_of_committed (hsite : site.Regular) (hs : s ∈ site.settings)
    (hready : site.Ready s t prior units tally t₁) (hunderway : site.Underway t store t₁)
    {n : Nat}
    (hcommit : (site.layout.commit system prior tally.next tally.staged).run.run t₁ = (.ok n, t₂))
    (hsave : (Settings.saveState system (site.invocation inputs incremental cancelled) store
      tally.next).run t₂ = ((), t')) : site.Consistent t' ∧ site.Delivers s t units t' := by
  let i := site.invocation inputs incremental cancelled
  have hwithin := hready.within_of_commit hcommit
  obtain ⟨hfile, hway⟩ := hsite.store_stays hwithin
  obtain ⟨fresh, hfresh, hstaged, hcommitted⟩ :=
    hready.committed hsite hunderway.wellFormed hunderway.isOpen hcommit
  have hsaved : Within (IsStorePlace site.statePath) t₂ t' :=
    (Settings.confined_saveState (i := i) fun _ hq => hq).within hsave
  have hsame : ∀ q, site.layout.IsOutput q → t'.fileAt q = t₂.fileAt q := fun q hq =>
    hsaved.files q fun hstore => hsite.apart.notOutput q hstore hq
  have ht' := hsaved.wellFormed (hwithin.wellFormed hunderway.wellFormed)
  constructor
  · rcases Settings.saveState_cases (i := i) (hunderway.readable.congr hfile hway)
      (fun store' hstore => by
        obtain ⟨-, bytes, hfind⟩ := hunderway.found store' hstore
        exact ⟨bytes, find_congr hfind hfile hway⟩) hsave with hnone | hwrite
    · exact .of_none ht' hnone
    · refine ⟨ht', readable_of_find (find_of_write hwrite), fun p f hp hf => ⟨s, hs, ?_⟩⟩
      rw [hready.kept_of_write hsite hwrite] at hp
      cases hp
      rw [hready.fingerprint] at hf
      exact ⟨Option.some.inj hf,
        (hready.describes hsite hfresh hstaged hcommitted).congr hsame⟩
  · constructor
    · intro u hu
      obtain ⟨bytes, hinput, hholds⟩ := hready.holds hsite hfresh hstaged hcommitted hu
      obtain ⟨out, hexpected, hout⟩ := hholds.output
      exact ⟨bytes, out, hinput, hexpected, (hsame _ hholds.isOutput).trans hout⟩
    · exact fun q hq hsome => hready.complete hsite hfresh hcommitted hq (hsame q hq ▸ hsome)

end

lemma Delivers.of_distinct (hsite : site.Regular) {us : List InputUnit}
    (hus : ∀ u ∈ us, u ∈ site.units) (h : site.Delivers s t (InputUnit.distinct us) t') :
    site.Delivers s t us t' where
  outputs u hu := by
    obtain ⟨v, hv, hkey⟩ := InputUnit.exists_mem_distinct hu
    obtain rfl := hsite.eq_of_key (hus v (InputUnit.mem_of_mem_distinct hv)) (hus u hu) hkey
    exact h.outputs v hv
  nothingElse q hq hsome := by
    obtain ⟨u, hu, heq⟩ := h.nothingElse q hq hsome
    exact ⟨u, InputUnit.mem_of_mem_distinct hu, heq⟩

/-- A step of a history: whatever comes of a run, the store can be relied on afterwards. -/
theorem Consistent.run (hsite : site.Regular) (h : site.Consistent t)
    (hadmits : site.Admits s inputs t) {r : Except Crash (Except RunFault RunReport)}
    (hends : Settings.Ends s (site.invocation inputs incremental cancelled) t r t') :
    site.Consistent t' ∧ ∀ report, r = .ok (.ok report) →
      ∃ us, ((Input.allUnits system inputs).run t).1 = .ok us ∧ site.Delivers s t us t' := by
  rcases Settings.ends_cases h.wellFormed hends with ⟨hfailed, hwithin⟩ |
    ⟨units, store, tally, t₁, hreckons, hcommit⟩
  · refine ⟨?_, fun report hr => absurd hr (hfailed report)⟩
    rcases hwithin with hstaged | ⟨units, store, t₁, hbegins, hstaged⟩
    · obtain ⟨hfile, hway⟩ := hsite.store_stays_of_staged hstaged
      exact h.of_spared (hstaged.wellFormed h.wellFormed) (h.readable.congr hfile hway)
        (.of_staged hsite.apart hstaged)
    · have hunderway := (underway_of_begins hsite h hbegins).staged hsite hstaged
      exact h.of_spared hunderway.wellFormed hunderway.readable hunderway.spared
  obtain ⟨hunderway, hready⟩ := ready_of_reckons hsite h hadmits hreckons
  rcases hcommit with ⟨c, t₂, t₃, hcommit, hdiscard, hforget, rfl⟩ |
    ⟨n, t₂, report, hcommit, hsave, rfl⟩
  · exact ⟨hready.consistent_of_failed hsite hunderway hcommit hdiscard hforget, nofun⟩
  · obtain ⟨hconsistent, hdelivers⟩ :=
      hready.consistent_of_committed hsite hadmits.settings hunderway hcommit hsave
    refine ⟨hconsistent, fun _ _ => ?_⟩
    obtain ⟨⟨t₀, results, hbegins, -⟩, -⟩ := hreckons
    obtain ⟨us, hus, rfl⟩ := hbegins.exists_allUnits
    exact ⟨us, hus, hdelivers.of_distinct hsite fun u hu => (hadmits.units us hus u hu).1⟩

/-- What can have happened at a site. At first there is no store. Between two runs anything may be
done to files that are neither outputs nor the store, and to directories that do not lead there. -/
inductive Reached (site : Site) : FileTree → Prop
  | start {t : FileTree} (ht : t.WellFormed) (hnone : t.fileAt (ofPath site.statePath) = none) :
      Reached site t
  | outside {t t' : FileTree} (h : Reached site t) (ht' : t'.WellFormed)
      (houtputs : ∀ q, site.layout.IsOutput q → t'.fileAt q = t.fileAt q)
      (hstore : t'.fileAt (ofPath site.statePath) = t.fileAt (ofPath site.statePath))
      (hway : ∀ q ∈ trail site.statePath, t.get? q = some .directory →
        t'.get? q = some .directory) : Reached site t'
  | run {t t' : FileTree} {s : Settings} {inputs : List Input} {incremental cancelled : Bool}
      {r : Except Crash (Except RunFault RunReport)} (h : Reached site t)
      (hadmits : site.Admits s inputs t)
      (hends : Settings.Ends s (site.invocation inputs incremental cancelled) t r t') :
      Reached site t'

theorem Reached.consistent (hsite : site.Regular) (h : site.Reached t) : site.Consistent t := by
  induction h with
  | start ht hnone => exact .of_none ht hnone
  | outside _ ht' houtputs hstore hway ih =>
    exact ih.of_spared ht' (ih.readable.congr hstore hway) ⟨houtputs, stored_congr hstore⟩
  | run _ hadmits hends ih => exact (ih.run hsite hadmits hends).1

/-- However often the settings and the inputs have changed, and whatever has come of the runs before: a
run that is valid leaves one file for each of its units and no other, and in it is what comes of the
unit when it is processed from scratch. -/
theorem run_delivers (hsite : site.Regular) (h : site.Reached t) (hadmits : site.Admits s inputs t)
    {report : RunReport}
    (hends : Settings.Ends s (site.invocation inputs incremental cancelled) t
      (.ok (.ok report)) t') :
    ∃ us, ((Input.allUnits system inputs).run t).1 = .ok us ∧ site.Delivers s t us t' :=
  ((h.consistent hsite).run hsite hadmits hends).2 report rfl

/-! Two runs share a store. Between them the file of one unit changes, so that the second run replaces
the output of that unit and lets the other one stand. -/

section Sample

def keptUnit : InputUnit := ⟨.project, "in", .file "a"⟩

def changedUnit : InputUnit := ⟨.project, "lib", .file "b"⟩

def sampleSettings : Settings := { Settings.sampleSettings with incrementalEnabled := true }

def sample : Site :=
  ⟨⟨"out"⟩, "st/out.state", {keptUnit, changedUnit}, {[1], [2]}, {sampleSettings}⟩

lemma rowKey_ne_sample : StateStore.rowKey keptUnit.key ≠ StateStore.rowKey changedUnit.key := by
  decide +kernel

lemma regular_sample : sample.Regular where
  apart := by
    refine ⟨?_, by decide, by decide⟩
    rintro q (rfl | rfl) ⟨scope, hscope⟩ <;> cases scope <;> exact absurd hscope (by decide)
  ways := by
    have hways : ∀ q ∈ approach sample.layout.root ++ trail sample.statePath,
        q = [] ∨ q = ["out"] ∨ q = ["st"] := by decide
    have hshort : ∀ q ∈ approach sample.layout.root ++ trail sample.statePath,
        ∀ place : FilePlace, place.length = 2 → ¬ place <+: q := by
      intro q hq place hplace hprefix
      rcases hways q hq with rfl | rfl | rfl <;>
        exact absurd hprefix.length_le (by simp [hplace])
    intro q hq
    refine ⟨hshort q hq _ (by decide), ?_, ?_⟩
    · rintro ⟨scope, hscope⟩
      exact hshort q hq _ (by cases scope <;> decide) hscope
    · rintro (rfl | rfl) <;> exact absurd (hways _ hq) (by decide)
  named scope := by
    have hplace : (FileTree.mk [(["out"], .directory)]).place (sample.layout.scopeDirectory scope) =
        .ok ["out", scope.dirName] := by cases scope <;> decide
    exact (place_ok_iff.1 hplace).2.1
  inputs := by
    rintro u (rfl | rfl) <;> exact ⟨by decide, by rintro (h | h) <;> exact absurd h (by decide)⟩
  outputs := Set.injOn_pair.2 fun h => absurd h (by decide +kernel)
  keys := Set.injOn_pair.2 fun h => absurd h rowKey_ne_sample
  hashes := Set.injOn_pair.2 fun h => absurd h (by decide +kernel)
  valid := by
    rintro s rfl
    exact ⟨{ jarStreamThreshold := 0 }, rfl⟩
  fingerprints := by
    rintro s rfl s' rfl -
    rfl

def sampleInputs : List Input := [⟨.project, false, "in"⟩, ⟨.project, false, "lib"⟩]

lemma admits_sample {t : FileTree}
    (hunits : ((Input.allUnits system sampleInputs).run t).1 = .ok [keptUnit, changedUnit])
    (hkept : t.fileAt ["in", "a"] = some [1])
    (hchanged : t.fileAt ["lib", "b"] = some [1] ∨ t.fileAt ["lib", "b"] = some [2]) :
    sample.Admits sampleSettings sampleInputs t where
  settings := rfl
  units us hus u hu := by
    rw [hunits] at hus
    cases hus
    rcases List.mem_pair.1 hu with rfl | rfl
    · refine ⟨.inl rfl, fun bytes hinput => ?_⟩
      rw [show ofPath keptUnit.path = ["in", "a"] by decide, hkept] at hinput
      cases hinput
      exact .inl rfl
    · refine ⟨.inr rfl, fun bytes hinput => ?_⟩
      rw [show ofPath changedUnit.path = ["lib", "b"] by decide] at hinput
      rcases hchanged with h | h <;> rw [h] at hinput <;> cases hinput
      · exact .inl rfl
      · exact .inr rfl

def sampleInvocation : Invocation := sample.invocation sampleInputs true false

def sampleStart : FileTree :=
  ⟨[(["in"], .directory), (["in", "a"], .file [1]), (["lib"], .directory),
    (["lib", "b"], .file [2]), (["st"], .directory)]⟩

def sampleOpened : FileTree :=
  ⟨[(["st", "out.state"], .file StateStore.empty.encode), (["st", "out.state-lock"], .file []),
    (["out", ".ams-staging"], .directory), (["out"], .directory)] ++ sampleStart.nodes⟩

lemma begins_sampleStart : Settings.Begins sampleSettings sampleInvocation sampleStart
    [keptUnit, changedUnit] (some .empty) sampleOpened where
  called := rfl
  steps := by
    refine ⟨sampleStart, ⟨(["out", ".ams-staging"], .directory) :: (["out"], .directory) ::
      sampleStart.nodes⟩, ?_, ?_, ?_⟩
    · show @Eq (Except RunFault (List InputUnit) × FileTree) _ _
      decide +kernel
    · show @Eq (Except RunFault Unit × FileTree) _ _
      decide +kernel
    · show @Eq (Option StateStore × FileTree) _ _
      decide +kernel

def sampleStaged : FileTree :=
  ⟨[(["out", ".ams-staging", "project", "dirs", "lib-76b5a357", "b"], .file [2]),
    (["out", ".ams-staging", "project", "dirs", "lib-76b5a357"], .directory),
    (["out", ".ams-staging", "project", "dirs", "in-58296753", "a"], .file [1]),
    (["out", ".ams-staging", "project", "dirs", "in-58296753"], .directory),
    (["out", ".ams-staging", "project", "dirs"], .directory),
    (["out", ".ams-staging", "project"], .directory)] ++ sampleOpened.nodes⟩

def keptRecord : UnitRecord :=
  ⟨keptUnit.key, contentHash [1], .unchanged, "project/dirs/in-58296753/a", 0, []⟩

def changedRecord : UnitRecord :=
  ⟨changedUnit.key, contentHash [2], .unchanged, "project/dirs/lib-76b5a357/b", 0, []⟩

def sampleResults : List UnitResult :=
  [⟨some keptRecord, some keptRecord.output, false, [], 1⟩,
    ⟨some changedRecord, some changedRecord.output, false, [], 1⟩]

lemma resultsOf_sampleOpened :
    (Settings.resultsOf system (sampleSettings.contextOf sampleInvocation (some .empty))
      [keptUnit, changedUnit]).run.run sampleOpened =
        (.ok sampleResults, sampleStaged) := by
  show @Eq (Except Crash (List UnitResult) × FileTree) _ _
  decide +kernel

def keptOutput : FilePlace := ["out", "project", "dirs", "in-58296753", "a"]

def changedOutput : FilePlace := ["out", "project", "dirs", "lib-76b5a357", "b"]

def sampleCommitted : FileTree :=
  ⟨[(changedOutput, .file [2]), (["out", "project", "dirs", "lib-76b5a357"], .directory),
    (keptOutput, .file [1]), (["out", "project", "dirs", "in-58296753"], .directory),
    (["out", "project", "dirs"], .directory), (["out", "project"], .directory),
    (["st", "out.state"], .file StateStore.empty.encode), (["st", "out.state-lock"], .file []),
    (["out"], .directory)] ++ sampleStart.nodes⟩

lemma commit_sampleStaged (next : Snapshot) :
    (sampleInvocation.layout.commit system none next
      [keptRecord.output, changedRecord.output]).run.run sampleStaged =
        (.ok 0, sampleCommitted) := by
  -- where all outputs are new, the next snapshot plays no part
  have hmoves : (sampleInvocation.layout.commit system none .empty
      [keptRecord.output, changedRecord.output]).run.run sampleStaged =
        (.ok 0, sampleCommitted) := by
    show @Eq (Except CommitFault Nat × FileTree) _ _
    decide +kernel
  exact hmoves

lemma hasRoom_of_find {t : FileTree} {bytes : Bytes}
    (habove : t.find "st" = .ok (ofPath "st", .directory))
    (hstore : t.find "st/out.state" = .ok (ofPath "st/out.state", .file bytes))
    (hlock : t.find "st/out.state-lock" = .ok (ofPath "st/out.state-lock", .file [])) :
    HasRoom sample.statePath t := by
  have hparent : (Path.parent? sample.statePath).getD "" = "st" := by decide
  have hpath : lockPath sample.statePath = "st/out.state-lock" := by decide
  refine ⟨fun _ => ?_, by decide, takes_of_find hstore, ?_⟩
  · rw [hparent, habove]
  · rw [hpath]
    exact takes_of_find hlock

def sampleSnapshot : Snapshot :=
  ⟨some sampleSettings.fingerprint, [keptRecord, changedRecord]⟩

lemma tally_sampleResults : Tally.of sampleSettings.fingerprint sampleResults =
    ⟨0, 2, [keptRecord.output, changedRecord.output], sampleSnapshot, []⟩ := rfl

def sampleDone : FileTree :=
  sampleCommitted.put ["st", "out.state"] (.file (StateStore.ofSnapshot sampleSnapshot).encode)

lemma run_sampleStart : (sampleSettings.run system sampleInvocation).run.run.run sampleStart =
    (.ok (.ok ⟨false, 2, 0, 0, [], 2⟩), sampleDone) := by
  have hfind : sampleCommitted.find "st/out.state" =
      .ok (ofPath "st/out.state", .file StateStore.empty.encode) := by decide +kernel
  have hroom := hasRoom_of_find (by decide +kernel) hfind (by decide +kernel)
  rw [begins_sampleStart.run_eq]
  refine bindEE_ok_iff.2 ⟨sampleResults, sampleStaged, ?_, ?_⟩
  · rw [ExceptT.run_lift]
    exact bindE_ok_iff.2 ⟨_, _, resultsOf_sampleOpened, rfl⟩
  · have hfinish : (Settings.finish system sampleInvocation (some .empty)
        (sampleSettings.prior? sampleInvocation (some .empty)) 2
          (.of sampleSettings.fingerprint sampleResults)).run.run sampleStaged =
            (.ok ⟨false, 2, 0, 0, [], 2⟩, sampleDone) := by
      rw [tally_sampleResults]
      exact Settings.finish_eq rfl (commit_sampleStaged _) (Settings.saveState_eq hroom hfind _)
    exact Settings.lowered_eq_iff.2 ⟨_, hfinish, rfl⟩

def sampleChanged : FileTree := sampleDone.put ["lib", "b"] (.file [1])

lemma reached_sampleChanged : sample.Reached sampleChanged := by
  have hwell : sampleStart.WellFormed := wellFormed_of_nodes (by decide)
  have hreached : sample.Reached sampleDone :=
    .run (.start hwell (by decide))
      (admits_sample (by decide +kernel) (by decide) (.inr (by decide)))
      (.byItself run_sampleStart)
  have hplace : sampleDone.place "lib/b" = .ok ["lib", "b"] := by decide +kernel
  have hchange : Within (· = ["lib", "b"]) sampleDone sampleChanged :=
    within_put_file hplace (by decide +kernel) rfl
  refine .outside hreached (hchange.wellFormed (hreached.consistent regular_sample).wellFormed)
    (fun q hq => hchange.files q ?_) (hchange.files _ (by decide)) (fun q hq => ?_)
  · rintro rfl
    obtain ⟨scope, hscope⟩ := hq
    cases scope <;> exact absurd hscope (by decide)
  · refine hchange.directories q ?_
    rintro rfl
    exact absurd hq (by decide)

lemma load_sampleSnapshot : (StateStore.ofSnapshot sampleSnapshot).load = .ok sampleSnapshot := by
  have hmem : ∀ r ∈ sampleSnapshot.records, r = keptRecord ∨ r = changedRecord := by
    simp [sampleSnapshot]
  refine StateStore.load_ofSnapshot (by unfold Snapshot.Ordered; decide +kernel) ?_ ?_
  · intro r hr
    rcases hmem r hr with rfl | rfl <;> unfold UnitRecord.Storable <;> decide
  · intro r hr r' hr' heq
    rcases hmem r hr with rfl | rfl <;> rcases hmem r' hr' with rfl | rfl
    · rfl
    · exact absurd heq rowKey_ne_sample
    · exact absurd heq.symm rowKey_ne_sample
    · rfl

lemma prior_sample : sampleSettings.prior? sampleInvocation
    (some (StateStore.ofSnapshot sampleSnapshot)) = some sampleSnapshot := by
  unfold Settings.prior?
  dsimp only
  rw [if_pos (show sampleInvocation.incremental = true from rfl), load_sampleSnapshot]
  exact Option.filter_some_pos (beq_self_eq_true _)

def sampleCollected : FileTree :=
  ((Settings.collect system sampleInvocation).run.run sampleChanged).2

def sampleReady : FileTree :=
  ((Settings.prepareStaging system sampleInvocation).run.run sampleCollected).2

lemma begins_sampleChanged : Settings.Begins sampleSettings sampleInvocation sampleChanged
    [keptUnit, changedUnit] (some (StateStore.ofSnapshot sampleSnapshot)) sampleReady := by
  have hcollect : (Settings.collect system sampleInvocation).run.run sampleChanged =
      (.ok [keptUnit, changedUnit], sampleCollected) := run_eq_of_fst (by decide +kernel)
  have hprepare : (Settings.prepareStaging system sampleInvocation).run.run sampleCollected =
      (.ok (), sampleReady) := run_eq_of_fst (by decide +kernel)
  -- the store has not been touched, and what is in it need not be computed
  have hstaged : Within sample.layout.IsStaged sampleChanged sampleReady :=
    ((Settings.confined_collect (i := sampleInvocation)).within hcollect).trans
      ((Settings.confined_prepareStaging (i := sampleInvocation) fun _ hq => hq).within hprepare)
  obtain ⟨hfile, hway⟩ := regular_sample.store_stays_of_staged hstaged
  have hfind : sampleChanged.find "st/out.state" =
      .ok (ofPath "st/out.state", .file (StateStore.ofSnapshot sampleSnapshot).encode) :=
    find_ok_iff.2 ⟨by decide +kernel, rfl, fun _ => by decide⟩
  have hfind' : sampleReady.find "st/out.state" = _ := find_congr hfind hfile hway
  have hlock : sampleReady.find "st/out.state-lock" =
      .ok (ofPath "st/out.state-lock", .file []) := by decide +kernel
  have hopen := (hasRoom_of_find (by decide +kernel) hfind' hlock).run_openAt_of_find hfind'
    (StateStore.encode_ne_nil _) ⟨_, hlock⟩ (StateStore.decode?_encode _)
  exact ⟨rfl, _, _, hcollect, hprepare, bind_eq_iff.2 ⟨_, _, hopen, rfl⟩⟩

lemma allUnits_sampleChanged : ((Input.allUnits system sampleInputs).run sampleChanged).1 =
    .ok [keptUnit, changedUnit] := by decide +kernel

def sampleReport : RunReport := ⟨true, 2, 1, 0, [], 1⟩

lemma run_sampleChanged : ((sampleSettings.run system sampleInvocation).run.run.run
    sampleChanged).1 = .ok (.ok sampleReport) := by
  rw [begins_sampleChanged.run_eq, Settings.contextOf, prior_sample]
  decide +kernel

theorem run_delivers_sample : ∃ t t',
    sample.Regular ∧ sample.Reached t ∧ sample.Admits sampleSettings sampleInputs t ∧
    Settings.Ends sampleSettings (sample.invocation sampleInputs true false) t
      (.ok (.ok sampleReport)) t' ∧ sampleReport.reusedUnits = 1 ∧
    t.fileAt keptOutput = some [1] ∧ t'.fileAt keptOutput = some [1] ∧
    t.fileAt changedOutput = some [2] ∧ t'.fileAt changedOutput = some [1] := by
  have hadmits : sample.Admits sampleSettings sampleInputs sampleChanged :=
    admits_sample allUnits_sampleChanged (by decide) (.inl (by decide))
  obtain ⟨t', hends⟩ : ∃ t', Settings.Ends sampleSettings sampleInvocation sampleChanged
      (.ok (.ok sampleReport)) t' := ⟨_, .byItself (run_eq_of_fst run_sampleChanged)⟩
  obtain ⟨us, hus, hdelivers⟩ := run_delivers regular_sample reached_sampleChanged hadmits hends
  rw [allUnits_sampleChanged] at hus
  cases hus
  have hknown : ∀ u ∈ [keptUnit, changedUnit], sampleChanged.fileAt (ofPath u.path) = some [1] ∧
      sampleSettings.expected? u.kind [1] = some [1] := by decide +kernel
  have hplaces : sample.layout.outputPlace keptUnit = keptOutput ∧
      sample.layout.outputPlace changedUnit = changedOutput := by decide +kernel
  have houtputs : ∀ u ∈ [keptUnit, changedUnit],
      t'.fileAt (sample.layout.outputPlace u) = some [1] := by
    intro u hu
    obtain ⟨hbytes, hsame⟩ := hknown u hu
    obtain ⟨bytes, out, hinput, hexpected, hout⟩ := hdelivers.outputs u hu
    rw [hbytes] at hinput
    cases hinput
    rw [hout, ← hexpected, hsame]
  have hkept : t'.fileAt keptOutput = some [1] := hplaces.1 ▸ houtputs keptUnit (by simp)
  have hchanged : t'.fileAt changedOutput = some [1] :=
    hplaces.2 ▸ houtputs changedUnit (by simp)
  exact ⟨_, t', regular_sample, reached_sampleChanged, hadmits, hends, rfl, by decide +kernel,
    hkept, by decide +kernel, hchanged⟩

end Sample

end Site

end ClassWeaver
