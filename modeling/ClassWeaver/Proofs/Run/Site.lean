import Mathlib.Data.Set.Function
import ClassWeaver.Proofs.Run.Commit
import ClassWeaver.Proofs.Run.FailedRuns
import ClassWeaver.Proofs.Run.Tallies
import ClassWeaver.Proofs.Settings.Fingerprint

namespace ClassWeaver

open FileTree TreeM FilePlace

structure Site where
  layout : Layout
  statePath : String
  units : Set InputUnit
  contents : Set Bytes
  settings : Set Settings

namespace Site

variable {site : Site} {s : Settings} {t t' : FileTree}

def invocation (site : Site) (inputs : List Input) (incremental cancelled : Bool) : Invocation :=
  ⟨inputs, site.layout, incremental, site.statePath, cancelled⟩

/-- Nothing at a site is taken for something else: neither files nor hashes of what is involved. -/
structure Regular (site : Site) : Prop where
  apart : Apart site.layout site.statePath
  ways : ∀ q ∈ approach site.layout.root ++ trail site.statePath, ¬ site.layout.IsStaged q ∧
    ¬ site.layout.IsOutput q ∧ ¬ IsStorePlace site.statePath q
  named : ∀ scope, Named (site.layout.scopeDirectory scope)
  inputs : ∀ u ∈ site.units, ¬ site.layout.IsStaged (ofPath u.path) ∧
    ¬ IsStorePlace site.statePath (ofPath u.path)
  outputs : Set.InjOn site.layout.outputPlace site.units
  keys : Set.InjOn (fun u => StateStore.rowKey u.key) site.units
  hashes : Set.InjOn contentHash site.contents
  valid : ∀ s ∈ site.settings, s.Valid
  fingerprints : ∀ s ∈ site.settings, ∀ s' ∈ site.settings, s.fingerprint = s'.fingerprint →
    s.outputAffecting.compact = s'.outputAffecting.compact

structure Admits (site : Site) (s : Settings) (inputs : List Input) (t : FileTree) : Prop where
  settings : s ∈ site.settings
  units : ∀ us, ((Input.allUnits system inputs).run t).1 = .ok us → ∀ u ∈ us, u ∈ site.units ∧
    ∀ bytes, t.fileAt (ofPath u.path) = some bytes → bytes ∈ site.contents

structure Holds (site : Site) (s : Settings) (t : FileTree) (u : InputUnit) (bytes : Bytes) :
    Prop where
  known : u ∈ site.units
  contents : bytes ∈ site.contents
  staysInside : u.StaysInside
  leadsToFile : LeadsToFile (Path.append site.layout.root (Layout.unitLocation u))
  output : ∃ out, s.expected? u.kind bytes = some out ∧
    t.fileAt (site.layout.outputPlace u) = some out

structure Describes (site : Site) (p : Snapshot) (s : Settings) (t : FileTree) : Prop where
  holds : ∀ r ∈ p.records, ∃ u bytes, r.Notes u bytes ∧ site.Holds s t u bytes
  complete : ∀ q, site.layout.IsOutput q → t.fileAt q ≠ none →
    ∃ r ∈ p.records, q = site.layout.recordPlace r

/-- What is in the store can be relied on. -/
structure Consistent (site : Site) (t : FileTree) : Prop where
  wellFormed : t.WellFormed
  readable : t.Readable site.statePath
  described : ∀ p f, t.kept site.statePath = some p → p.fingerprint = some f →
    ∃ s ∈ site.settings, s.fingerprint = f ∧ site.Describes p s t

namespace Holds

variable {u : InputUnit} {bytes : Bytes}

lemma isOutput (h : site.Holds s t u bytes) : site.layout.IsOutput (site.layout.outputPlace u) :=
  ⟨u.scope, Layout.scopePlace_prefix_outputPlace h.staysInside⟩

lemma congr (h : site.Holds s t u bytes)
    (hsame : t'.fileAt (site.layout.outputPlace u) = t.fileAt (site.layout.outputPlace u)) :
    site.Holds s t' u bytes := by
  obtain ⟨out, hexpected, hout⟩ := h.output
  exact ⟨h.known, h.contents, h.staysInside, h.leadsToFile, out, hexpected, hsame.trans hout⟩

end Holds

lemma recordPlace_eq {r : UnitRecord} {u : InputUnit} {bytes : Bytes} (h : r.Notes u bytes) :
    site.layout.recordPlace r = site.layout.outputPlace u := by
  rw [Layout.recordPlace, h.output]
  rfl

namespace Describes

variable {p : Snapshot}

lemma congr (h : site.Describes p s t)
    (hsame : ∀ q, site.layout.IsOutput q → t'.fileAt q = t.fileAt q) : site.Describes p s t' where
  holds r hr := by
    obtain ⟨u, bytes, hnotes, hholds⟩ := h.holds r hr
    exact ⟨u, bytes, hnotes, hholds.congr (hsame _ hholds.isOutput)⟩
  complete q hq hsome := h.complete q hq (hsame q hq ▸ hsome)

lemma finds (h : site.Describes p s t) : ∀ r ∈ p.records, site.layout.Finds r := by
  intro r hr
  obtain ⟨u, bytes, hnotes, hholds⟩ := h.holds r hr
  refine ⟨?_, ?_, ?_⟩
  · rw [hnotes.output]
    exact Layout.descends_unitLocation hholds.staysInside
  · rw [hnotes.output]
    exact hholds.leadsToFile
  · rw [recordPlace_eq hnotes]
    exact hholds.isOutput

end Describes

namespace Consistent

lemma of_spared (h : site.Consistent t) (ht' : t'.WellFormed)
    (hread : t'.Readable site.statePath) (hspared : Spared site.layout site.statePath t t') :
    site.Consistent t' where
  wellFormed := ht'
  readable := hread
  described p f hp hf := by
    rw [kept_congr hspared.snapshot] at hp
    obtain ⟨s, hs, hfingerprint, hdescribes⟩ := h.described p f hp hf
    exact ⟨s, hs, hfingerprint, hdescribes.congr hspared.outputs⟩

lemma of_none (ht : t.WellFormed) (h : t.fileAt (ofPath site.statePath) = none) :
    site.Consistent t where
  wellFormed := ht
  readable := readable_of_fileAt_eq_none h
  described p f hp hf := by
    rw [kept_of_fileAt_eq_none h] at hp
    cases hp
    cases hf

end Consistent

structure Underway (site : Site) (t : FileTree) (store : Option StateStore) (t' : FileTree) :
    Prop where
  wellFormed : t'.WellFormed
  readable : t'.Readable site.statePath
  spared : Spared site.layout site.statePath t t'
  isOpen : site.layout.IsOpen t'
  found : ∀ store', store = some store' → t.stored site.statePath = some store' ∧
    ∃ bytes, t'.find site.statePath = .ok (ofPath site.statePath, .file bytes)
  others : ∀ q, ¬ site.layout.IsStaged q → ¬ IsStorePlace site.statePath q →
    t'.fileAt q = t.fileAt q

lemma isOpen_of_prepareStaging {inputs : List Input} {incremental cancelled : Bool}
    (h : (Settings.prepareStaging system (site.invocation inputs incremental cancelled)).run.run t =
      (.ok (), t')) : site.layout.IsOpen t' := by
  unfold Settings.prepareStaging at h
  obtain ⟨_, t₁, -, h⟩ := liftE_bind_iff.1 h
  obtain ⟨made, t₂, hmade, h⟩ := liftE_bind_iff.1 h
  cases made with
  | error fault => cases h
  | ok u =>
    cases h
    have hne : site.layout.stagingDirectory ≠ "" := by
      intro hempty
      have hnames := names_append site.layout.root Layout.descends_staging
      rw [← Layout.stagingDirectory, hempty] at hnames
      have hnil : FileTree.names "".toList = [] := by decide
      rw [hnil] at hnames
      exact Layout.descends_staging.names (List.append_eq_nil_iff.1 hnames.symm).2
    have hfind := find_of_makeDirectories hne hmade
    obtain ⟨-, -, hdirs⟩ := place_ok_iff.1 (find_ok_iff.1 hfind).1
    exact fun q hq => hdirs q (mem_trail_of_mem_approach Layout.descends_staging hq)

section Regular

variable (hsite : site.Regular)

include hsite

lemma Regular.not_output_of_approach {q : FilePlace} (hq : q ∈ approach site.layout.root) :
    ¬ site.layout.IsOutput q := (hsite.ways q (List.mem_append_left _ hq)).2.1

lemma Regular.store_stays
    (h : Within (fun q => site.layout.IsStaged q ∨ site.layout.IsOutput q) t t') :
    t'.fileAt (ofPath site.statePath) = t.fileAt (ofPath site.statePath) ∧
      ∀ q ∈ trail site.statePath, t.get? q = some .directory → t'.get? q = some .directory := by
  constructor
  · refine h.files _ (not_or.2 ⟨hsite.apart.notStaged, ?_⟩)
    exact hsite.apart.notOutput _ (.inl rfl)
  · intro q hq
    obtain ⟨hstaged, houtput, -⟩ := hsite.ways q (List.mem_append_right _ hq)
    exact h.directories q (not_or.2 ⟨hstaged, houtput⟩)

lemma Regular.store_stays_of_staged (h : Within site.layout.IsStaged t t') :
    t'.fileAt (ofPath site.statePath) = t.fileAt (ofPath site.statePath) ∧
      ∀ q ∈ trail site.statePath, t.get? q = some .directory → t'.get? q = some .directory :=
  hsite.store_stays (h.mono fun _ => .inl)

lemma underway_of_begins {inputs : List Input} {incremental cancelled : Bool}
    {units : List InputUnit} {store : Option StateStore} (h : site.Consistent t)
    (hbegins : Settings.Begins s (site.invocation inputs incremental cancelled) t units store t') :
    site.Underway t store t' := by
  let i := site.invocation inputs incremental cancelled
  have hspared := hbegins.spared hsite.apart
  obtain ⟨t₁, t₂, hcollect, hprepare, hopen⟩ := hbegins.steps
  have hstaged : Within site.layout.IsStaged t t₂ :=
    (Settings.confined_collect.within hcollect).trans
      ((Settings.confined_prepareStaging (i := i) fun _ hq => hq).within hprepare)
  have hstored : Within (IsStorePlace site.statePath) t₂ t' :=
    (Settings.confined_openStore (i := i) fun _ hq => hq).within hopen
  have hopens := Settings.openStore_opens (i := i) hsite.apart.twoFiles hopen
  refine ⟨hstored.wellFormed (hstaged.wellFormed h.wellFormed), ?_, hspared, ?_, ?_, ?_⟩
  · rcases hopens.written with hsame | ⟨bytes, hfind⟩
    · obtain ⟨hfile, hway⟩ := hsite.store_stays_of_staged hstaged
      exact (h.readable.congr hfile hway).congr hsame fun q hq =>
        hstored.directories q (hsite.ways q (List.mem_append_right _ hq)).2.2
    · exact readable_of_find hfind
  · exact (isOpen_of_prepareStaging hprepare).within
      (fun q hq => (hsite.ways q (List.mem_append_left _ hq)).2.2) hstored
  · intro store' hstore
    obtain ⟨hopened, hfind⟩ := hopens.opened store' hstore
    exact ⟨(stored_congr (hstaged.files _ hsite.apart.notStaged)).symm.trans hopened, hfind⟩
  · exact fun q hq hq' => (hstored.files q hq').trans (hstaged.files q hq)

lemma Underway.staged {store : Option StateStore} {t'' : FileTree} (h : site.Underway t store t')
    (hstaged : Within site.layout.IsStaged t' t'') : site.Underway t store t'' := by
  obtain ⟨hfile, hway⟩ := hsite.store_stays_of_staged hstaged
  refine ⟨hstaged.wellFormed h.wellFormed, h.readable.congr hfile hway,
    h.spared.trans (.of_staged hsite.apart hstaged), ?_, fun store' hstore => ?_,
    fun q hq hq' => (hstaged.files q hq).trans (h.others q hq hq')⟩
  · exact h.isOpen.within (fun q hq => (hsite.ways q (List.mem_append_left _ hq)).1) hstaged
  · obtain ⟨hopened, bytes, hfind⟩ := h.found store' hstore
    exact ⟨hopened, bytes, find_congr hfind hfile hway⟩

lemma Consistent.prior (h : site.Consistent t) {store : Option StateStore} {p : Snapshot}
    {inputs : List Input} {incremental cancelled : Bool} (hs : s ∈ site.settings)
    (hunderway : site.Underway t store t')
    (hp : s.prior? (site.invocation inputs incremental cancelled) store = some p) :
    site.Describes p s t := by
  unfold Settings.prior? at hp
  split at hp
  · cases hp
  next store =>
  split at hp
  · obtain ⟨hload, hfingerprint⟩ := Option.filter_eq_some_iff.1 hp
    have hkept : t.kept site.statePath = some p := by
      rw [FileTree.kept, (hunderway.found _ rfl).1]
      exact hload
    obtain ⟨s', hs', hsame, hdescribes⟩ :=
      h.described p _ hkept (by simpa using hfingerprint)
    have hexpected := Settings.expected?_eq_of_compact_eq (hsite.valid s hs) (hsite.valid s' hs')
      (hsite.fingerprints s hs s' hs' hsame.symm)
    refine ⟨fun r hr => ?_, hdescribes.complete⟩
    obtain ⟨u, bytes, hnotes, hholds⟩ := hdescribes.holds r hr
    obtain ⟨out, hout, hfile⟩ := hholds.output
    exact ⟨u, bytes, hnotes, hholds.known, hholds.contents, hholds.staysInside,
      hholds.leadsToFile, out, hexpected ▸ hout, hfile⟩
  · cases hp

end Regular

end Site

end ClassWeaver
