import Mathlib.Data.List.Nodup
import ClassWeaver.Proofs.State.ReopenedStore

/-!
A snapshot that is worked on together with its store, in any order. Whatever is done, the store gives
back what was committed to it last.
-/

namespace ClassWeaver

open FileTree TreeM FilePlace

namespace Snapshot

lemma key_of_get? {s : Snapshot} {key : String} {r : UnitRecord} (h : s.get? key = some r) :
    r.key = key := by simpa using List.find?_some h

lemma get?_insert (s : Snapshot) (r : UnitRecord) (key : String) :
    (s.insert r).get? key = if r.key = key then some r else s.get? key := by
  unfold get? insert
  dsimp only
  induction s.records with
  | nil => by_cases hkey : r.key = key <;> simp [insertInto, hkey]
  | cons x rs ih =>
    rw [insertInto]
    split
    · by_cases hkey : r.key = key <;> simp [hkey]
    split
    · next heq => by_cases hkey : r.key = key <;> simp [hkey, ← heq]
    · next hne =>
      rw [List.find?_cons, List.find?_cons, ih]
      by_cases hx : x.key = key
      · rw [beq_iff_eq.2 hx]
        exact (if_neg fun hr => hne (hr.trans hx.symm)).symm
      · rw [beq_eq_false_iff_ne.2 hx]

lemma get?_foldl_insert (s : Snapshot) (rs : List UnitRecord) (key : String) :
    (rs.foldl insert s).get? key = (rs.reverse.find? (·.key = key)).or (s.get? key) := by
  induction rs generalizing s with
  | nil => rfl
  | cons r rs ih =>
    rw [List.foldl_cons, ih, get?_insert, List.reverse_cons, List.find?_append, Option.or_assoc]
    congr 1
    by_cases hkey : r.key = key <;> simp [hkey]

namespace Ordered

variable {s s' : Snapshot}

lemma nodup_keys (h : s.Ordered) : (s.records.map (·.key)).Nodup :=
  List.pairwise_map.2 h.pairwise_ne

lemma get?_eq_some_iff (h : s.Ordered) {key : String} {r : UnitRecord} :
    s.get? key = some r ↔ r ∈ s.records ∧ r.key = key := by
  refine ⟨fun hget => ⟨List.mem_of_find?_eq_some hget, key_of_get? hget⟩, ?_⟩
  rintro ⟨hr, rfl⟩
  cases hget : s.get? r.key with
  | none => simpa using List.find?_eq_none.1 hget r hr
  | some r' =>
    rw [List.inj_on_of_nodup_map h.nodup_keys (List.mem_of_find?_eq_some hget) hr
      (key_of_get? hget)]

lemma ext_get? (h : s.Ordered) (h' : s'.Ordered) (hfingerprint : s.fingerprint = s'.fingerprint)
    (hget : ∀ key, s.get? key = s'.get? key) : s = s' := by
  refine h.eq_of_perm h' hfingerprint
    ((List.perm_ext_iff_of_nodup (.of_map _ h.nodup_keys) (.of_map _ h'.nodup_keys)).2 fun r => ?_)
  have hmem : ∀ {s : Snapshot}, s.Ordered → (r ∈ s.records ↔ s.get? r.key = some r) := fun h => by
    rw [h.get?_eq_some_iff, and_iff_left rfl]
  rw [hmem h, hmem h', hget]

lemma insert_comm (h : s.Ordered) {r r' : UnitRecord} (hne : r.key ≠ r'.key) :
    (s.insert r).insert r' = (s.insert r').insert r := by
  refine ext_get? (ordered_insert (ordered_insert h r) r') (ordered_insert (ordered_insert h r') r)
    rfl fun key => ?_
  simp only [get?_insert]
  by_cases hr : r.key = key
  · rw [if_pos hr, if_pos hr, if_neg fun hr' => hne (hr.trans hr'.symm)]
  · rw [if_neg hr, if_neg hr]

end Ordered

end Snapshot

inductive Deed where
  | blank
  | fresh (fingerprint : String)
  | insert (r : UnitRecord)
  | commit
  | load
  | reopen
  | clean
  deriving DecidableEq

namespace Deed

def loaded (path : String) : TreeM (Option Snapshot) := do
  match ← (system.read path).run with
  | .error _ => return none
  | .ok bytes => return (StateStore.decode? bytes).bind (·.load.toOption)

def opened (path : String) (s : Snapshot) : TreeM (Option Snapshot) :=
  return (← StateStore.openAt system path).toOption.map fun _ => s

def perform (path : String) : Deed → Snapshot → TreeM (Option Snapshot)
  | blank, _ => return some .empty
  | fresh fingerprint, _ => return some (.ofFingerprint fingerprint)
  | insert r, s => return some (s.insert r)
  | commit, s => return if ← StateStore.commit system path s then some s else none
  | load, _ => loaded path
  | reopen, s => opened path s
  | clean, s => do
    match ← (cleanState system path).run with
    | .error _ => return none
    | .ok () => opened path s

def performAll (path : String) : List Deed → Snapshot → TreeM (Option Snapshot)
  | [], s => return some s
  | d :: ds, s => do
    match ← perform path d s with
    | none => return none
    | some s => performAll path ds s

end Deed

structure Ledger where
  snapshot : Snapshot
  committed : Snapshot

namespace Ledger

def start : Ledger := ⟨.empty, .empty⟩

def after : Ledger → Deed → Ledger
  | l, .blank => { l with snapshot := .empty }
  | l, .fresh fingerprint => { l with snapshot := .ofFingerprint fingerprint }
  | l, .insert r => { l with snapshot := l.snapshot.insert r }
  | l, .commit => { l with committed := l.snapshot }
  | l, .load => { l with snapshot := l.committed }
  | l, .reopen => l
  | l, .clean => { l with committed := .empty }

def afterAll (ds : List Deed) : Ledger := ds.foldl after start

lemma committed_foldl {ds : List Deed} (h : ∀ d ∈ ds, d ≠ .commit ∧ d ≠ .clean) (l : Ledger) :
    (ds.foldl after l).committed = l.committed := by
  induction ds generalizing l with
  | nil => rfl
  | cons d ds ih =>
    rw [List.forall_mem_cons] at h
    rw [List.foldl_cons, ih h.2]
    cases d with
    | commit => exact absurd rfl h.1.1
    | clean => exact absurd rfl h.1.2
    | blank | fresh | insert | load | reopen => rfl

lemma committed_afterAll {before later : List Deed}
    (h : ∀ d ∈ later, d ≠ .commit ∧ d ≠ .clean) :
    (afterAll (before ++ .commit :: later)).committed = (afterAll before).snapshot := by
  rw [afterAll, List.foldl_append, List.foldl_cons, committed_foldl h]
  rfl

lemma committed_eq_empty {ds : List Deed}
    (h : ∀ before later, ds = before ++ .commit :: later → .clean ∈ later) :
    (afterAll ds).committed = .empty := by
  induction ds using List.reverseRecOn with
  | nil => rfl
  | append_singleton ds d ih =>
    have hearlier : d ≠ .clean →
        ∀ before later, ds = before ++ .commit :: later → .clean ∈ later := by
      rintro hd before later rfl
      have hmem := h before (later ++ [d]) (by simp)
      exact (List.mem_append.1 hmem).resolve_right fun hlast => hd (List.mem_singleton.1 hlast).symm
    rw [afterAll, List.foldl_concat]
    cases d with
    | commit => exact absurd (h ds [] rfl) (List.not_mem_nil)
    | clean => rfl
    | blank | fresh | insert | load | reopen => exact ih (hearlier nofun)

end Ledger

structure Snapshot.Among (known : UnitRecord → Prop) (s : Snapshot) : Prop where
  ordered : s.Ordered
  known : ∀ r ∈ s.records, known r

/-- Records that can be stored side by side: no two of their keys have the same hash. -/
structure Storable (known : UnitRecord → Prop) : Prop where
  storable : ∀ r, known r → r.Storable
  keys : ∀ r r', known r → known r' →
    StateStore.rowKey r.key = StateStore.rowKey r'.key → r.key = r'.key

namespace Snapshot.Among

variable {known : UnitRecord → Prop} {s : Snapshot}

lemma of_nil (fingerprint : Option String) : Among known ⟨fingerprint, []⟩ :=
  ⟨List.Pairwise.nil, fun _ hr => absurd hr List.not_mem_nil⟩

lemma insert {r : UnitRecord} (h : s.Among known) (hr : known r) : (s.insert r).Among known := by
  refine ⟨ordered_insert h.ordered r, fun r' hr' => ?_⟩
  rcases mem_of_mem_insertInto hr' with rfl | hr'
  · exact hr
  · exact h.known r' hr'

lemma load_ofSnapshot (h : s.Among known) (hknown : Storable known) :
    (StateStore.ofSnapshot s).load = .ok s :=
  StateStore.load_ofSnapshot h.ordered (fun r hr => hknown.storable r (h.known r hr))
    fun r hr r' hr' => hknown.keys r r' (h.known r hr) (h.known r' hr')

end Snapshot.Among

structure Holds (known : UnitRecord → Prop) (path : String) (l : Ledger) (t : FileTree) :
    Prop where
  room : HasRoom path t
  found : ∃ bytes, t.find path = .ok (ofPath path, .file bytes)
  kept : t.kept path = some l.committed
  snapshot : l.snapshot.Among known
  committed : l.committed.Among known

namespace Holds

variable {known : UnitRecord → Prop} {path : String} {l : Ledger} {t t' : FileTree}

lemma run_loaded (h : Holds known path l t) :
    (Deed.loaded path).run t = (some l.committed, t) := by
  obtain ⟨bytes, hfind⟩ := h.found
  have hread := read_ok_iff.2 hfind
  have hkept := h.kept
  rw [FileTree.kept, FileTree.stored, fileAt_of_read hread, Option.getD_some] at hkept
  refine bind_eq_iff.2 ⟨.ok bytes, t, read_eq_iff.2 ⟨rfl, hread⟩, ?_⟩
  exact pure_eq_iff.2 ⟨hkept, rfl⟩

lemma run_opened (hroom : HasRoom path t) (hkept : t.kept path = some l.committed)
    (hsnapshot : l.snapshot.Among known) (hcommitted : l.committed.Among known) :
    ∃ t', (Deed.opened path l.snapshot).run t = (some l.snapshot, t') ∧ Holds known path l t' := by
  obtain ⟨store, hstored, -⟩ := Option.bind_eq_some_iff.1 hkept
  obtain ⟨t', hopen, hdirs⟩ := hroom.run_openAt hstored
  have hopens := StateStore.opens_openAt (ofPath_ne_ofPath_lockPath path) hopen
  exact ⟨t', bind_eq_iff.2 ⟨_, t', hopen, rfl⟩, hroom.congr hdirs, (hopens.opened store rfl).2,
    (kept_congr hopens.stored).trans hkept, hsnapshot, hcommitted⟩

lemma perform (h : Holds known path l t) (hknown : Storable known) {d : Deed}
    (hd : ∀ r, d = .insert r → known r) : ∃ t',
    (d.perform path l.snapshot).run t = (some (l.after d).snapshot, t') ∧
      Holds known path (l.after d) t' := by
  cases d with
  | blank => exact ⟨t, rfl, { h with snapshot := .of_nil none }⟩
  | fresh fingerprint => exact ⟨t, rfl, { h with snapshot := .of_nil (some fingerprint) }⟩
  | insert r => exact ⟨t, rfl, { h with snapshot := h.snapshot.insert (hd r rfl) }⟩
  | commit =>
    obtain ⟨bytes, hfind⟩ := h.found
    obtain ⟨t', hcommit, hdirs, hwrite⟩ := h.room.run_commit hfind l.snapshot
    have hkept : t'.kept path = some l.snapshot := by
      rw [FileTree.kept, StateStore.stored_of_write hwrite, Option.bind_some,
        h.snapshot.load_ofSnapshot hknown]
      rfl
    exact ⟨t', bind_eq_iff.2 ⟨true, t', hcommit, rfl⟩, h.room.congr hdirs,
      ⟨_, find_of_write hwrite⟩, hkept, h.snapshot, h.snapshot⟩
  | load => exact ⟨t, h.run_loaded, { h with snapshot := h.committed }⟩
  | reopen => exact run_opened h.room h.kept h.snapshot h.committed
  | clean =>
    obtain ⟨t₁, hclean, hdirs⟩ := h.room.run_cleanState
    have hnone := fileAt_of_cleanState h.room.store.readable hclean
    obtain ⟨t', hopen, hholds⟩ := run_opened (l := l.after .clean) (h.room.congr hdirs)
      (kept_of_fileAt_eq_none hnone) h.snapshot (.of_nil none)
    exact ⟨t', bind_eq_iff.2 ⟨.ok (), t₁, hclean, hopen⟩, hholds⟩

lemma performAll (hknown : Storable known) {ds : List Deed} (hds : ∀ r, .insert r ∈ ds → known r)
    (h : Holds known path l t) : ∃ t',
    (Deed.performAll path ds l.snapshot).run t = (some (ds.foldl Ledger.after l).snapshot, t') ∧
      Holds known path (ds.foldl Ledger.after l) t' := by
  induction ds generalizing l t with
  | nil => exact ⟨t, rfl, h⟩
  | cons d ds ih =>
    obtain ⟨t₁, hperform, hholds⟩ := h.perform (d := d) hknown
      fun r hr => hds r (hr ▸ List.mem_cons_self)
    obtain ⟨t', hrest, hend⟩ := ih (fun r hr => hds r (List.mem_cons_of_mem d hr)) hholds
    exact ⟨t', bind_eq_iff.2 ⟨_, t₁, hperform, hrest⟩, hend⟩

lemma of_openAt {store : StateStore} (hnone : t.fileAt (ofPath path) = none)
    (hopen : (StateStore.openAt system path).run t = (.ok store, t'))
    (hlock : t'.get? (ofPath (lockPath path)) ≠ some .directory) :
    Holds known path .start t' := by
  have hopens := StateStore.opens_openAt (ofPath_ne_ofPath_lockPath path) hopen
  exact ⟨hasRoom_of_openAt hnone hopen hlock, (hopens.opened store rfl).2,
    (kept_congr hopens.stored).trans (kept_of_fileAt_eq_none hnone), .of_nil none, .of_nil none⟩

end Holds

/-- Whatever is done with a snapshot and a store that was empty when it was opened, all goes well. The
store gives back the whole snapshot of the last commit, be its fingerprint known or not, unless the
store has been cleaned since; without such a commit it gives back the empty one. In the snapshot each
key leads to the record that came last under it. The lock of an open store is no directory, and no two
keys are taken to have the same hash. -/
theorem performAll_remembers {path : String} {t t₀ : FileTree} {store : StateStore}
    (hnone : t.fileAt (ofPath path) = none)
    (hopen : (StateStore.openAt system path).run t = (.ok store, t₀))
    (hlock : t₀.get? (ofPath (lockPath path)) ≠ some .directory) {deeds : List Deed}
    (hdeeds : Storable fun r => .insert r ∈ deeds) :
    ∃ (s : Snapshot) (t' : FileTree), (Deed.performAll path deeds .empty).run t₀ = (some s, t') ∧
      (∀ before later, deeds = before ++ .commit :: later →
        (∀ d ∈ later, d ≠ .commit ∧ d ≠ .clean) →
        ∃ committed t₁, (Deed.performAll path before .empty).run t₀ = (some committed, t₁) ∧
          (Deed.loaded path).run t' = (some committed, t')) ∧
      ((∀ before later, deeds = before ++ .commit :: later → .clean ∈ later) →
        (Deed.loaded path).run t' = (some .empty, t')) ∧
      (∀ key r, s.get? key = some r → r.key = key) ∧
      (∀ (rs : List UnitRecord) key, (rs.foldl Snapshot.insert s).get? key =
        (rs.reverse.find? (·.key = key)).or (s.get? key)) ∧
      (∀ r r', r.key ≠ r'.key → (s.insert r).insert r' = (s.insert r').insert r) := by
  have hstart : Holds (fun r => .insert r ∈ deeds) path .start t₀ := .of_openAt hnone hopen hlock
  obtain ⟨t', hrun, hend⟩ := hstart.performAll hdeeds fun r hr => hr
  refine ⟨_, t', hrun, ?_, ?_, fun key r => Snapshot.key_of_get?,
    fun rs key => Snapshot.get?_foldl_insert _ rs key,
    fun r r' => hend.snapshot.ordered.insert_comm⟩
  · intro before later hsplit hlater
    have hmem : ∀ r, .insert r ∈ before → .insert r ∈ deeds := by
      intro r hr
      rw [hsplit]
      exact List.mem_append_left _ hr
    obtain ⟨t₁, hbefore, -⟩ := hstart.performAll hdeeds hmem
    have hlast : (deeds.foldl Ledger.after .start).committed = (Ledger.afterAll before).snapshot := by
      rw [hsplit]
      exact Ledger.committed_afterAll hlater
    refine ⟨_, t₁, hbefore, ?_⟩
    rw [hend.run_loaded, hlast]
    rfl
  · intro hcleaned
    have hempty : (deeds.foldl Ledger.after .start).committed = .empty :=
      Ledger.committed_eq_empty hcleaned
    rw [hend.run_loaded, hempty]

section Sample

def sampleRecord : UnitRecord := ⟨"a", "h", .rewritten, "project/a", 7, ["trace"]⟩

def sampleLater : UnitRecord := ⟨"b", "h", .unchanged, "project/b", 8, []⟩

def sampleDeeds : List Deed :=
  [.fresh "f", .insert sampleRecord, .commit, .insert sampleLater, .reopen]

def sampleOpened : FileTree :=
  ⟨[(["st", "s"], .file StateStore.empty.encode), (["st", "s-lock"], .file []), (["st"], .directory)]⟩

lemma storable_sampleDeeds : Storable fun r => .insert r ∈ sampleDeeds := by
  have hmem : ∀ r, .insert r ∈ sampleDeeds → r = sampleRecord ∨ r = sampleLater := by
    simp [sampleDeeds]
  have hne : StateStore.rowKey "a" ≠ StateStore.rowKey "b" := by decide +kernel
  constructor
  · intro r hr
    rcases hmem r hr with rfl | rfl <;> unfold UnitRecord.Storable <;> decide
  · intro r r' hr hr' heq
    rcases hmem r hr with rfl | rfl <;> rcases hmem r' hr' with rfl | rfl
    · rfl
    · exact absurd heq hne
    · exact absurd heq.symm hne
    · rfl

theorem performAll_remembers_sample :
    FileTree.empty.fileAt (ofPath "st/s") = none ∧
    (StateStore.openAt system "st/s").run FileTree.empty = (.ok StateStore.empty, sampleOpened) ∧
    sampleOpened.get? (ofPath (lockPath "st/s")) ≠ some .directory ∧
    Storable (fun r => .insert r ∈ sampleDeeds) ∧
    ∃ s t', (Deed.performAll "st/s" sampleDeeds .empty).run sampleOpened = (some s, t') ∧
      (Deed.loaded "st/s").run t' = (some ⟨some "f", [sampleRecord]⟩, t') := by
  have hnone : FileTree.empty.fileAt (ofPath "st/s") = none := by decide
  have hopen : (StateStore.openAt system "st/s").run FileTree.empty =
      (.ok StateStore.empty, sampleOpened) := by
    show @Eq (Except StoreFault StateStore × FileTree) _ _
    decide +kernel
  have hlock : sampleOpened.get? (ofPath (lockPath "st/s")) ≠ some .directory := by decide
  obtain ⟨s, t', hrun, hlast, -⟩ := performAll_remembers hnone hopen hlock storable_sampleDeeds
  obtain ⟨committed, t₁, hbefore, hloaded⟩ :=
    hlast [.fresh "f", .insert sampleRecord] [.insert sampleLater, .reopen] rfl (by decide)
  cases hbefore
  exact ⟨hnone, hopen, hlock, storable_sampleDeeds, s, t', hrun, hloaded⟩

end Sample

end ClassWeaver
