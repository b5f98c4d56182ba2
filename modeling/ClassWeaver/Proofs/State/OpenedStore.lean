import ClassWeaver.Proofs.Files.Effects
import ClassWeaver.Proofs.State.SnapshotRoundTrip
import ClassWeaver.State.File

namespace ClassWeaver

open FileTree TreeM FilePlace

variable {A : FilePlace → Prop} {t t' : FileTree} {path : String}

def IsStorePlace (statePath : String) (q : FilePlace) : Prop :=
  q = ofPath statePath ∨ q = ofPath (lockPath statePath)

namespace FileTree

def stored (t : FileTree) (path : String) : Option StateStore :=
  StateStore.decode? ((t.fileAt (ofPath path)).getD [])

def kept (t : FileTree) (path : String) : Option Snapshot :=
  (t.stored path).bind (·.load.toOption)

lemma stored_congr (h : t'.fileAt (ofPath path) = t.fileAt (ofPath path)) :
    t'.stored path = t.stored path := by
  rw [stored, stored, h]

lemma kept_congr (h : t'.stored path = t.stored path) : t'.kept path = t.kept path := by
  rw [kept, kept, h]

lemma kept_of_fileAt_eq_none (h : t.fileAt (ofPath path) = none) :
    t.kept path = some Snapshot.empty := by
  rw [kept, stored, h]
  rfl

def Readable (t : FileTree) (path : String) : Prop :=
  ∀ bytes, t.fileAt (ofPath path) = some bytes → t.read path = .ok bytes

lemma readable_of_fileAt_eq_none (h : t.fileAt (ofPath path) = none) : t.Readable path := by
  intro bytes hbytes
  rw [h] at hbytes
  cases hbytes

lemma readable_of_find {bytes : Bytes} (h : t.find path = .ok (ofPath path, .file bytes)) :
    t.Readable path := by
  intro bytes' hbytes'
  have hread := read_ok_iff.2 h
  rw [fileAt_of_read hread] at hbytes'
  exact Option.some.inj hbytes' ▸ hread

lemma find_congr {bytes : Bytes} (h : t.find path = .ok (ofPath path, .file bytes))
    (hfile : t'.fileAt (ofPath path) = t.fileAt (ofPath path))
    (hway : ∀ q ∈ trail path, t.get? q = some .directory → t'.get? q = some .directory) :
    t'.find path = .ok (ofPath path, .file bytes) := by
  obtain ⟨hplace, hget, hclosed⟩ := find_ok_iff.1 h
  obtain ⟨-, hnamed, hdirs⟩ := place_ok_iff.1 hplace
  rw [fileAt_eq_some_iff.2 hget, fileAt_eq_some_iff] at hfile
  exact find_ok_iff.2
    ⟨place_ok_iff.2 ⟨rfl, hnamed, fun q hq => hway q hq (hdirs q hq)⟩, hfile, hclosed⟩

lemma Readable.congr (h : t.Readable path)
    (hfile : t'.fileAt (ofPath path) = t.fileAt (ofPath path))
    (hway : ∀ q ∈ trail path, t.get? q = some .directory → t'.get? q = some .directory) :
    t'.Readable path := by
  intro bytes hbytes
  rw [hfile] at hbytes
  exact read_ok_iff.2 (find_congr (read_ok_iff.1 (h bytes hbytes)) hfile hway)

end FileTree

namespace StateStore

/-! ### The steps of opening a store -/

def makeAbove (path : String) : TreeM (Except FileFault Unit) :=
  let above := (Path.parent? path).getD ""
  if above.isEmpty then pure (.ok ()) else (system.makeDirectories above).run

def takeLock (path : String) (locked : Bool) : ExceptT FileFault TreeM Unit :=
  if locked then pure () else system.write (lockPath path) []

def readKnown (path : String) (known : Bool) : ExceptT FileFault TreeM Bytes :=
  if known then system.read path else pure []

def settle (path : String) (bytes : Bytes) : ExceptT FileFault TreeM StateStore :=
  match decode? bytes with
  | none => throw (.other fileReason)
  | some store =>
    if bytes.isEmpty then do
      system.write path store.encode
      return store
    else return store

lemma openFile_eq (path : String) : openFile system path = (do
    let known ← (system.exists path : TreeM Bool)
    if !known && needsDirectory path then throw .notFound
    else do
      let locked ← (system.exists (lockPath path) : TreeM Bool)
      takeLock path locked
      let bytes ← readKnown path known
      settle path bytes : ExceptT FileFault TreeM StateStore) := by
  unfold openFile
  congr 1
  funext known
  dsimp only
  split
  · rfl
  congr 1
  funext locked
  cases locked <;> cases known <;> rfl

lemma openAt_eq (path : String) : openAt system path = (do
    match ← makeAbove path with
    | .error fault => return .error (.noDirectory ((Path.parent? path).getD "") fault.message)
    | .ok () =>
      match ← (openFile system path).run with
      | .error fault => return .error (.notOpen path fault.message)
      | .ok store => return .ok store : TreeM (Except StoreFault StateStore)) := by
  unfold openAt makeAbove
  dsimp only
  split <;> rfl

lemma confined_makeAbove : Confined A (makeAbove path) := by
  unfold makeAbove
  dsimp only
  split
  · exact confined_pure _
  · exact confined_makeDirectories

lemma confined_takeLock {locked : Bool} (hA : A (ofPath (lockPath path))) :
    Confined A (takeLock path locked).run := by
  unfold takeLock
  split
  · exact confined_pure _
  · exact confined_write hA

lemma confined_readKnown {known : Bool} : Confined A (readKnown path known).run := by
  unfold readKnown
  split
  · exact confined_observe _
  · exact confined_pure _

lemma confined_settle {bytes : Bytes} (hA : A (ofPath path)) :
    Confined A (settle path bytes).run := by
  unfold settle
  split
  · exact confined_throw _
  · split
    · exact Confined.bindE (confined_write hA) fun _ => confined_pure _
    · exact confined_pure _

lemma confined_openFile (hA : ∀ q, IsStorePlace path q → A q) :
    Confined A (openFile system path).run := by
  rw [openFile_eq]
  refine Confined.bindE confined_exists.liftE fun known => ?_
  split
  · exact confined_throw _
  refine Confined.bindE confined_exists.liftE fun locked => ?_
  refine Confined.bindE (confined_takeLock (hA _ (.inr rfl))) fun _ => ?_
  exact Confined.bindE confined_readKnown fun bytes => confined_settle (hA _ (.inl rfl))

lemma confined_openAt (hA : ∀ q, IsStorePlace path q → A q) :
    Confined A (openAt system path) := by
  rw [openAt_eq]
  refine confined_makeAbove.bind fun made => ?_
  split
  · exact confined_pure _
  · refine (confined_openFile hA).bind fun opened => ?_
    split <;> exact confined_pure _

lemma settle_cases {bytes : Bytes} {r : Except FileFault StateStore}
    (h : (settle path bytes).run.run t = (r, t')) :
    (t' = t ∧ ∀ store, r = .ok store → decode? bytes = some store ∧ bytes ≠ []) ∨
    ∃ store, decode? bytes = some store ∧ r = .ok store ∧
      t.write path store.encode = .ok t' := by
  unfold settle at h
  split at h
  · cases h
    exact .inl ⟨rfl, nofun⟩
  next store hstore =>
  split at h
  · rw [ExceptT.run_bind] at h
    obtain ⟨wrote, s, hwrote, h⟩ := bind_eq_iff.1 h
    cases wrote with
    | error fault =>
      cases h
      exact .inl ⟨change_error hwrote, nofun⟩
    | ok u =>
      obtain ⟨hr, rfl⟩ := pure_eq_iff.1 h
      exact .inr ⟨store, hstore, hr.symm, change_ok_iff.1 hwrote⟩
  · next hne =>
    cases h
    refine .inl ⟨rfl, ?_⟩
    rintro store ⟨⟩
    exact ⟨hstore, by simpa using hne⟩

/-- What was stored is still stored, and it is what an open store holds. -/
structure Opens (path : String) (t : FileTree) (r : Option StateStore) (t' : FileTree) : Prop where
  stored : t'.stored path = t.stored path
  opened : ∀ store, r = some store →
    t.stored path = some store ∧ ∃ bytes, t'.find path = .ok (ofPath path, .file bytes)
  written : t'.fileAt (ofPath path) = t.fileAt (ofPath path) ∨
    ∃ bytes, t'.find path = .ok (ofPath path, .file bytes)

lemma stored_of_write {store : StateStore} (h : t.write path store.encode = .ok t') :
    t'.stored path = some store := by
  rw [FileTree.stored, fileAt_of_write h, Option.getD_some, decode?_encode]

lemma opens_settle_of_find {bytes : Bytes} {r : Except FileFault StateStore}
    (hfind : t.find path = .ok (ofPath path, .file bytes))
    (h : (settle path bytes).run.run t = (r, t')) : Opens path t r.toOption t' := by
  have hstored : t.stored path = decode? bytes := by
    rw [FileTree.stored, fileAt_of_read (read_ok_iff.2 hfind), Option.getD_some]
  rcases settle_cases h with ⟨rfl, hr⟩ | ⟨store, hstore, rfl, hwrite⟩
  · refine ⟨rfl, fun store hopen => ⟨?_, _, hfind⟩, .inl rfl⟩
    cases r with
    | error fault => cases hopen
    | ok store' =>
      obtain rfl : store' = store := Option.some.inj hopen
      exact hstored.trans (hr store' rfl).1
  · have hstay := hstored.trans hstore
    refine ⟨(stored_of_write hwrite).trans hstay.symm, fun store' hopen => ?_,
      .inr ⟨_, find_of_write hwrite⟩⟩
    obtain rfl : store = store' := Option.some.inj hopen
    exact ⟨hstay, _, find_of_write hwrite⟩

lemma opens_settle_of_none {r : Except FileFault StateStore}
    (hnone : endsOpen path = false → t.place path = .ok (ofPath path) →
      t.fileAt (ofPath path) = none)
    (h : (settle path []).run.run t = (r, t')) : Opens path t r.toOption t' := by
  rcases settle_cases h with ⟨rfl, hr⟩ | ⟨store, hstore, rfl, hwrite⟩
  · refine ⟨rfl, fun store hopen => ?_, .inl rfl⟩
    cases r with
    | error fault => cases hopen
    | ok store' => exact absurd rfl (hr store' rfl).2
  · obtain ⟨place, hplace, -, hclosed, -⟩ := write_ok_iff.1 hwrite
    rw [(place_ok_iff.1 hplace).1] at hplace
    have hstay : t.stored path = some store := by
      rw [FileTree.stored, hnone hclosed hplace]
      exact hstore
    refine ⟨(stored_of_write hwrite).trans hstay.symm, fun store' hopen => ?_,
      .inr ⟨_, find_of_write hwrite⟩⟩
    obtain rfl : store = store' := Option.some.inj hopen
    exact ⟨hstay, _, find_of_write hwrite⟩

lemma directory_of_takeLock {locked : Bool} {r : Except FileFault Unit}
    (h : (takeLock path locked).run.run t = (r, t')) {q : FilePlace}
    (hq : t'.get? q = some .directory) : t.get? q = some .directory := by
  unfold takeLock at h
  split at h
  · cases h
    exact hq
  · cases r with
    | error fault => exact change_error h ▸ hq
    | ok u => exact directory_of_write (change_ok_iff.1 h) hq

lemma fileAt_of_takeLock {locked : Bool} {r : Except FileFault Unit}
    (hlock : ofPath path ≠ ofPath (lockPath path)) (hfind : ¬ ∃ found, t.find path = .ok found)
    (h : (takeLock path locked).run.run t = (r, t')) (hclosed : endsOpen path = false)
    (hplace : t'.place path = .ok (ofPath path)) : t'.fileAt (ofPath path) = none := by
  obtain ⟨-, hnamed, hdirs⟩ := place_ok_iff.1 hplace
  have hplace' : t.place path = .ok (ofPath path) :=
    place_ok_iff.2 ⟨rfl, hnamed, fun q hq => directory_of_takeLock h (hdirs q hq)⟩
  have hwithin := (confined_takeLock (A := (· = ofPath (lockPath path))) rfl).within h
  rw [hwithin.files _ hlock, fileAt]
  split
  · next bytes hget => exact absurd ⟨_, find_ok_iff.2 ⟨hplace', hget, fun _ => hclosed⟩⟩ hfind
  · rfl

lemma opens_of_eq {r : Option StateStore} (h : t'.fileAt (ofPath path) = t.fileAt (ofPath path))
    (hr : r = none) : Opens path t r t' :=
  ⟨stored_congr h, fun _ hopen => absurd (hr.symm.trans hopen) nofun, .inl h⟩

lemma Opens.of_fileAt_eq {s : FileTree} {r : Option StateStore}
    (h : Opens path s r t') (heq : s.fileAt (ofPath path) = t.fileAt (ofPath path)) :
    Opens path t r t' := by
  have hstored := stored_congr heq
  exact ⟨h.stored.trans hstored, fun store hopen => hstored ▸ h.opened store hopen,
    h.written.imp_left (·.trans heq)⟩

lemma opens_openFile {r : Except FileFault StateStore}
    (hlock : ofPath path ≠ ofPath (lockPath path))
    (h : (openFile system path).run.run t = (r, t')) : Opens path t r.toOption t' := by
  rw [openFile_eq] at h
  obtain ⟨known, s, hknown, h⟩ := liftE_bind_iff.1 h
  obtain ⟨rfl, hfound⟩ := exists_eq_iff.1 hknown
  split at h
  · cases h
    exact opens_of_eq rfl rfl
  obtain ⟨locked, s, hlocked, h⟩ := liftE_bind_iff.1 h
  obtain ⟨rfl, -⟩ := exists_eq_iff.1 hlocked
  have htake : Confined (· = ofPath (lockPath path)) (takeLock path locked).run :=
    confined_takeLock rfl
  rcases bindE_eq h with ⟨u, s, htaken, h⟩ | ⟨e, htaken, rfl⟩
  · have hsame := (htake.within htaken).files _ hlock
    cases known with
    | false =>
      refine (opens_settle_of_none (fun hclosed hplace => ?_) h).of_fileAt_eq hsame
      exact fileAt_of_takeLock hlock (fun hany => by simpa using hfound.2 hany) htaken hclosed
        hplace
    | true =>
      rcases bindE_eq h with ⟨bytes, s', hread, h⟩ | ⟨e, hread, rfl⟩
      · obtain ⟨rfl, hbytes⟩ := read_eq_iff.1 hread
        exact (opens_settle_of_find (read_ok_iff.1 hbytes) h).of_fileAt_eq hsame
      · obtain ⟨rfl, -⟩ := read_eq_iff.1 hread
        exact opens_of_eq hsame rfl
  · exact opens_of_eq ((htake.within htaken).files _ hlock) rfl

theorem opens_openAt {r : Except StoreFault StateStore}
    (hlock : ofPath path ≠ ofPath (lockPath path))
    (h : (openAt system path).run t = (r, t')) : Opens path t r.toOption t' := by
  rw [openAt_eq] at h
  obtain ⟨made, s, hmade, h⟩ := bind_eq_iff.1 h
  have hsame := ((confined_makeAbove (A := fun _ => False)).within hmade).files (ofPath path) id
  split at h
  · cases h
    exact opens_of_eq hsame rfl
  obtain ⟨opened, s', hopened, h⟩ := bind_eq_iff.1 h
  have hopens := (opens_openFile hlock hopened).of_fileAt_eq hsame
  split at h
  · cases h
    exact hopens
  · cases h
    exact hopens

end StateStore

end ClassWeaver
