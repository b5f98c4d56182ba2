import ClassWeaver.Proofs.State.Removal

namespace ClassWeaver

open FileTree TreeM FilePlace

variable {t t' : FileTree} {path : String}

namespace Path

lemma exists_pieces_append (cs : List Char) {ds : List Char} (h : '/' ∉ ds) : ∃ before last,
    pieces cs = before ++ [last] ∧ pieces (cs ++ ds) = before ++ [last ++ ds] := by
  induction cs with
  | nil => exact ⟨[], [], rfl, pieces_of_not_mem h⟩
  | cons c cs ih =>
    obtain ⟨before, last, hcs, hds⟩ := ih
    rw [List.cons_append, pieces_cons, pieces_cons, hcs, hds]
    split
    · exact ⟨[] :: before, last, rfl, rfl⟩
    · cases before with
      | nil => exact ⟨[], c :: last, rfl, rfl⟩
      | cons p ps => exact ⟨(c :: p) :: ps, last, rfl, rfl⟩

end Path

namespace FilePlace

lemma enter_lock_ne (place : FilePlace) (name : List Char) :
    enter place (name ++ "-lock".toList) ≠ enter place name := by
  have hlong : (name ++ "-lock".toList).length = name.length + 5 := by simp
  have hproper : ∀ part : List Char, part.length < 5 → name ++ "-lock".toList ≠ part := by
    rintro part hpart rfl
    omega
  have hlock : enter place (name ++ "-lock".toList) =
      place ++ [String.ofList (name ++ "-lock".toList)] := by
    rw [enter, if_neg, if_neg (hproper _ (by decide))]
    rw [Path.isIdle, Bool.or_eq_true, decide_eq_true_eq, decide_eq_true_eq, not_or]
    exact ⟨hproper _ (by decide), hproper _ (by decide)⟩
  have hlength : (place ++ [String.ofList (name ++ "-lock".toList)]).length = place.length + 1 :=
    List.length_append
  rw [hlock]
  intro heq
  unfold enter at heq
  split at heq
  · rw [heq] at hlength
    omega
  split at heq
  · rw [heq, List.length_dropLast] at hlength
    omega
  · rw [List.append_cancel_left_eq, List.singleton_inj, String.ofList_inj] at heq
    rw [heq] at hlong
    omega

lemma ofPath_ne_ofPath_lockPath (path : String) : ofPath path ≠ ofPath (lockPath path) := by
  have hslash : '/' ∉ "-lock".toList := by decide
  obtain ⟨before, last, hpath, hlock⟩ := Path.exists_pieces_append path.toList hslash
  have hstart : start (lockPath path) = start path := by
    have habsolute : Path.isAbsolute (lockPath path) = Path.isAbsolute path := by
      unfold Path.isAbsolute lockPath
      rw [String.toList_append]
      cases path.toList with
      | nil => decide
      | cons c cs => rfl
    rw [start, start, habsolute]
  rw [ofPath, ofPath, hstart, lockPath, String.toList_append, hpath, hlock, List.foldl_append,
    List.foldl_append]
  exact (enter_lock_ne _ last).symm

end FilePlace

namespace FileTree

def SameDirectories (t t' : FileTree) : Prop :=
  ∀ q, t'.get? q = some .directory ↔ t.get? q = some .directory

namespace SameDirectories

lemma refl : SameDirectories t t := fun _ => Iff.rfl

lemma trans {t'' : FileTree} (h : SameDirectories t t') (h' : SameDirectories t' t'') :
    SameDirectories t t'' := fun q => (h' q).trans (h q)

lemma put {place : FilePlace} {bytes : Bytes} (h : t.get? place ≠ some .directory) :
    SameDirectories t (t.put place (.file bytes)) := by
  intro q
  have hne : place ≠ [] := fun hnil => h (hnil ▸ rfl)
  rw [get?_put hne]
  split
  · next hq => simp [hq, h]
  · exact Iff.rfl

lemma erase {place : FilePlace} {bytes : Bytes} (h : t.get? place = some (.file bytes)) :
    SameDirectories t (t.erase place) := by
  intro q
  rw [get?_erase (ne_nil_of_file h)]
  split
  · next hq => simp [hq, h]
  · exact Iff.rfl

lemma of_write {bytes : Bytes} (h : t.write path bytes = .ok t') : SameDirectories t t' := by
  obtain ⟨place, -, hnode, -, rfl⟩ := write_ok_iff.1 h
  exact put hnode

lemma find {place : FilePlace} (h : SameDirectories t t')
    (hfind : t.find path = .ok (place, .directory)) : t'.find path = .ok (place, .directory) := by
  obtain ⟨hplace, hnode, hclosed⟩ := find_ok_iff.1 hfind
  obtain ⟨rfl, hnamed, hdirs⟩ := place_ok_iff.1 hplace
  exact find_ok_iff.2 ⟨place_ok_iff.2 ⟨rfl, hnamed, fun q hq => (h q).2 (hdirs q hq)⟩,
    (h _).2 hnode, hclosed⟩

end SameDirectories

structure Takes (t : FileTree) (path : String) : Prop where
  leads : LeadsToFile path
  way : ∀ q ∈ trail path, t.get? q = some .directory
  free : t.get? (ofPath path) ≠ some .directory

lemma takes_of_find {place : FilePlace} {bytes : Bytes}
    (h : t.find path = .ok (place, .file bytes)) : t.Takes path := by
  obtain ⟨hplace, hnode, -⟩ := find_ok_iff.1 h
  obtain ⟨rfl, -, hdirs⟩ := place_ok_iff.1 hplace
  exact ⟨leadsToFile_of_find h, hdirs, by simp [hnode]⟩

namespace Takes

lemma place_eq (h : t.Takes path) : t.place path = .ok (ofPath path) :=
  place_ok_iff.2 ⟨rfl, h.leads.named, h.way⟩

lemma congr (h : t.Takes path) (hdirs : SameDirectories t t') : t'.Takes path :=
  ⟨h.leads, fun q hq => (hdirs q).2 (h.way q hq), mt (hdirs _).1 h.free⟩

lemma write (h : t.Takes path) (bytes : Bytes) :
    t.write path bytes = .ok (t.put (ofPath path) (.file bytes)) :=
  write_ok_iff.2 ⟨_, h.place_eq, h.free, h.leads.closed, rfl⟩

lemma find_iff (h : t.Takes path) : (∃ found, t.find path = .ok found) ↔
    ∃ bytes, t.find path = .ok (ofPath path, .file bytes) := by
  refine ⟨fun ⟨(place, node), hfind⟩ => ?_, fun ⟨_, hfind⟩ => ⟨_, hfind⟩⟩
  obtain ⟨hplace, hnode, -⟩ := find_ok_iff.1 hfind
  obtain rfl : ofPath path = place := Except.ok.inj (h.place_eq.symm.trans hplace)
  cases node with
  | file bytes => exact ⟨bytes, hfind⟩
  | directory => exact absurd hnode h.free

lemma readable (h : t.Takes path) : t.Readable path := fun _ hfile =>
  read_ok_iff.2 (find_ok_iff.2 ⟨h.place_eq, fileAt_eq_some_iff.1 hfile, fun _ => h.leads.closed⟩)

end Takes

lemma makeDirectories_of_find {place : FilePlace} (hne : path ≠ "")
    (h : t.find path = .ok (place, .directory)) (turns : Nat) :
    makeDirectories (turns + 1) path t = (.ok (), t) := by
  obtain ⟨hplace, hnode, -⟩ := find_ok_iff.1 h
  have hmake : t.makeDirectory path = .error .alreadyExists := by
    rw [makeDirectory, hplace]
    dsimp only
    rw [hnode]
  have hthere : t.isDirectory path = true := by rw [isDirectory, h]
  rw [makeDirectories, if_neg (by simpa using hne), hmake]
  dsimp only
  rw [if_pos hthere]

end FileTree

/-- All that a store needs is there: the directory that its file lies in, and places for its file and
for the one beside it. -/
structure HasRoom (path : String) (t : FileTree) : Prop where
  above : (Path.parent? path).getD "" ≠ "" → t.find ((Path.parent? path).getD "") =
    .ok (ofPath ((Path.parent? path).getD ""), .directory)
  named : StateStore.needsDirectory path = false
  store : t.Takes path
  lock : t.Takes (lockPath path)

namespace HasRoom

lemma congr (h : HasRoom path t) (hdirs : SameDirectories t t') : HasRoom path t' :=
  ⟨fun hne => hdirs.find (h.above hne), h.named, h.store.congr hdirs, h.lock.congr hdirs⟩

lemma run_makeAbove (h : HasRoom path t) :
    (StateStore.makeAbove path).run t = (.ok (), t) := by
  unfold StateStore.makeAbove
  dsimp only
  split
  · rfl
  · next hne =>
    rw [String.isEmpty_iff] at hne
    exact makeDirectories_of_find hne (h.above hne) ((Path.parent? path).getD "").length

lemma run_takeLock (h : HasRoom path t) (locked : Bool) : ∃ t',
    (StateStore.takeLock path locked).run.run t = (.ok (), t') ∧ SameDirectories t t' ∧
      t'.fileAt (ofPath path) = t.fileAt (ofPath path) := by
  unfold StateStore.takeLock
  cases locked with
  | true => exact ⟨t, rfl, .refl, rfl⟩
  | false =>
    have hne : ofPath (lockPath path) ≠ [] := fun hnil => h.lock.free (hnil ▸ rfl)
    refine ⟨_, change_ok_iff.2 (h.lock.write []), .put h.lock.free, fileAt_congr ?_⟩
    rw [get?_put hne, if_neg (ofPath_ne_ofPath_lockPath path)]

lemma run_settle (h : HasRoom path t) {bytes : Bytes} {store : StateStore}
    (hstore : StateStore.decode? bytes = some store) : ∃ t',
    (StateStore.settle path bytes).run.run t = (.ok store, t') ∧ SameDirectories t t' := by
  unfold StateStore.settle
  rw [hstore]
  dsimp only
  split
  · refine ⟨_, bindE_ok_iff.2 ⟨(), _, change_ok_iff.2 (h.store.write _), rfl⟩, .put h.store.free⟩
  · exact ⟨t, rfl, .refl⟩

lemma run_openAt (h : HasRoom path t) {store : StateStore} (hstored : t.stored path = some store) :
    ∃ t', (StateStore.openAt system path).run t = (.ok store, t') ∧ SameDirectories t t' := by
  obtain ⟨known, hknown, hfound⟩ : ∃ known, (system.exists path).run t = (known, t) ∧
      (known = true ↔ ∃ found, t.find path = .ok found) :=
    ⟨_, exists_run, (exists_eq_iff.1 exists_run).2⟩
  obtain ⟨locked, hlocked⟩ : ∃ locked, (system.exists (lockPath path)).run t = (locked, t) :=
    ⟨_, exists_run⟩
  obtain ⟨t₁, hlock, hdirs, hsame⟩ := h.run_takeLock locked
  have hroom := h.congr hdirs
  have hread : (StateStore.readKnown path known).run.run t₁ =
      (.ok ((t.fileAt (ofPath path)).getD []), t₁) := by
    unfold StateStore.readKnown
    cases known with
    | true =>
      obtain ⟨bytes, hbytes⟩ := h.store.find_iff.1 (hfound.1 rfl)
      have hfile := fileAt_of_read (read_ok_iff.2 hbytes)
      rw [hfile]
      exact read_eq_iff.2 ⟨rfl, hroom.store.readable bytes (hsame.trans hfile)⟩
    | false =>
      have hnone : t.fileAt (ofPath path) = none := by
        by_contra hsome
        obtain ⟨bytes, hbytes⟩ := Option.ne_none_iff_exists'.1 hsome
        exact Bool.false_ne_true (hfound.2 ⟨_, read_ok_iff.1 (h.store.readable bytes hbytes)⟩)
      rw [hnone]
      rfl
  obtain ⟨t₂, hsettle, hdirs'⟩ := hroom.run_settle hstored
  have hopen : (StateStore.openFile system path).run.run t = (.ok store, t₂) := by
    rw [StateStore.openFile_eq]
    refine liftE_bind_iff.2 ⟨known, t, hknown, ?_⟩
    rw [if_neg (by simp [h.named])]
    exact liftE_bind_iff.2 ⟨locked, t, hlocked,
      bindE_ok_iff.2 ⟨(), t₁, hlock, bindE_ok_iff.2 ⟨_, t₁, hread, hsettle⟩⟩⟩
  refine ⟨t₂, ?_, hdirs.trans hdirs'⟩
  rw [StateStore.openAt_eq]
  exact bind_eq_iff.2 ⟨_, t, h.run_makeAbove, bind_eq_iff.2 ⟨_, t₂, hopen, rfl⟩⟩

lemma run_openAt_of_find (h : HasRoom path t) {bytes : Bytes} {store : StateStore}
    (hfind : t.find path = .ok (ofPath path, .file bytes)) (hne : bytes ≠ [])
    (hlock : ∃ found, t.find (lockPath path) = .ok found)
    (hstore : StateStore.decode? bytes = some store) :
    (StateStore.openAt system path).run t = (.ok store, t) := by
  have hsettle : (StateStore.settle path bytes).run.run t = (.ok store, t) := by
    unfold StateStore.settle
    rw [hstore]
    dsimp only
    rw [if_neg (by simpa using hne)]
    rfl
  have hread := read_eq_iff.2 ⟨rfl, read_ok_iff.2 hfind⟩
  have hopen : (StateStore.openFile system path).run.run t = (.ok store, t) := by
    rw [StateStore.openFile_eq]
    refine liftE_bind_iff.2 ⟨true, t, exists_eq_iff.2 ⟨rfl, by simp [hfind]⟩, ?_⟩
    rw [if_neg (by simp)]
    refine liftE_bind_iff.2 ⟨true, t, exists_eq_iff.2 ⟨rfl, by simp [hlock]⟩, ?_⟩
    exact bindE_ok_iff.2 ⟨(), t, rfl, bindE_ok_iff.2 ⟨bytes, t, hread, hsettle⟩⟩
  rw [StateStore.openAt_eq]
  exact bind_eq_iff.2 ⟨_, t, h.run_makeAbove, bind_eq_iff.2 ⟨_, t, hopen, rfl⟩⟩

lemma run_commit (h : HasRoom path t) {bytes : Bytes}
    (hfind : t.find path = .ok (ofPath path, .file bytes)) (s : Snapshot) : ∃ t',
    (StateStore.commit system path s).run t = (true, t') ∧ SameDirectories t t' ∧
      t.write path (StateStore.ofSnapshot s).encode = .ok t' := by
  have hwrite := h.store.write (StateStore.ofSnapshot s).encode
  refine ⟨_, ?_, .put h.store.free, hwrite⟩
  unfold StateStore.commit
  refine bind_eq_iff.2 ⟨true, t, isFile_eq_iff.2 ⟨rfl, by simp [hfind]⟩, ?_⟩
  rw [if_pos rfl]
  exact bind_eq_iff.2 ⟨.ok (), _, change_ok_iff.2 hwrite, rfl⟩

end HasRoom

section Opened

variable {store : StateStore}

lemma find_of_makeAbove (h : (StateStore.makeAbove path).run t = (.ok (), t'))
    (hne : (Path.parent? path).getD "" ≠ "") : t'.find ((Path.parent? path).getD "") =
      .ok (ofPath ((Path.parent? path).getD ""), .directory) := by
  unfold StateStore.makeAbove at h
  dsimp only at h
  rw [if_neg (by simpa using hne)] at h
  exact find_of_makeDirectories hne h

lemma takeLock_cases {locked : Bool}
    (h : (StateStore.takeLock path locked).run.run t = (.ok (), t')) :
    (locked = true ∧ t' = t) ∨ t.write (lockPath path) [] = .ok t' := by
  unfold StateStore.takeLock at h
  split at h
  · next hlocked =>
    cases h
    exact .inl ⟨hlocked, rfl⟩
  · exact .inr (change_ok_iff.1 h)

lemma openFile_cases (hnone : t.fileAt (ofPath path) = none)
    (h : (StateStore.openFile system path).run.run t = (.ok store, t')) :
    StateStore.needsDirectory path = false ∧ ∃ t₁, t₁.write path store.encode = .ok t' ∧
      (t.write (lockPath path) [] = .ok t₁ ∨
        t₁ = t ∧ ∃ found, t.find (lockPath path) = .ok found) := by
  rw [StateStore.openFile_eq] at h
  obtain ⟨known, s, hknown, h⟩ := liftE_bind_iff.1 h
  obtain ⟨rfl, -⟩ := exists_eq_iff.1 hknown
  split at h
  · cases h
  next hnamed =>
  obtain ⟨locked, s, hlocked, h⟩ := liftE_bind_iff.1 h
  obtain ⟨rfl, hfound⟩ := exists_eq_iff.1 hlocked
  obtain ⟨u, t₁, htaken, h⟩ := bindE_ok_iff.1 h
  obtain ⟨bytes, s, hread, h⟩ := bindE_ok_iff.1 h
  have htake : Confined (· = ofPath (lockPath path)) (StateStore.takeLock path locked).run :=
    StateStore.confined_takeLock rfl
  have hsame := (htake.within htaken).files _ (ofPath_ne_ofPath_lockPath path)
  cases known with
  | true =>
    obtain ⟨rfl, hbytes⟩ := read_eq_iff.1 hread
    rw [fileAt_of_read hbytes, hnone] at hsame
    cases hsame
  | false =>
    cases hread
    rcases StateStore.settle_cases h with ⟨rfl, hstay⟩ | ⟨store', -, hstore, hwrite⟩
    · exact absurd rfl (hstay store rfl).2
    · cases hstore
      refine ⟨by simpa using hnamed, t₁, hwrite, ?_⟩
      rcases takeLock_cases htaken with ⟨rfl, rfl⟩ | hlock
      · exact .inr ⟨rfl, hfound.1 rfl⟩
      · exact .inl hlock

lemma hasRoom_of_openAt (hnone : t.fileAt (ofPath path) = none)
    (h : (StateStore.openAt system path).run t = (.ok store, t'))
    (hlock : t'.get? (ofPath (lockPath path)) ≠ some .directory) : HasRoom path t' := by
  rw [StateStore.openAt_eq] at h
  obtain ⟨made, s, hmade, h⟩ := bind_eq_iff.1 h
  have hsame := ((StateStore.confined_makeAbove (A := fun _ => False)).within hmade).files
    (ofPath path) id
  split at h
  · cases h
  obtain ⟨opened, s', hopened, h⟩ := bind_eq_iff.1 h
  split at h
  · cases h
  cases h
  obtain ⟨hnamed, t₁, hwrite, hlocked⟩ := openFile_cases (hsame.trans hnone) hopened
  have hdirs : SameDirectories s t₁ ∧ t₁.Takes (lockPath path) := by
    rcases hlocked with hlocked | ⟨rfl, ⟨place, node⟩, hfound⟩
    · exact ⟨.of_write hlocked, takes_of_find (find_of_write hlocked)⟩
    · cases node with
      | file bytes => exact ⟨.refl, takes_of_find hfound⟩
      | directory =>
        obtain ⟨hplace, hnode, -⟩ := find_ok_iff.1 hfound
        rw [(place_ok_iff.1 hplace).1] at hnode
        exact absurd ((SameDirectories.of_write hwrite _).2 hnode) hlock
  have hwritten : SameDirectories t₁ t' := .of_write hwrite
  exact ⟨fun hne => (hdirs.1.trans hwritten).find (find_of_makeAbove hmade hne), hnamed,
    takes_of_find (find_of_write hwrite), hdirs.2.congr hwritten⟩

end Opened

lemma run_removeIfThere (what : String) (h : t.Takes path) : ∃ t',
    (removeIfThere system what path).run.run t = (.ok (), t') ∧ SameDirectories t t' := by
  unfold removeIfThere
  by_cases hfound : ∃ found, t.find path = .ok found
  · obtain ⟨bytes, hbytes⟩ := h.find_iff.1 hfound
    refine ⟨_, liftE_bind_iff.2 ⟨true, t, exists_eq_iff.2 ⟨rfl, by simp [hfound]⟩, ?_⟩,
      .erase (find_ok_iff.1 hbytes).2.1⟩
    rw [if_pos rfl]
    exact liftE_bind_iff.2
      ⟨.ok (), _, change_ok_iff.2 (removeFile_ok_iff.2 ⟨_, bytes, hbytes, rfl⟩), rfl⟩
  · exact ⟨t, liftE_bind_iff.2 ⟨false, t, exists_eq_iff.2 ⟨rfl, by simp [hfound]⟩, rfl⟩, .refl⟩

lemma HasRoom.run_cleanState (h : HasRoom path t) : ∃ t',
    (cleanState system path).run.run t = (.ok (), t') ∧ SameDirectories t t' := by
  obtain ⟨t₁, hstore, hdirs⟩ := run_removeIfThere "state" h.store
  obtain ⟨t₂, hlock, hdirs'⟩ := run_removeIfThere "state lock" (h.congr hdirs).lock
  exact ⟨t₂, bindE_ok_iff.2 ⟨(), t₁, hstore, hlock⟩, hdirs.trans hdirs'⟩

end ClassWeaver
