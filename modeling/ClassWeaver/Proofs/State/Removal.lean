import ClassWeaver.Proofs.State.OpenedStore

namespace ClassWeaver

open FileTree TreeM FilePlace

variable {A : FilePlace → Prop}

section Cleaning

variable {t t' : FileTree} {what path : String}

lemma confined_removeIfThere (hA : A (ofPath path)) :
    Confined A (removeIfThere system what path).run := by
  unfold removeIfThere
  refine Confined.bindE confined_exists.liftE fun b => ?_
  split
  · refine Confined.bindE (confined_removeFile hA).liftE fun removed => ?_
    split
    · exact confined_throw _
    · exact confined_pure _
  · exact confined_pure _

lemma confined_cleanState (hA : ∀ q, IsStorePlace path q → A q) :
    Confined A (cleanState system path).run :=
  Confined.bindE (confined_removeIfThere (hA _ (.inl rfl))) fun _ =>
    confined_removeIfThere (hA _ (.inr rfl))

lemma removeIfThere_cases {r : Except CleaningFault Unit}
    (h : (removeIfThere system what path).run.run t = (r, t')) :
    (t' = t ∧ ∀ bytes, t.read path ≠ .ok bytes) ∨
      ∃ bytes, t.read path = .ok bytes ∧ t' = t.erase (ofPath path) := by
  unfold removeIfThere at h
  obtain ⟨found, t₁, hexists, h⟩ := liftE_bind_iff.1 h
  obtain ⟨rfl, hfound⟩ := exists_eq_iff.1 hexists
  split at h
  · obtain ⟨removed, t₁, hremove, h⟩ := liftE_bind_iff.1 h
    cases removed with
    | error fault =>
      cases h
      obtain rfl := change_error hremove
      refine .inl ⟨rfl, fun bytes hread => ?_⟩
      have hok : (system.removeFile path).run.run t' = (.ok (), t'.erase (ofPath path)) :=
        change_ok_iff.2 (removeFile_ok_iff.2 ⟨_, bytes, read_ok_iff.1 hread, rfl⟩)
      cases (Prod.mk.inj (hremove.symm.trans hok)).1
    | ok u =>
      cases h
      obtain ⟨place, bytes, hfind, rfl⟩ := removeFile_ok_iff.1 (change_ok_iff.1 hremove)
      obtain rfl := (place_ok_iff.1 (find_ok_iff.1 hfind).1).1
      exact .inr ⟨bytes, read_ok_iff.2 hfind, rfl⟩
  · next hnot =>
    cases h
    refine .inl ⟨rfl, fun bytes hread => hnot (hfound.2 ⟨_, read_ok_iff.1 hread⟩)⟩

lemma shrinks_of_removeIfThere {r : Except CleaningFault Unit}
    (h : (removeIfThere system what path).run.run t = (r, t')) : Shrinks t t' := by
  rcases removeIfThere_cases h with ⟨rfl, -⟩ | ⟨bytes, hread, rfl⟩
  · exact .refl
  · exact shrinks_erase (find_ok_iff.1 (read_ok_iff.1 hread)).2.1

lemma read_of_removeIfThere {r : Except CleaningFault Unit}
    (h : (removeIfThere system what path).run.run t = (r, t')) (bytes : Bytes) :
    t'.read path ≠ .ok bytes := by
  rcases removeIfThere_cases h with ⟨rfl, hnone⟩ | ⟨bytes', hread, rfl⟩
  · exact hnone bytes
  · intro hagain
    have hgone := fileAt_erase (find_ok_iff.1 (read_ok_iff.1 hread)).2.1
    rw [fileAt_of_read hagain] at hgone
    cases hgone

lemma read_of_cleanState {r : Except CleaningFault Unit}
    (h : (cleanState system path).run.run t = (r, t')) (bytes : Bytes) :
    t'.read path ≠ .ok bytes := by
  unfold cleanState at h
  rcases bindE_eq h with ⟨_, s, hfile, hlock⟩ | ⟨e, hfile, rfl⟩
  · exact fun hread => read_of_removeIfThere hfile bytes
      ((shrinks_of_removeIfThere hlock).read hread)
  · exact read_of_removeIfThere hfile bytes

lemma fileAt_of_cleanState {r : Except CleaningFault Unit} (hread : t.Readable path)
    (h : (cleanState system path).run.run t = (r, t')) : t'.fileAt (ofPath path) = none := by
  have hfirst : ∀ {r : Except CleaningFault Unit} {s : FileTree},
      (removeIfThere system "state" path).run.run t = (r, s) → s.fileAt (ofPath path) = none := by
    intro r s h
    rcases removeIfThere_cases h with ⟨rfl, hnone⟩ | ⟨bytes, hbytes, rfl⟩
    · by_contra hsome
      obtain ⟨bytes, hbytes⟩ := Option.ne_none_iff_exists'.1 hsome
      exact hnone bytes (hread bytes hbytes)
    · exact fileAt_erase (find_ok_iff.1 (read_ok_iff.1 hbytes)).2.1
  unfold cleanState at h
  rcases bindE_eq h with ⟨_, s, hfile, hlock⟩ | ⟨e, hfile, rfl⟩
  · exact (shrinks_of_removeIfThere hlock).fileAt_eq_none (hfirst hfile)
  · exact hfirst hfile

lemma commitState_cases {s : Snapshot} {wrote : Bool} {bytes : Bytes}
    (hfind : t.find path = .ok (ofPath path, .file bytes))
    (h : (StateStore.commit system path s).run t = (wrote, t')) :
    (wrote = false ∧ t' = t) ∨ wrote = true ∧
      t.write path (StateStore.ofSnapshot s).encode = .ok t' := by
  unfold StateStore.commit at h
  obtain ⟨there, t₁, hthere, h⟩ := bind_eq_iff.1 h
  obtain ⟨rfl, hfound⟩ := isFile_eq_iff.1 hthere
  rw [if_pos (hfound.2 ⟨_, _, hfind⟩)] at h
  obtain ⟨answer, t₁, hanswer, h⟩ := bind_eq_iff.1 h
  cases answer with
  | error fault =>
    cases h
    exact .inl ⟨rfl, change_error hanswer⟩
  | ok u =>
    cases h
    exact .inr ⟨rfl, change_ok_iff.1 hanswer⟩

lemma confined_commitState {s : Snapshot} (hA : A (ofPath path)) :
    Confined A (StateStore.commit system path s) := by
  unfold StateStore.commit
  refine confined_isFile.bind fun b => ?_
  split
  · refine (confined_write hA).bind fun wrote => ?_
    split <;> exact confined_pure _
  · exact confined_pure _

end Cleaning

end ClassWeaver
