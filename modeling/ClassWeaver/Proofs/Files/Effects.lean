import ClassWeaver.Proofs.Files.Trees

namespace ClassWeaver

abbrev TreeM := StateM FileTree

open FileTree (Within)

namespace TreeM

variable {α β ε ε' : Type} {t t' : FileTree} {A B : FilePlace → Prop}

def Confined (A : FilePlace → Prop) (x : TreeM α) : Prop := ∀ t, Within A t (x.run t).2

section Confined

lemma Confined.mono {x : TreeM α} (h : Confined A x) (hAB : ∀ q, A q → B q) : Confined B x :=
  fun t => (h t).mono hAB

lemma Confined.within {x : TreeM α} (h : Confined A x) {a : α} (hx : x.run t = (a, t')) :
    Within A t t' := by
  have := h t
  rwa [hx] at this

lemma confined_of_run_eq {x : TreeM α} (h : ∀ t, (x.run t).2 = t) : Confined A x := by
  intro t
  rw [h]
  exact .refl

lemma confined_pure (a : α) : Confined A (pure a : TreeM α) := fun _ => .refl

lemma Confined.bind {x : TreeM α} {f : α → TreeM β} (hx : Confined A x)
    (hf : ∀ a, Confined A (f a)) : Confined A (x >>= f) :=
  fun t => (hx t).trans (hf _ _)

lemma Confined.liftE {x : TreeM α} (hx : Confined A x) :
    Confined A (liftM x : ExceptT ε TreeM α).run := fun t => hx t

lemma Confined.liftEE {x : TreeM α} (hx : Confined A x) :
    Confined A (liftM x : ExceptT ε (ExceptT ε' TreeM) α).run.run := fun t => hx t

lemma confined_throw (e : ε) : Confined A (throw e : ExceptT ε TreeM α).run := fun _ => .refl

lemma Confined.bindE {x : ExceptT ε TreeM α} {f : α → ExceptT ε TreeM β} (hx : Confined A x.run)
    (hf : ∀ a, Confined A (f a).run) : Confined A (x >>= f).run := by
  rw [ExceptT.run_bind]
  refine Confined.bind (A := A) hx fun a => ?_
  cases a with
  | ok a => exact hf a
  | error e => exact confined_pure _

lemma Confined.bindEE {x : ExceptT ε (ExceptT ε' TreeM) α}
    {f : α → ExceptT ε (ExceptT ε' TreeM) β} (hx : Confined A x.run.run)
    (hf : ∀ a, Confined A (f a).run.run) : Confined A (x >>= f).run.run := by
  rw [ExceptT.run_bind]
  refine Confined.bindE (A := A) hx fun a => ?_
  cases a with
  | ok a => exact hf a
  | error e => exact confined_pure _

end Confined

section Success

lemma bind_eq_iff {x : TreeM α} {f : α → TreeM β} {b : β} : (x >>= f).run t = (b, t') ↔
    ∃ a s, x.run t = (a, s) ∧ (f a).run s = (b, t') := by
  constructor
  · exact fun h => ⟨(x.run t).1, (x.run t).2, rfl, h⟩
  · rintro ⟨a, s, h, h'⟩
    rw [StateT.run_bind, h]
    exact h'

lemma pure_eq_iff {a b : α} : (pure a : TreeM α).run t = (b, t') ↔ a = b ∧ t = t' := by
  rw [StateT.run_pure]
  exact Prod.mk.injEq _ _ _ _ ▸ Iff.rfl

lemma run_eq_of_fst {action : TreeM α} {a : α} (h : (action.run t).1 = a) :
    action.run t = (a, (action.run t).2) := Prod.ext h rfl

lemma bindE_eq {x : ExceptT ε TreeM α} {f : α → ExceptT ε TreeM β} {r : Except ε β}
    (h : (x >>= f).run.run t = (r, t')) :
    (∃ a s, x.run.run t = (.ok a, s) ∧ (f a).run.run s = (r, t')) ∨
      ∃ e, x.run.run t = (.error e, t') ∧ r = .error e := by
  rw [ExceptT.run_bind] at h
  obtain ⟨q, s, hx, hf⟩ := bind_eq_iff.1 h
  cases q with
  | ok a => exact .inl ⟨a, s, hx, hf⟩
  | error e =>
    obtain ⟨rfl, rfl⟩ := pure_eq_iff.1 hf
    exact .inr ⟨e, hx, rfl⟩

lemma liftE_bind_iff {x : TreeM α} {f : α → ExceptT ε TreeM β} {r : Except ε β} :
    ((liftM x : ExceptT ε TreeM α) >>= f).run.run t = (r, t') ↔
      ∃ a s, x.run t = (a, s) ∧ (f a).run.run s = (r, t') := by
  constructor
  · exact fun h => ⟨(x.run t).1, (x.run t).2, rfl, h⟩
  · rintro ⟨a, s, hx, hf⟩
    rw [← hf]
    have : ((liftM x : ExceptT ε TreeM α) >>= f).run.run t =
        (f (x.run t).1).run.run (x.run t).2 := rfl
    rw [this, hx]

lemma bindE_ok_iff {x : ExceptT ε TreeM α} {f : α → ExceptT ε TreeM β} {b : β} :
    (x >>= f).run.run t = (.ok b, t') ↔
      ∃ a s, x.run.run t = (.ok a, s) ∧ (f a).run.run s = (.ok b, t') := by
  rw [ExceptT.run_bind, bind_eq_iff]
  constructor
  · rintro ⟨r, s, hx, hf⟩
    cases r with
    | ok a => exact ⟨a, s, hx, hf⟩
    | error e => cases (pure_eq_iff.1 hf).1
  · rintro ⟨a, s, hx, hf⟩
    exact ⟨.ok a, s, hx, hf⟩

lemma bindEE_eq {x : ExceptT ε (ExceptT ε' TreeM) α} {f : α → ExceptT ε (ExceptT ε' TreeM) β}
    {r : Except ε' (Except ε β)} (h : (x >>= f).run.run.run t = (r, t')) :
    (∃ a s, x.run.run.run t = (.ok (.ok a), s) ∧ (f a).run.run.run s = (r, t')) ∨
      (∃ e, x.run.run.run t = (.ok (.error e), t') ∧ r = .ok (.error e)) ∨
        ∃ e, x.run.run.run t = (.error e, t') ∧ r = .error e := by
  rw [ExceptT.run_bind] at h
  rcases bindE_eq h with ⟨q, s, hx, hf⟩ | ⟨e, hx, rfl⟩
  · cases q with
    | ok a => exact .inl ⟨a, s, hx, hf⟩
    | error e =>
      obtain ⟨rfl, rfl⟩ := pure_eq_iff.1 hf
      exact .inr (.inl ⟨e, hx, rfl⟩)
  · exact .inr (.inr ⟨e, hx, rfl⟩)

lemma liftEE_bind_iff {x : TreeM α} {f : α → ExceptT ε (ExceptT ε' TreeM) β}
    {r : Except ε' (Except ε β)} :
    ((liftM x : ExceptT ε (ExceptT ε' TreeM) α) >>= f).run.run.run t = (r, t') ↔
      ∃ a s, x.run t = (a, s) ∧ (f a).run.run.run s = (r, t') := by
  constructor
  · exact fun h => ⟨(x.run t).1, (x.run t).2, rfl, h⟩
  · rintro ⟨a, s, hx, hf⟩
    rw [← hf]
    have : ((liftM x : ExceptT ε (ExceptT ε' TreeM) α) >>= f).run.run.run t =
        (f (x.run t).1).run.run.run (x.run t).2 := rfl
    rw [this, hx]

lemma bindEE_ok_iff {x : ExceptT ε (ExceptT ε' TreeM) α}
    {f : α → ExceptT ε (ExceptT ε' TreeM) β} {b : β} :
    (x >>= f).run.run.run t = (.ok (.ok b), t') ↔
      ∃ a s, x.run.run.run t = (.ok (.ok a), s) ∧ (f a).run.run.run s = (.ok (.ok b), t') := by
  rw [ExceptT.run_bind, bindE_ok_iff]
  constructor
  · rintro ⟨r, s, hx, hf⟩
    cases r with
    | ok a => exact ⟨a, s, hx, hf⟩
    | error e => cases (pure_eq_iff.1 hf).1
  · rintro ⟨a, s, hx, hf⟩
    exact ⟨.ok a, s, hx, hf⟩

end Success

end TreeM

namespace FileTree

open TreeM

variable {t t' : FileTree} {A : FilePlace → Prop} {path : String}

section Observations

variable {α : Type}

lemma run_observe (f : FileTree → Except FileFault α) :
    (observe f).run.run t = (f t, t) := rfl

lemma observe_eq_iff {f : FileTree → Except FileFault α} {r : Except FileFault α} :
    (observe f).run.run t = (r, t') ↔ t = t' ∧ f t = r := by
  rw [run_observe, Prod.mk.injEq, and_comm]

lemma read_eq_iff {r : Except FileFault Bytes} :
    (system.read path).run.run t = (r, t') ↔ t = t' ∧ t.read path = r := observe_eq_iff

lemma confined_observe (f : FileTree → Except FileFault α) : Confined A (observe f).run :=
  confined_of_run_eq fun _ => rfl

lemma info?_run : (system.info? path).run t = ((t.info path).toOption, t) := by
  have h : (system.info path).run.run t = (t.info path, t) := rfl
  unfold FileSystem.info?
  rw [StateT.run_bind, h]
  cases t.info path <;> rfl

lemma exists_run : (system.exists path).run t = ((t.info path).toOption.isSome, t) := by
  rw [FileSystem.exists, StateT.run_bind, info?_run]
  rfl

lemma isFile_run : (system.isFile path).run t =
    (((t.info path).toOption.map fun info => !info.isDirectory).getD false, t) := by
  rw [FileSystem.isFile, StateT.run_bind, info?_run]
  rfl

lemma isDirectory_run : (system.isDirectory path).run t =
    (((t.info path).toOption.map FileInfo.isDirectory).getD false, t) := by
  rw [FileSystem.isDirectory, StateT.run_bind, info?_run]
  rfl

lemma modified_run : (system.modified path).run t = (0, t) := by
  rw [FileSystem.modified, StateT.run_bind, info?_run, info]
  cases hfind : t.find path with
  | error fault => rfl
  | ok found =>
    obtain ⟨place, node⟩ := found
    cases node <;> rfl

lemma exists_eq_iff {b : Bool} : (system.exists path).run t = (b, t') ↔
    t = t' ∧ (b = true ↔ ∃ found, t.find path = .ok found) := by
  rw [exists_run, Prod.mk.injEq, and_comm, info]
  cases hfind : t.find path with
  | error fault => simp [Except.map, Except.toOption, eq_comm]
  | ok found => simp [Except.map, Except.toOption, eq_comm]

lemma isFile_eq_iff {b : Bool} : (system.isFile path).run t = (b, t') ↔
    t = t' ∧ (b = true ↔ ∃ place bytes, t.find path = .ok (place, .file bytes)) := by
  rw [isFile_run, Prod.mk.injEq, and_comm, info]
  cases hfind : t.find path with
  | error fault => simp [Except.map, Except.toOption, eq_comm]
  | ok found =>
    obtain ⟨place, node⟩ := found
    cases node <;> simp [Except.map, Except.toOption, eq_comm]

lemma confined_exists : Confined A (system.exists path) :=
  confined_of_run_eq fun _ => by rw [exists_run]

lemma confined_isFile : Confined A (system.isFile path) :=
  confined_of_run_eq fun _ => by rw [isFile_run]

lemma confined_isDirectory : Confined A (system.isDirectory path) :=
  confined_of_run_eq fun _ => by rw [isDirectory_run]

lemma confined_modified : Confined A (system.modified path) :=
  confined_of_run_eq fun _ => by rw [modified_run]

end Observations

section Changes

lemma run_change (f : FileTree → Except FileFault FileTree) :
    (change f).run.run t = match f t with
      | .ok t' => (.ok (), t')
      | .error fault => (.error fault, t) := rfl

lemma change_ok_iff {f : FileTree → Except FileFault FileTree} {u : Unit} :
    (change f).run.run t = (.ok u, t') ↔ f t = .ok t' := by
  rw [run_change]
  cases f t with
  | error fault => exact ⟨nofun, nofun⟩
  | ok s =>
    rw [Except.ok.injEq]
    exact ⟨fun h => congrArg Prod.snd h, fun h => h ▸ rfl⟩

lemma change_error {f : FileTree → Except FileFault FileTree} {fault : FileFault}
    (h : (change f).run.run t = (.error fault, t')) : t' = t := by
  rw [run_change] at h
  cases hf : f t with
  | error fault' =>
    rw [hf] at h
    exact (congrArg Prod.snd h).symm
  | ok s =>
    rw [hf] at h
    cases congrArg Prod.fst h

lemma confined_change {f : FileTree → Except FileFault FileTree}
    (h : ∀ t t', f t = .ok t' → Within A t t') : Confined A (change f).run := by
  intro t
  rw [run_change]
  cases hf : f t with
  | error fault => exact .refl
  | ok s => exact h t s hf

lemma within_write {bytes : Bytes} (hA : A (FilePlace.ofPath path))
    (h : t.write path bytes = .ok t') : Within A t t' := by
  obtain ⟨place, hplace, hnode, -, rfl⟩ := write_ok_iff.1 h
  exact within_put_file hplace hnode ((place_ok_iff.1 hplace).1 ▸ hA)

lemma within_removeFile (hA : A (FilePlace.ofPath path)) (h : t.removeFile path = .ok t') :
    Within A t t' := by
  obtain ⟨place, bytes, hfind, rfl⟩ := removeFile_ok_iff.1 h
  obtain ⟨hplace, hfile, -⟩ := find_ok_iff.1 hfind
  exact within_erase hfile ((place_ok_iff.1 hplace).1 ▸ hA)

lemma within_removeDirectory (hA : ∀ q, FilePlace.ofPath path <+: q → A q)
    (h : t.removeDirectory path = .ok t') : Within A t t' := by
  obtain ⟨place, hfind, rfl⟩ := removeDirectory_ok_iff.1 h
  obtain ⟨hplace, -⟩ := find_ok_iff.1 hfind
  exact within_eraseBelow ((place_ok_iff.1 hplace).1 ▸ hA)

lemma within_move {source target : String} (hs : A (FilePlace.ofPath source))
    (ht : A (FilePlace.ofPath target)) (h : t.move source target = .ok t') : Within A t t' := by
  obtain ⟨place, bytes, hfind, hwrite⟩ := move_ok_iff.1 h
  obtain ⟨hplace, hfile, -⟩ := find_ok_iff.1 hfind
  exact (within_erase hfile ((place_ok_iff.1 hplace).1 ▸ hs)).trans (within_write ht hwrite)

lemma within_makeDirectory (h : t.makeDirectory path = .ok t') : Within A t t' := by
  obtain ⟨place, hplace, hnone, rfl⟩ := makeDirectory_ok_iff.1 h
  exact within_put_directory hplace hnone

lemma within_makeDirectories (turns : Nat) (path : String) (t : FileTree) :
    Within A t (makeDirectories turns path t).2 := by
  induction turns generalizing path t with
  | zero => exact .refl
  | succ turns ih =>
    rw [makeDirectories]
    split
    · exact .refl
    split
    · next hmake => exact within_makeDirectory hmake
    · split
      · exact .refl
      · next above _ =>
        have habove := ih above t
        split
        · next hrec => rwa [hrec] at habove
        · next hrec =>
          rw [hrec] at habove
          split
          · next hmake => exact habove.trans (within_makeDirectory hmake)
          · exact habove
    · exact .refl

lemma confined_makeDirectories : Confined A (system.makeDirectories path).run :=
  fun t => within_makeDirectories _ path t

lemma confined_write {bytes : Bytes} (hA : A (FilePlace.ofPath path)) :
    Confined A (system.write path bytes).run :=
  confined_change fun _ _ => within_write hA

lemma confined_removeFile (hA : A (FilePlace.ofPath path)) :
    Confined A (system.removeFile path).run :=
  confined_change fun _ _ => within_removeFile hA

lemma confined_removeDirectory (hA : ∀ q, FilePlace.ofPath path <+: q → A q) :
    Confined A (system.removeDirectory path).run :=
  confined_change fun _ _ => within_removeDirectory hA

lemma confined_move {source target : String} (hs : A (FilePlace.ofPath source))
    (ht : A (FilePlace.ofPath target)) : Confined A (system.move source target).run :=
  confined_change fun _ _ => within_move hs ht

end Changes

end FileTree

end ClassWeaver
