import ClassWeaver.Proofs.Files.Effects
import ClassWeaver.Proofs.Unit.Locations
import ClassWeaver.Unit.Scan

namespace ClassWeaver

open FileTree TreeM

namespace Path

lemma noStepUp_intercalate {names : List String}
    (h : ∀ name ∈ names, ['.', '.'] ∉ pieces name.toList) :
    ['.', '.'] ∉ pieces ("/".intercalate names).toList := by
  induction names with
  | nil => decide
  | cons name names ih =>
    rw [List.forall_mem_cons] at h
    cases names with
    | nil => simpa using h.1
    | cons next names =>
      have hlist : ("/".intercalate (name :: next :: names)).toList =
          name.toList ++ '/' :: ("/".intercalate (next :: names)).toList := by
        simp [String.intercalate_cons_cons]
      rw [hlist, pieces_append, List.mem_append, not_or]
      exact ⟨h.1, ih h.2⟩

end Path

namespace FileTree

variable {t t' : FileTree} {A : FilePlace → Prop} {path : String}

lemma noStepUp_of_filesBelow (ht : t.WellFormed) {paths : List String}
    (h : t.filesBelow path = .ok paths) :
    ∀ relative ∈ paths, ['.', '.'] ∉ Path.pieces relative.toList := by
  unfold filesBelow at h
  split at h
  · cases h
  · next place node _ =>
    cases h
    intro relative hrelative
    obtain ⟨⟨names, bytes⟩, hmem, rfl⟩ := List.mem_map.1 hrelative
    obtain ⟨⟨q, found⟩, hq, hsome⟩ := List.mem_filterMap.1 hmem
    refine Path.noStepUp_intercalate fun name hname => ht.names _ hq name ?_
    cases found with
    | directory => cases hsome
    | file bs =>
      dsimp only at hsome
      split at hsome
      · cases hsome
        exact (List.drop_sublist _ _).mem hname
      · cases hsome

lemma filesBelow_run : (system.filesBelow path).run.run t = (t.filesBelow path, t) := rfl

lemma confined_filesBelow : Confined A (system.filesBelow path).run := confined_observe _

end FileTree

namespace Input

variable {t t' : FileTree} {A : FilePlace → Prop}

lemma confined_units (i : Input) : Confined A (i.units system) := by
  unfold units
  split
  · refine confined_isFile.bind fun b => ?_
    split <;> exact confined_pure _
  · refine confined_isDirectory.bind fun b => ?_
    split
    · refine confined_filesBelow.bind fun found => ?_
      split <;> exact confined_pure _
    · exact confined_pure _

lemma confined_allUnits (inputs : List Input) : Confined A (allUnits system inputs) := by
  induction inputs with
  | nil => exact confined_pure _
  | cons i rest ih =>
    rw [allUnits]
    refine (confined_units i).bind fun found => ?_
    split
    · exact confined_pure _
    · refine ih.bind fun more => ?_
      split <;> exact confined_pure _

lemma staysInside_of_units {i : Input} {units : List InputUnit} (ht : t.WellFormed)
    (h : (i.units system).run t = (.ok units, t')) : ∀ u ∈ units, u.StaysInside := by
  unfold Input.units at h
  split at h
  · obtain ⟨b, s, -, h⟩ := bind_eq_iff.1 h
    split at h
    · cases (pure_eq_iff.1 h).1
      intro u hu relative hkind
      rw [List.mem_singleton.1 hu] at hkind
      cases hkind
    · cases (pure_eq_iff.1 h).1
  · obtain ⟨b, s, hdir, h⟩ := bind_eq_iff.1 h
    rw [isDirectory_run] at hdir
    cases hdir
    split at h
    · obtain ⟨found, s, hbelow, h⟩ := bind_eq_iff.1 h
      rw [filesBelow_run] at hbelow
      obtain ⟨hpaths, rfl⟩ := Prod.mk.injEq _ _ _ _ ▸ hbelow
      split at h
      · cases (pure_eq_iff.1 h).1
        simp
      · cases (pure_eq_iff.1 h).1
        intro u hu relative hkind
        obtain ⟨name, hname, rfl⟩ := List.mem_map.1 hu
        cases hkind
        exact noStepUp_of_filesBelow ht hpaths _ (List.mem_mergeSort.1 hname)
    · cases (pure_eq_iff.1 h).1

lemma staysInside_of_allUnits {inputs : List Input} {units : List InputUnit} (ht : t.WellFormed)
    (h : (allUnits system inputs).run t = (.ok units, t')) : ∀ u ∈ units, u.StaysInside := by
  induction inputs generalizing t t' units with
  | nil =>
    cases (pure_eq_iff.1 h).1
    simp
  | cons i rest ih =>
    rw [allUnits] at h
    obtain ⟨found, s, hi, h⟩ := bind_eq_iff.1 h
    split at h
    · cases (pure_eq_iff.1 h).1
    next us =>
    obtain ⟨more, s', hrest, h⟩ := bind_eq_iff.1 h
    split at h
    · cases (pure_eq_iff.1 h).1
    next vs =>
    cases (pure_eq_iff.1 h).1
    have hs := ((confined_units (A := fun _ => True) i).within hi).wellFormed ht
    intro u hu
    rcases List.mem_append.1 hu with hu | hu
    · exact staysInside_of_units ht hi u hu
    · exact ih hs hrest u hu

end Input

namespace InputUnit

lemma mem_of_mem_go {units : List InputUnit} {seen : List String} {u : InputUnit}
    (h : u ∈ distinct.go units seen) : u ∈ units ∧ u.key ∉ seen := by
  induction units generalizing seen with
  | nil => cases h
  | cons v rest ih =>
    rw [distinct.go] at h
    split at h
    · exact ⟨List.mem_cons_of_mem _ (ih h).1, (ih h).2⟩
    · next hseen =>
      rcases List.mem_cons.1 h with rfl | h
      · exact ⟨List.mem_cons_self, by simpa using hseen⟩
      · obtain ⟨hmem, hkey⟩ := ih h
        exact ⟨List.mem_cons_of_mem _ hmem, fun hk => hkey (List.mem_cons_of_mem _ hk)⟩

lemma mem_of_mem_distinct {units : List InputUnit} {u : InputUnit} (h : u ∈ distinct units) :
    u ∈ units := (mem_of_mem_go h).1

lemma pairwise_distinct (units : List InputUnit) :
    (distinct units).Pairwise fun u v => u.key ≠ v.key := by
  have hgo : ∀ (units : List InputUnit) (seen : List String),
      (distinct.go units seen).Pairwise fun u v => u.key ≠ v.key := by
    intro units
    induction units with
    | nil => exact fun _ => .nil
    | cons u rest ih =>
      intro seen
      rw [distinct.go]
      split
      · exact ih seen
      · refine .cons (fun v hv hkey => ?_) (ih _)
        exact (mem_of_mem_go hv).2 (hkey ▸ List.mem_cons_self)
  exact hgo units []

lemma exists_mem_distinct {units : List InputUnit} {u : InputUnit} (h : u ∈ units) :
    ∃ v ∈ distinct units, v.key = u.key := by
  have hgo : ∀ (units : List InputUnit) (seen : List String), u ∈ units → u.key ∉ seen →
      ∃ v ∈ distinct.go units seen, v.key = u.key := by
    intro units
    induction units with
    | nil => exact fun _ h _ => absurd h List.not_mem_nil
    | cons v rest ih =>
      intro seen hmem hkey
      rw [distinct.go]
      split
      · next hseen =>
        rcases List.mem_cons.1 hmem with rfl | hmem
        · exact absurd (by simpa using hseen) hkey
        · exact ih seen hmem hkey
      · by_cases hvu : v.key = u.key
        · exact ⟨v, List.mem_cons_self, hvu⟩
        · rcases List.mem_cons.1 hmem with rfl | hmem
          · exact absurd rfl hvu
          · obtain ⟨w, hw, hwu⟩ := ih (v.key :: seen) hmem (by
              rw [List.mem_cons, not_or]
              exact ⟨Ne.symm hvu, hkey⟩)
            exact ⟨w, List.mem_cons_of_mem _ hw, hwu⟩
  exact hgo units [] h List.not_mem_nil

end InputUnit

end ClassWeaver
