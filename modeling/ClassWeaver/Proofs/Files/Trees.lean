import ClassWeaver.Proofs.Files.Places

namespace ClassWeaver

namespace FileTree

variable {t t' : FileTree}

def fileAt (t : FileTree) (place : FilePlace) : Option Bytes :=
  match t.get? place with
  | some (.file bytes) => some bytes
  | _ => none

structure WellFormed (t : FileTree) : Prop where
  parents : ∀ place node, t.get? place = some node → t.get? place.dropLast = some .directory
  names : ∀ node ∈ t.nodes, ∀ name ∈ node.1, ['.', '.'] ∉ Path.pieces name.toList

section Lookup

lemma lookup_filter {α β : Type} [BEq α] [LawfulBEq α] (p : α → Bool) (entries : List (α × β))
    (a : α) : (entries.filter fun e => p e.1).lookup a = if p a then entries.lookup a else none := by
  induction entries with
  | nil => simp
  | cons e entries ih =>
    obtain ⟨b, x⟩ := e
    rw [List.filter_cons, List.lookup_cons]
    by_cases hab : a = b
    · subst hab
      split
      · simp
      · next hp => rw [ih, if_neg hp]
    · rw [show (a == b) = false from beq_false_of_ne hab]
      split
      · rw [List.lookup_cons, show (a == b) = false from beq_false_of_ne hab]
        exact ih
      · exact ih

lemma get?_of_ne {place : FilePlace} (h : place ≠ []) : t.get? place = t.nodes.lookup place := by
  unfold get?
  split
  · exact absurd rfl h
  · rfl

lemma get?_put {place : FilePlace} (h : place ≠ []) (node : FileNode) (q : FilePlace) :
    (t.put place node).get? q = if q = place then some node else t.get? q := by
  by_cases hq : q = []
  · rw [hq, if_neg (Ne.symm h)]
    rfl
  rw [get?_of_ne hq, get?_of_ne hq, put, List.lookup_cons]
  by_cases hqp : q = place
  · simp [hqp]
  · rw [show (q == place) = false from beq_false_of_ne hqp, if_neg hqp]
    dsimp only
    rw [lookup_filter (· != place), if_pos (by simpa using hqp)]

lemma get?_erase {place : FilePlace} (h : place ≠ []) (q : FilePlace) :
    (t.erase place).get? q = if q = place then none else t.get? q := by
  by_cases hq : q = []
  · rw [hq, if_neg (Ne.symm h)]
    rfl
  rw [get?_of_ne hq, get?_of_ne hq, erase, lookup_filter (· != place)]
  by_cases hqp : q = place
  · simp [hqp]
  · simp [hqp]

lemma get?_eraseBelow {place q : FilePlace} (hq : q ≠ []) :
    (t.eraseBelow place).get? q = if place <+: q then none else t.get? q := by
  rw [get?_of_ne hq, get?_of_ne hq, eraseBelow, lookup_filter (fun at_ => !place.isPrefixOf at_)]
  by_cases hqp : place <+: q
  · simp [hqp, List.isPrefixOf_iff_prefix.2 hqp]
  · rw [if_neg hqp, if_pos]
    rw [Bool.not_eq_true', ← Bool.not_eq_true, List.isPrefixOf_iff_prefix]
    exact hqp

lemma fileAt_eq_some_iff {place : FilePlace} {bytes : Bytes} :
    t.fileAt place = some bytes ↔ t.get? place = some (.file bytes) := by
  unfold fileAt
  split
  · next h => simp [h]
  · next h => exact ⟨nofun, fun hget => absurd hget (h bytes)⟩

lemma fileAt_of_directory {place : FilePlace} (h : t.get? place = some .directory) :
    t.fileAt place = none := by
  rw [fileAt, h]

lemma fileAt_congr {place place' : FilePlace} (h : t'.get? place' = t.get? place) :
    t'.fileAt place' = t.fileAt place := by
  rw [fileAt, fileAt, h]

end Lookup

/-- A tree is changed in some places only: elsewhere every file has the same contents and every
directory stays, although new directories may come. -/
structure Within (changed : FilePlace → Prop) (t t' : FileTree) : Prop where
  files : ∀ q, ¬ changed q → t'.fileAt q = t.fileAt q
  directories : ∀ q, ¬ changed q → t.get? q = some .directory → t'.get? q = some .directory
  wellFormed : t.WellFormed → t'.WellFormed

namespace Within

variable {A B : FilePlace → Prop} {t'' : FileTree}

lemma refl : Within A t t := ⟨fun _ _ => rfl, fun _ _ h => h, id⟩

lemma trans (h : Within A t t') (h' : Within A t' t'') : Within A t t'' where
  files q hq := (h'.files q hq).trans (h.files q hq)
  directories q hq hdir := h'.directories q hq (h.directories q hq hdir)
  wellFormed ht := h'.wellFormed (h.wellFormed ht)

lemma mono (h : Within A t t') (hAB : ∀ q, A q → B q) : Within B t t' where
  files q hq := h.files q (mt (hAB q) hq)
  directories q hq := h.directories q (mt (hAB q) hq)
  wellFormed := h.wellFormed

end Within

structure Shrinks (t t' : FileTree) : Prop where
  get? : ∀ q node, t'.get? q = some node → t.get? q = some node

namespace Shrinks

lemma refl : Shrinks t t := ⟨fun _ _ h => h⟩

lemma trans {t'' : FileTree} (h : Shrinks t t') (h' : Shrinks t' t'') : Shrinks t t'' :=
  ⟨fun q node hq => h.get? q node (h'.get? q node hq)⟩

lemma fileAt_eq_none (h : Shrinks t t') {q : FilePlace} (hq : t.fileAt q = none) :
    t'.fileAt q = none := by
  by_contra hsome
  obtain ⟨bytes, hbytes⟩ := Option.ne_none_iff_exists'.1 hsome
  rw [fileAt_eq_some_iff.2 (h.get? _ _ (fileAt_eq_some_iff.1 hbytes))] at hq
  cases hq

end Shrinks

section Removals

variable {place : FilePlace} {bytes : Bytes}

lemma ne_nil_of_file (h : t.get? place = some (.file bytes)) : place ≠ [] := by
  rintro rfl
  cases h

lemma shrinks_erase (h : t.get? place = some (.file bytes)) : Shrinks t (t.erase place) := by
  refine ⟨fun q node hq => ?_⟩
  rw [get?_erase (ne_nil_of_file h)] at hq
  split at hq
  · cases hq
  · exact hq

lemma fileAt_erase (h : t.get? place = some (.file bytes)) : (t.erase place).fileAt place = none := by
  rw [fileAt, get?_erase (ne_nil_of_file h), if_pos rfl]

lemma shrinks_eraseBelow (place : FilePlace) : Shrinks t (t.eraseBelow place) := by
  refine ⟨fun q node hq => ?_⟩
  by_cases hne : q = []
  · rw [hne] at hq ⊢
    exact hq
  · rw [get?_eraseBelow hne] at hq
    split at hq
    · cases hq
    · exact hq

lemma fileAt_eraseBelow {q : FilePlace} (h : place <+: q) : (t.eraseBelow place).fileAt q = none := by
  by_cases hne : q = []
  · rw [hne]
    rfl
  · rw [fileAt, get?_eraseBelow hne, if_pos h]

end Removals

section Parents

lemma noStepUp_of_enter {place : FilePlace} {name : List Char} (hname : '/' ∉ name)
    (h : ∀ n ∈ place, ['.', '.'] ∉ Path.pieces n.toList) :
    ∀ n ∈ FilePlace.enter place name, ['.', '.'] ∉ Path.pieces n.toList := by
  unfold FilePlace.enter
  split
  · exact h
  split
  · exact fun n hn => h n (List.dropLast_subset _ hn)
  · next hup =>
    intro n hn
    rcases List.mem_append.1 hn with hn | hn
    · exact h n hn
    · rw [List.mem_singleton.1 hn, String.toList_ofList, Path.pieces_of_not_mem hname,
        List.mem_singleton]
      exact Ne.symm hup

lemma noStepUp_of_ofPath (path : String) :
    ∀ n ∈ FilePlace.ofPath path, ['.', '.'] ∉ Path.pieces n.toList := by
  have hfold : ∀ (ps : List (List Char)) (place : FilePlace), (∀ p ∈ ps, '/' ∉ p) →
      (∀ n ∈ place, ['.', '.'] ∉ Path.pieces n.toList) →
      ∀ n ∈ ps.foldl FilePlace.enter place, ['.', '.'] ∉ Path.pieces n.toList := by
    intro ps
    induction ps with
    | nil => exact fun _ _ h => h
    | cons p ps ih =>
      intro place hps hplace
      exact ih _ (fun q hq => hps q (List.mem_cons_of_mem _ hq))
        (noStepUp_of_enter (hps p List.mem_cons_self) hplace)
  apply hfold _ _ fun p hp => Path.not_mem_of_mem_pieces hp
  unfold FilePlace.start
  split
  · decide
  · simp

lemma WellFormed.empty : empty.WellFormed := by
  refine ⟨fun place node h => ?_, by simp [FileTree.empty]⟩
  by_cases hplace : place = []
  · rw [hplace]
    rfl
  · simp [get?_of_ne hplace, FileTree.empty] at h

lemma mem_nodes_of_get? {place : FilePlace} {node : FileNode} (hne : place ≠ [])
    (h : t.get? place = some node) : (place, node) ∈ t.nodes := by
  rw [get?_of_ne hne, List.lookup_eq_some_iff] at h
  obtain ⟨front, rest, hnodes, -⟩ := h
  simp [hnodes]

lemma wellFormed_of_nodes (h : ∀ node ∈ t.nodes, t.get? node.1.dropLast = some .directory ∧
    ∀ name ∈ node.1, ['.', '.'] ∉ Path.pieces name.toList) : t.WellFormed where
  parents place node hnode := by
    by_cases hne : place = []
    · rw [hne]
      rfl
    · exact (h _ (mem_nodes_of_get? hne hnode)).1
  names node hnode := (h node hnode).2

namespace WellFormed

lemma directory_of_prefix (h : t.WellFormed) {p q : FilePlace} {node : FileNode}
    (hq : t.get? q = some node) (hpq : p <+: q) (hne : p ≠ q) :
    t.get? p = some .directory := by
  obtain ⟨rest, rfl⟩ := hpq
  induction rest using List.reverseRecOn generalizing node with
  | nil => simp at hne
  | append_singleton rest n ih =>
    have hparent := h.parents _ _ hq
    rw [← List.append_assoc, List.dropLast_concat] at hparent
    by_cases hrest : rest = []
    · simpa [hrest] using hparent
    · exact ih hparent (by simpa using hrest)

lemma parent_of_through (h : t.WellFormed) {ns : List (List Char)} {place : FilePlace}
    (hplace : t.get? place.dropLast = some .directory)
    (hdirs : ∀ q ∈ FilePlace.through ns place, t.get? q = some .directory) :
    t.get? (ns.foldl FilePlace.enter place).dropLast = some .directory := by
  induction ns generalizing place with
  | nil => exact hplace
  | cons n ns ih =>
    rw [FilePlace.through, List.forall_mem_cons] at hdirs
    refine ih ?_ hdirs.2
    unfold FilePlace.enter
    split
    · exact hplace
    split
    · exact h.parents _ _ hplace
    · rw [List.dropLast_concat]
      exact hdirs.1

lemma parent_of_place (h : t.WellFormed) {path : String} {place : FilePlace}
    (hplace : t.place path = .ok place) : t.get? place.dropLast = some .directory := by
  obtain ⟨rfl, -, hdirs⟩ := place_ok_iff.1 hplace
  rw [FilePlace.ofPath, ← FilePlace.foldl_names]
  refine h.parent_of_through ?_ hdirs
  unfold FilePlace.start
  split <;> rfl

lemma put (h : t.WellFormed) {path : String} {place : FilePlace} {node : FileNode}
    (hplace : t.place path = .ok place) (hnode : t.get? place ≠ some .directory) :
    (t.put place node).WellFormed := by
  have hne : place ≠ [] := by
    rintro rfl
    exact hnode rfl
  have hparent := h.parent_of_place hplace
  have hdir : ∀ q, t.get? q = some .directory → (t.put place node).get? q = some .directory := by
    intro q hq
    rw [get?_put hne, if_neg]
    · exact hq
    · rintro rfl
      exact hnode hq
  constructor
  · intro q node' hq
    rw [get?_put hne] at hq
    split at hq
    · next hqp =>
      rw [hqp]
      exact hdir _ hparent
    · exact hdir _ (h.parents q node' hq)
  · intro node' hmem
    rcases List.mem_cons.1 hmem with rfl | hmem
    · rw [(place_ok_iff.1 hplace).1]
      exact noStepUp_of_ofPath path
    · exact h.names node' (List.mem_filter.1 hmem).1

lemma erase (h : t.WellFormed) {place : FilePlace} {bytes : Bytes}
    (hfile : t.get? place = some (.file bytes)) : (t.erase place).WellFormed := by
  have hne := ne_nil_of_file hfile
  constructor
  · intro q node hq
    rw [get?_erase hne] at hq ⊢
    split at hq
    · cases hq
    · have hparent := h.parents q node hq
      rw [if_neg]
      · exact hparent
      · intro hqp
        rw [hqp, hfile] at hparent
        cases hparent
  · exact fun node hmem => h.names node (List.mem_filter.1 hmem).1

lemma eraseBelow (h : t.WellFormed) (place : FilePlace) : (t.eraseBelow place).WellFormed := by
  constructor
  · intro q node hq
    by_cases hroot : q.dropLast = []
    · rw [hroot]
      rfl
    have hne : q ≠ [] := by
      rintro rfl
      exact hroot rfl
    rw [get?_eraseBelow hne] at hq
    rw [get?_eraseBelow hroot]
    split at hq
    · cases hq
    · next hpq =>
      rw [if_neg fun hpre => hpq (hpre.trans (List.dropLast_prefix q))]
      exact h.parents q node hq
  · exact fun node hmem => h.names node (List.mem_filter.1 hmem).1

end WellFormed

end Parents

section Changes

variable {A : FilePlace → Prop} {path : String} {place : FilePlace} {bytes : Bytes}

lemma within_put_file (hplace : t.place path = .ok place) (hnode : t.get? place ≠ some .directory)
    (hA : A place) : Within A t (t.put place (.file bytes)) := by
  have hne : place ≠ [] := by
    rintro rfl
    exact hnode rfl
  have hget : ∀ q, ¬ A q → (t.put place (.file bytes)).get? q = t.get? q := by
    intro q hq
    rw [get?_put hne, if_neg]
    rintro rfl
    exact hq hA
  exact ⟨fun q hq => fileAt_congr (hget q hq), fun q hq hdir => (hget q hq).trans hdir,
    fun h => h.put hplace hnode⟩

lemma within_put_directory (hplace : t.place path = .ok place) (hnone : t.get? place = none) :
    Within A t (t.put place .directory) := by
  have hne : place ≠ [] := by
    rintro rfl
    cases hnone
  refine ⟨fun q _ => ?_, fun q _ hdir => ?_, fun h => h.put hplace (by simp [hnone])⟩
  · by_cases hq : q = place
    · rw [fileAt_of_directory (by rw [get?_put hne, if_pos hq]), fileAt, hq, hnone]
    · exact fileAt_congr (by rw [get?_put hne, if_neg hq])
  · rw [get?_put hne, hdir]
    split <;> rfl

lemma within_erase (hfile : t.get? place = some (.file bytes)) (hA : A place) :
    Within A t (t.erase place) := by
  have hne := ne_nil_of_file hfile
  have hget : ∀ q, ¬ A q → (t.erase place).get? q = t.get? q := by
    intro q hq
    rw [get?_erase hne, if_neg]
    rintro rfl
    exact hq hA
  exact ⟨fun q hq => fileAt_congr (hget q hq), fun q hq hdir => (hget q hq).trans hdir,
    fun h => h.erase hfile⟩

lemma within_eraseBelow (hA : ∀ q, place <+: q → A q) : Within A t (t.eraseBelow place) := by
  have hget : ∀ q, ¬ A q → (t.eraseBelow place).get? q = t.get? q := by
    intro q hq
    by_cases hne : q = []
    · rw [hne]
      rfl
    · rw [get?_eraseBelow hne, if_neg (mt (hA q) hq)]
  exact ⟨fun q hq => fileAt_congr (hget q hq), fun q hq hdir => (hget q hq).trans hdir,
    fun h => h.eraseBelow place⟩

end Changes

section Operations

variable {path : String} {bytes : Bytes}

lemma find_ok_iff {place : FilePlace} {node : FileNode} :
    t.find path = .ok (place, node) ↔ t.place path = .ok place ∧ t.get? place = some node ∧
      (node ≠ .directory → endsOpen path = false) := by
  unfold find
  cases hplace : t.place path with
  | error fault => simp
  | ok p =>
    dsimp only
    cases hget : t.get? p with
    | none =>
      refine ⟨nofun, ?_⟩
      rintro ⟨hp, hnode, -⟩
      cases hp
      rw [hget] at hnode
      cases hnode
    | some found =>
      cases found with
      | directory =>
        rw [Except.ok.injEq, Except.ok.injEq, Prod.mk.injEq]
        constructor
        · rintro ⟨rfl, rfl⟩
          exact ⟨rfl, hget, fun h => absurd rfl h⟩
        · rintro ⟨rfl, hnode, -⟩
          rw [hget] at hnode
          exact ⟨rfl, Option.some.inj hnode⟩
      | file bs =>
        dsimp only
        rw [Except.ok.injEq]
        split
        · next hopen =>
          refine ⟨nofun, ?_⟩
          rintro ⟨rfl, hnode, hclosed⟩
          rw [hget] at hnode
          cases hnode
          rw [hclosed (by simp)] at hopen
          cases hopen
        · next hclosed =>
          rw [Except.ok.injEq, Prod.mk.injEq]
          constructor
          · rintro ⟨rfl, rfl⟩
            exact ⟨rfl, hget, fun _ => by simpa using hclosed⟩
          · rintro ⟨rfl, hnode, -⟩
            rw [hget] at hnode
            exact ⟨rfl, Option.some.inj hnode⟩

lemma read_ok_iff :
    t.read path = .ok bytes ↔ t.find path = .ok (FilePlace.ofPath path, .file bytes) := by
  unfold read
  split
  · next h => simp [h]
  · next h => simp [h]
  · next place bs h =>
    obtain ⟨hplace, -⟩ := find_ok_iff.1 h
    rw [h, (place_ok_iff.1 hplace).1]
    simp

lemma fileAt_of_read (h : t.read path = .ok bytes) :
    t.fileAt (FilePlace.ofPath path) = some bytes :=
  fileAt_eq_some_iff.2 (find_ok_iff.1 (read_ok_iff.1 h)).2.1

lemma Shrinks.read (h : Shrinks t t') (hread : t'.read path = .ok bytes) :
    t.read path = .ok bytes := by
  obtain ⟨hplace, hfile, hclosed⟩ := find_ok_iff.1 (read_ok_iff.1 hread)
  obtain ⟨-, hnamed, hdirs⟩ := place_ok_iff.1 hplace
  exact read_ok_iff.2 (find_ok_iff.2 ⟨place_ok_iff.2
    ⟨rfl, hnamed, fun q hq => h.get? q _ (hdirs q hq)⟩, h.get? _ _ hfile, hclosed⟩)

lemma write_ok_iff : t.write path bytes = .ok t' ↔ ∃ place, t.place path = .ok place ∧
    t.get? place ≠ some .directory ∧ endsOpen path = false ∧
      t' = t.put place (.file bytes) := by
  unfold write
  cases hplace : t.place path with
  | error fault => simp
  | ok place =>
    dsimp only
    split
    · next hdir => simp [hdir]
    · next hdir =>
      split
      · next hopen => simp [hopen]
      · next hclosed =>
        have hne : t.get? place ≠ some .directory := hdir
        simp [hne, hclosed, eq_comm (a := t')]

lemma find_of_write (h : t.write path bytes = .ok t') :
    t'.find path = .ok (FilePlace.ofPath path, .file bytes) := by
  obtain ⟨place, hplace, hnode, hclosed, rfl⟩ := write_ok_iff.1 h
  obtain ⟨rfl, hnamed, hdirs⟩ := place_ok_iff.1 hplace
  have hne : FilePlace.ofPath path ≠ [] := fun hnil => hnode (hnil ▸ rfl)
  have hkeep : ∀ q, t.get? q = some .directory →
      (t.put (FilePlace.ofPath path) (.file bytes)).get? q = some .directory := by
    intro q hq
    rw [get?_put hne, if_neg]
    · exact hq
    · rintro rfl
      exact hnode hq
  refine find_ok_iff.2 ⟨place_ok_iff.2 ⟨rfl, hnamed, fun q hq => hkeep q (hdirs q hq)⟩, ?_,
    fun _ => hclosed⟩
  rw [get?_put hne, if_pos rfl]

lemma fileAt_of_write (h : t.write path bytes = .ok t') :
    t'.fileAt (FilePlace.ofPath path) = some bytes :=
  fileAt_of_read (read_ok_iff.2 (find_of_write h))

lemma directory_of_write (h : t.write path bytes = .ok t') {q : FilePlace}
    (hq : t'.get? q = some .directory) : t.get? q = some .directory := by
  obtain ⟨place, -, hnode, -, rfl⟩ := write_ok_iff.1 h
  have hne : place ≠ [] := fun hnil => hnode (hnil ▸ rfl)
  rw [get?_put hne] at hq
  split at hq
  · cases hq
  · exact hq

lemma removeFile_ok_iff : t.removeFile path = .ok t' ↔ ∃ place bytes,
    t.find path = .ok (place, .file bytes) ∧ t' = t.erase place := by
  unfold removeFile
  split
  · next h => simp [h]
  · next h => simp [h]
  · next h => simp [h, eq_comm]

lemma removeDirectory_ok_iff : t.removeDirectory path = .ok t' ↔ ∃ place,
    t.find path = .ok (place, .directory) ∧ t' = t.eraseBelow place := by
  unfold removeDirectory
  split
  · next h => simp [h]
  · next h => simp [h]
  · next h => simp [h, eq_comm]

lemma move_ok_iff {source target : String} : t.move source target = .ok t' ↔ ∃ place bytes,
    t.find source = .ok (place, .file bytes) ∧ (t.erase place).write target bytes = .ok t' := by
  unfold move
  split
  · next h => simp [h]
  · next h => simp [h]
  · next h => simp [h]

lemma makeDirectory_ok_iff : t.makeDirectory path = .ok t' ↔ ∃ place,
    t.place path = .ok place ∧ t.get? place = none ∧ t' = t.put place .directory := by
  unfold makeDirectory
  cases hplace : t.place path with
  | error fault => simp
  | ok place =>
    dsimp only
    split
    · next h => simp [h]
    · next h => simp [h, eq_comm]

lemma find_of_makeDirectory (h : t.makeDirectory path = .ok t') :
    t'.find path = .ok (FilePlace.ofPath path, .directory) := by
  obtain ⟨place, hplace, hnone, rfl⟩ := makeDirectory_ok_iff.1 h
  have hkept : Within (fun _ => False) t (t.put place .directory) :=
    within_put_directory hplace hnone
  obtain ⟨rfl, hnamed, hdirs⟩ := place_ok_iff.1 hplace
  have hne : FilePlace.ofPath path ≠ [] := by
    intro hnil
    rw [hnil] at hnone
    cases hnone
  refine find_ok_iff.2 ⟨place_ok_iff.2 ⟨rfl, hnamed, fun q hq => ?_⟩, ?_, fun h => absurd rfl h⟩
  · exact hkept.directories q id (hdirs q hq)
  · rw [get?_put hne, if_pos rfl]

lemma find_of_isDirectory (h : t.isDirectory path = true) :
    t.find path = .ok (FilePlace.ofPath path, .directory) := by
  unfold isDirectory at h
  split at h
  · next place hfind =>
    obtain ⟨hplace, -⟩ := find_ok_iff.1 hfind
    rwa [(place_ok_iff.1 hplace).1] at hfind
  · cases h

lemma find_of_makeDirectories {turns : Nat} (hne : path ≠ "")
    (h : makeDirectories turns path t = (.ok (), t')) :
    t'.find path = .ok (FilePlace.ofPath path, .directory) := by
  have htry : ∀ {s : FileTree} {fault : FileFault},
      (if s.isDirectory path then (.ok () : Except FileFault Unit) else .error fault, s) =
        (.ok (), t') → t'.find path = .ok (FilePlace.ofPath path, .directory) := by
    intro s fault h
    split at h
    · next hdir =>
      cases h
      exact find_of_isDirectory hdir
    · cases h
  cases turns with
  | zero => cases h
  | succ turns =>
    rw [makeDirectories, if_neg (by simpa using hne)] at h
    split at h
    · next hmake =>
      cases h
      exact find_of_makeDirectory hmake
    · split at h
      · cases h
      split at h
      · cases h
      split at h
      · next hmake =>
        cases h
        exact find_of_makeDirectory hmake
      · exact htry h
    · exact htry h

end Operations

section Reaching

open FilePlace

structure LeadsToFile (path : String) : Prop where
  named : Named path
  closed : endsOpen path = false
  notThrough : ofPath path ∉ trail path

lemma leadsToFile_of_find {path : String} {place : FilePlace} {bytes : Bytes}
    (h : t.find path = .ok (place, .file bytes)) : LeadsToFile path := by
  obtain ⟨hplace, hfile, hclosed⟩ := find_ok_iff.1 h
  obtain ⟨rfl, hnamed, hdirs⟩ := place_ok_iff.1 hplace
  refine ⟨hnamed, hclosed (by simp), fun hmem => ?_⟩
  rw [hdirs _ hmem] at hfile
  cases hfile

lemma find_of_leadsToFile {base path : String} {bytes : Bytes} (ht : t.WellFormed)
    (hway : ∀ q ∈ approach base, t.get? q = some .directory) (hpath : Descends path)
    (hleads : LeadsToFile (Path.append base path))
    (hfile : t.fileAt (ofPath (Path.append base path)) = some bytes) :
    t.find (Path.append base path) = .ok (ofPath (Path.append base path), .file bytes) := by
  rw [fileAt_eq_some_iff] at hfile
  refine find_ok_iff.2 ⟨place_ok_iff.2 ⟨rfl, hleads.named, fun q hq => ?_⟩, hfile,
    fun _ => hleads.closed⟩
  rcases mem_approach_or_between hpath hq with hbase | ⟨-, hbelow⟩
  · exact hway q hbase
  · refine ht.directory_of_prefix hfile hbelow ?_
    rintro rfl
    exact hleads.notThrough hq

end Reaching

end FileTree

end ClassWeaver
