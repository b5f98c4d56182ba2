import Mathlib.Data.List.DropRight
import ClassWeaver.Files.Tree
import ClassWeaver.Proofs.Basic

/-! The place that a path names, whatever lies there. Since there are no links, a path that leads
anywhere leads to that place, and it leads there as soon as all it leads through are directories. -/

namespace ClassWeaver

namespace Path

lemma pieces_cons (c : Char) (cs : List Char) :
    pieces (c :: cs) = if c = '/' then [] :: pieces cs
      else match pieces cs with
        | p :: ps => (c :: p) :: ps
        | [] => [[c]] := rfl

lemma pieces_append (cs ds : List Char) : pieces (cs ++ '/' :: ds) = pieces cs ++ pieces ds := by
  induction cs with
  | nil => rfl
  | cons c cs ih =>
    rw [List.cons_append, pieces_cons, pieces_cons, ih]
    split
    · rfl
    · cases h : pieces cs with
      | nil => exact absurd h (pieces_ne_nil cs)
      | cons p ps => rfl

lemma not_mem_of_mem_pieces {cs p : List Char} (h : p ∈ pieces cs) : '/' ∉ p := by
  induction cs generalizing p with
  | nil =>
    obtain rfl : p = [] := by simpa [pieces] using h
    simp
  | cons c cs ih =>
    rw [pieces_cons] at h
    split at h
    · rcases List.mem_cons.1 h with rfl | h
      · simp
      · exact ih h
    · next hc =>
      cases hps : pieces cs with
      | nil => exact absurd hps (pieces_ne_nil cs)
      | cons q ps =>
        rw [hps] at h
        rcases List.mem_cons.1 h with rfl | h
        · have hq := ih (hps ▸ List.mem_cons_self)
          simp [hq, Ne.symm hc]
        · exact ih (hps ▸ List.mem_cons_of_mem q h)

lemma pieces_of_not_mem {cs : List Char} (h : '/' ∉ cs) : pieces cs = [cs] := by
  induction cs with
  | nil => rfl
  | cons c cs ih =>
    rw [List.mem_cons, not_or] at h
    rw [pieces_cons, if_neg (Ne.symm h.1), ih h.2]

lemma isAbsolute_append {base path : String} (h : isAbsolute path = false) :
    isAbsolute (append base path) = isAbsolute base := by
  unfold append
  rw [if_neg (by simp [h])]
  unfold isAbsolute at h ⊢
  split
  · next hends =>
    cases hbase : base.toList with
    | nil =>
      rw [String.toList_append, hbase, List.nil_append, h]
      rfl
    | cons c cs => rw [String.toList_append, hbase]; rfl
  · next hends =>
    cases hbase : base.toList with
    | nil => simp [String.toList_eq_nil_iff.1 hbase] at hends
    | cons c cs => rw [String.toList_append, String.toList_append, hbase]; rfl

end Path

namespace FileTree

lemma names_append_of_nil (cs : List Char) {ds : List Char} (h : names ds = []) :
    names (cs ++ '/' :: ds) = names cs := by
  rw [names, List.reverse_eq_nil_iff] at h
  rw [names, names, Path.pieces_append, List.reverse_append, List.dropWhile_append, h]
  rfl

lemma names_append (cs : List Char) {ds : List Char} (h : names ds ≠ []) :
    names (cs ++ '/' :: ds) = Path.pieces cs ++ names ds := by
  unfold names at h ⊢
  rw [ne_eq, List.reverse_eq_nil_iff, ← List.isEmpty_iff] at h
  rw [Path.pieces_append, List.reverse_append, List.dropWhile_append, if_neg h,
    List.reverse_append, List.reverse_reverse]

end FileTree

namespace FilePlace

def enter (place : FilePlace) (name : List Char) : FilePlace :=
  if Path.isIdle name then place
  else if name = ['.', '.'] then place.dropLast
  else place ++ [String.ofList name]

def start (path : String) : FilePlace := if Path.isAbsolute path then ["/"] else []

def ofPath (path : String) : FilePlace := (Path.pieces path.toList).foldl enter (start path)

def through : List (List Char) → FilePlace → List FilePlace
  | [], _ => []
  | name :: rest, place => place :: through rest (enter place name)

def trail (path : String) : List FilePlace := through (FileTree.names path.toList) (start path)

def Walkable : List (List Char) → FilePlace → Prop
  | [], _ => True
  | name :: rest, place =>
    (Utf8.encode (String.ofList name)).length ≤ FileTree.maxName ∧
      (name = ['.', '.'] → place ≠ []) ∧ Walkable rest (enter place name)

structure Named (path : String) : Prop where
  nonempty : path ≠ ""
  clean : '\x00' ∉ path.toList
  short : (Utf8.encode path).length ≤ FileTree.maxPath
  walkable : Walkable (FileTree.names path.toList) (start path)

lemma foldl_names (body : List Char) (place : FilePlace) :
    (FileTree.names body).foldl enter place = (Path.pieces body).foldl enter place := by
  have hdrop : ∀ ps : List (List Char), ((ps.dropWhile (· = [])).reverse).foldl enter place =
      (ps.reverse).foldl enter place := by
    intro ps
    induction ps with
    | nil => rfl
    | cons p ps ih =>
      rw [List.dropWhile_cons]
      split
      · next hp =>
        obtain rfl : p = [] := by simpa using hp
        rw [ih, List.reverse_cons, List.foldl_append]
        rfl
      · rfl
  rw [FileTree.names, hdrop, List.reverse_reverse]

lemma foldl_enter {ps : List (List Char)} (h : ['.', '.'] ∉ ps) (place : FilePlace) :
    ps.foldl enter place = place ++ ps.foldl enter [] := by
  induction ps generalizing place with
  | nil => simp
  | cons p ps ih =>
    rw [List.mem_cons, not_or] at h
    rw [List.foldl_cons, List.foldl_cons, ih h.2, ih h.2 (enter [] p)]
    unfold enter
    split
    · simp
    · simp [Ne.symm h.1]

lemma through_append (ns ms : List (List Char)) (place : FilePlace) :
    through (ns ++ ms) place = through ns place ++ through ms (ns.foldl enter place) := by
  induction ns generalizing place with
  | nil => rfl
  | cons n ns ih => rw [List.cons_append, through, through, ih]; rfl

lemma prefix_of_mem_through {ns : List (List Char)} (hns : ['.', '.'] ∉ ns) {place q : FilePlace}
    (hq : q ∈ through ns place) : place <+: q ∧ q <+: ns.foldl enter place := by
  induction ns generalizing place with
  | nil => cases hq
  | cons n ns ih =>
    rw [List.mem_cons, not_or] at hns
    have hstep : place <+: enter place n := by
      unfold enter
      split
      · exact List.prefix_rfl
      · rw [if_neg (Ne.symm hns.1)]
        exact List.prefix_append _ _
    rcases List.mem_cons.1 hq with rfl | hq
    · refine ⟨List.prefix_rfl, ?_⟩
      rw [List.foldl_cons, foldl_enter hns.2]
      exact hstep.trans (List.prefix_append _ _)
    · obtain ⟨h₁, h₂⟩ := ih hns.2 hq
      exact ⟨hstep.trans h₁, h₂⟩

structure Descends (path : String) : Prop where
  relative : Path.isAbsolute path = false
  noStepUp : ['.', '.'] ∉ Path.pieces path.toList
  names : FileTree.names path.toList ≠ []

def front (base : String) : List (List Char) :=
  if base = "" then []
  else if base.toList.getLast? = some '/' then Path.pieces base.toList.dropLast
  else Path.pieces base.toList

/-- What must be a directory for anything below the place of a path to be found by it. -/
def approach (base : String) : List FilePlace := through (front base) (start base) ++ [ofPath base]

lemma foldl_front (base : String) (place : FilePlace) :
    (front base).foldl enter place = (Path.pieces base.toList).foldl enter place := by
  unfold front
  split
  · next h =>
    subst h
    rfl
  split
  · next h =>
    obtain ⟨cs, hcs⟩ := List.getLast?_eq_some_iff.1 h
    rw [hcs, List.dropLast_concat, Path.pieces_append, List.foldl_append]
    rfl
  · rfl

lemma names_append (base : String) {path : String} (h : Descends path) :
    FileTree.names (Path.append base path).toList = front base ++ FileTree.names path.toList := by
  unfold Path.append front
  rw [if_neg (by simp [h.relative])]
  split
  · next hends =>
    rw [Bool.or_eq_true, decide_eq_true_eq, String.isEmpty_iff] at hends
    by_cases hempty : base = ""
    · subst hempty
      simp
    · have hslash := hends.resolve_left hempty
      obtain ⟨cs, hcs⟩ := List.getLast?_eq_some_iff.1 hslash
      rw [if_neg hempty, if_pos hslash, String.toList_append, hcs, List.dropLast_concat,
        List.append_assoc]
      exact FileTree.names_append cs h.names
  · next hends =>
    rw [Bool.or_eq_true, decide_eq_true_eq, String.isEmpty_iff, not_or] at hends
    rw [if_neg hends.1, if_neg hends.2, String.toList_append, String.toList_append,
      List.append_assoc]
    exact FileTree.names_append _ h.names

lemma start_append (base : String) {path : String} (h : Descends path) :
    start (Path.append base path) = start base := by
  rw [start, Path.isAbsolute_append h.relative]
  rfl

lemma Descends.ofPath_eq {path : String} (h : Descends path) :
    ofPath path = (Path.pieces path.toList).foldl enter [] := by
  rw [ofPath, start, h.relative]
  rfl

lemma ofPath_append (base : String) {path : String} (h : Descends path) :
    ofPath (Path.append base path) = ofPath base ++ ofPath path := by
  rw [h.ofPath_eq, ← foldl_enter h.noStepUp, ofPath, ← foldl_names, names_append base h,
    start_append base h, List.foldl_append, foldl_front, foldl_names]
  rfl

lemma trail_append (base : String) {path : String} (h : Descends path) :
    trail (Path.append base path) =
      through (front base) (start base) ++
        through (FileTree.names path.toList) (ofPath base) := by
  rw [trail, names_append base h, start_append base h, through_append, foldl_front]
  rfl

lemma Descends.not_mem_names {path : String} (h : Descends path) :
    ['.', '.'] ∉ FileTree.names path.toList := by
  intro hmem
  rw [FileTree.names, List.mem_reverse] at hmem
  exact h.noStepUp (List.mem_reverse.1 ((List.dropWhile_sublist _).mem hmem))

lemma mem_approach_or_between {base path : String} (h : Descends path) {q : FilePlace}
    (hq : q ∈ trail (Path.append base path)) :
    q ∈ approach base ∨ ofPath base <+: q ∧ q <+: ofPath (Path.append base path) := by
  rw [trail_append base h, List.mem_append] at hq
  rcases hq with hq | hq
  · exact .inl (List.mem_append_left _ hq)
  · right
    obtain ⟨hbase, hplace⟩ := prefix_of_mem_through h.not_mem_names hq
    rw [foldl_names, foldl_enter h.noStepUp, ← h.ofPath_eq] at hplace
    rw [ofPath_append base h]
    exact ⟨hbase, hplace⟩

lemma mem_trail_of_mem_approach {base path : String} (h : Descends path) {q : FilePlace}
    (hq : q ∈ approach base) : q ∈ trail (Path.append base path) := by
  rw [trail_append base h, List.mem_append]
  rcases List.mem_append.1 hq with hq | hq
  · exact .inl hq
  · right
    obtain ⟨n, ns, hns⟩ := List.exists_cons_of_ne_nil h.names
    rw [List.mem_singleton.1 hq, hns]
    exact List.mem_cons_self

end FilePlace

namespace FileTree

variable {t : FileTree}

lemma step_ok_iff {place next : FilePlace} {name : List Char} :
    t.step place name = .ok next ↔ next = FilePlace.enter place name ∧
      t.get? place = some .directory ∧
      (Utf8.encode (String.ofList name)).length ≤ maxName ∧ (name = ['.', '.'] → place ≠ []) := by
  have hidle : Path.isIdle name = true →
      (Utf8.encode (String.ofList name)).length ≤ maxName ∧ (name = ['.', '.'] → place ≠ []) := by
    intro h
    rcases (by simpa [Path.isIdle] using h : name = [] ∨ name = ['.']) with rfl | rfl
    · exact ⟨by decide, by simp⟩
    · exact ⟨by decide, by simp⟩
  unfold step FilePlace.enter
  cases hplace : t.get? place with
  | none => simp
  | some node =>
    cases node with
    | file bytes => simp
    | directory =>
      dsimp only
      by_cases h : Path.isIdle name = true
      · obtain ⟨hshort, hup⟩ := hidle h
        rw [if_pos h, if_pos h, Except.ok.injEq]
        exact ⟨fun hnext => ⟨hnext.symm, rfl, hshort, hup⟩, fun hnext => hnext.1.symm⟩
      rw [if_neg h, if_neg h]
      by_cases hup : name = ['.', '.']
      · subst hup
        rw [if_pos rfl, if_pos rfl]
        cases place with
        | nil => simp
        | cons p ps =>
          rw [Except.ok.injEq]
          exact ⟨fun hnext => ⟨hnext.symm, rfl, by decide, by simp⟩, fun hnext => hnext.1.symm⟩
      rw [if_neg hup, if_neg hup]
      split
      · next hlong => exact ⟨nofun, fun hnext => absurd hlong (Nat.not_lt.2 hnext.2.2.1)⟩
      · next hshort =>
        rw [Except.ok.injEq]
        exact ⟨fun hnext => ⟨hnext.symm, rfl, Nat.not_lt.1 hshort, fun h => absurd h hup⟩,
          fun hnext => hnext.1.symm⟩

lemma walk_ok_iff {names : List (List Char)} {place next : FilePlace} :
    t.walk names place = .ok next ↔ next = names.foldl FilePlace.enter place ∧
      FilePlace.Walkable names place ∧
      ∀ q ∈ FilePlace.through names place, t.get? q = some .directory := by
  induction names generalizing place with
  | nil => simp [walk, FilePlace.Walkable, FilePlace.through, eq_comm]
  | cons name names ih =>
    rw [walk, FilePlace.Walkable, FilePlace.through, List.forall_mem_cons, List.foldl_cons]
    split
    · next fault hstep =>
      refine ⟨nofun, ?_⟩
      rintro ⟨-, ⟨hshort, hup, -⟩, hdir, -⟩
      rw [step_ok_iff.2 ⟨rfl, hdir, hshort, hup⟩] at hstep
      cases hstep
    · next mid hstep =>
      obtain ⟨rfl, hdir, hshort, hup⟩ := step_ok_iff.1 hstep
      rw [ih]
      exact ⟨fun ⟨hnext, hwalk, hdirs⟩ => ⟨hnext, ⟨hshort, hup, hwalk⟩, hdir, hdirs⟩,
        fun ⟨hnext, ⟨_, _, hwalk⟩, _, hdirs⟩ => ⟨hnext, hwalk, hdirs⟩⟩

lemma walk_nil_cons (name : List Char) (names : List (List Char)) (place : FilePlace) :
    t.walk ([] :: name :: names) place = t.walk (name :: names) place := by
  cases hplace : t.get? place with
  | none => simp [walk, step, hplace]
  | some node => cases node <;> simp [walk, step, hplace, Path.isIdle]

lemma walk_split (cs : List Char) :
    t.walk (names (Path.split cs).2) (if (Path.split cs).1 = ['/'] then ["/"] else []) =
      t.walk (names cs) (if cs.head? = some '/' then ["/"] else []) := by
  unfold Path.split
  split
  · next rest =>
    simp only [List.head?_cons, if_true]
    by_cases h : names rest = []
    · rw [show '/' :: rest = [] ++ '/' :: rest from rfl, names_append_of_nil [] h, h]
      rfl
    · rw [show '/' :: rest = [] ++ '/' :: rest from rfl, names_append [] h]
      obtain ⟨n, ns, hns⟩ := List.exists_cons_of_ne_nil h
      rw [hns]
      exact (walk_nil_cons n ns _).symm
  · rfl
  · next rest =>
    by_cases h : names rest = []
    · rw [show '/' :: rest = [] ++ '/' :: rest from rfl,
        show '.' :: ([] ++ '/' :: rest) = ['.'] ++ '/' :: rest from rfl,
        names_append_of_nil [] h, names_append_of_nil ['.'] h]
      rfl
    · rw [show '/' :: rest = [] ++ '/' :: rest from rfl,
        show '.' :: ([] ++ '/' :: rest) = ['.'] ++ '/' :: rest from rfl,
        names_append [] h, names_append ['.'] h]
      rfl
  · next h _ _ =>
    have hhead : cs.head? ≠ some '/' := by
      intro hcs
      cases cs with
      | nil => cases hcs
      | cons c cs =>
        obtain rfl : c = '/' := by simpa using hcs
        exact h cs rfl
    simp [hhead]

lemma place_ok_iff {path : String} {place : FilePlace} :
    t.place path = .ok place ↔ place = FilePlace.ofPath path ∧ FilePlace.Named path ∧
      ∀ q ∈ FilePlace.trail path, t.get? q = some .directory := by
  have hstart : FilePlace.start path = if path.toList.head? = some '/' then ["/"] else [] := by
    simp [FilePlace.start, Path.isAbsolute]
  rw [FilePlace.ofPath, FilePlace.trail, ← FilePlace.foldl_names]
  unfold FileTree.place
  split
  · next h =>
    rw [String.isEmpty_iff] at h
    exact ⟨nofun, fun ⟨_, hnamed, _⟩ => absurd h hnamed.nonempty⟩
  next hempty =>
  split
  · next h => exact ⟨nofun, fun ⟨_, hnamed, _⟩ => absurd (by simpa using h) hnamed.clean⟩
  next hclean =>
  split
  · next h => exact ⟨nofun, fun ⟨_, hnamed, _⟩ => absurd h (Nat.not_lt.2 hnamed.short)⟩
  next hshort =>
  dsimp only
  rw [walk_split, ← hstart, walk_ok_iff]
  constructor
  · rintro ⟨hplace, hwalk, hdirs⟩
    exact ⟨hplace, ⟨by simpa [String.isEmpty_iff] using hempty, by simpa using hclean,
      Nat.not_lt.1 hshort, hwalk⟩, hdirs⟩
  · rintro ⟨hplace, hnamed, hdirs⟩
    exact ⟨hplace, hnamed.walkable, hdirs⟩

end FileTree

end ClassWeaver
