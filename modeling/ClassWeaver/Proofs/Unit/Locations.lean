import ClassWeaver.Proofs.Files.Places
import ClassWeaver.Unit.Layout

namespace ClassWeaver

namespace Path

lemma mem_pieces_of_mem_backwards {body p : List Char} (h : p ∈ backwards body) :
    p ∈ pieces body :=
  List.mem_reverse.1 ((List.dropWhile_sublist _).mem h)

lemma noSlash_fileName? {path name : String} (h : fileName? path = some name) :
    '/' ∉ name.toList := by
  unfold fileName? at h
  split at h
  · cases h
  · next p ps hp =>
    split at h
    · cases h
    · cases h
      rw [String.toList_ofList]
      exact not_mem_of_mem_pieces (mem_pieces_of_mem_backwards (hp ▸ List.mem_cons_self))

lemma mem_of_mem_cutName {name : List Char} {c : Char} (h : c ∈ (cutName name).1) : c ∈ name := by
  unfold cutName at h
  split at h
  · exact h
  split at h
  · exact h
  · exact h
  · next d before _ hd =>
    refine List.mem_reverse.1 ((List.dropWhile_sublist (fun x => decide (x ≠ '.'))).mem ?_)
    rw [hd]
    exact List.mem_cons_of_mem _ (List.mem_reverse.1 h)

lemma noSlash_fileStem? {path stem : String} (h : fileStem? path = some stem) :
    '/' ∉ stem.toList := by
  obtain ⟨name, hname, rfl⟩ := Option.map_eq_some_iff.1 h
  rw [String.toList_ofList]
  exact fun hmem => noSlash_fileName? hname (mem_of_mem_cutName hmem)

end Path

lemma noSlash_hexDigits (width n : Nat) : '/' ∉ hexDigits width n := by
  induction width generalizing n with
  | zero => simp [hexDigits]
  | succ width ih =>
    have hdigit : ∀ d < 16, hexDigit d ≠ '/' := by decide
    rw [hexDigits, List.mem_append, List.mem_singleton, not_or]
    exact ⟨ih _, (hdigit _ (Nat.mod_lt _ (by decide))).symm⟩

namespace Layout

lemma noSlash_shortHash (path : String) : '/' ∉ (shortHash path).toList := by
  rw [shortHash, String.toList_ofList, pathHash, contentHash, Bytes.toHex, String.toList_ofList]
  intro h
  obtain ⟨b, -, hb⟩ := List.mem_flatMap.1 (List.mem_of_mem_take h)
  exact noSlash_hexDigits _ _ hb

lemma noSlash_dirName (scope : Scope) : '/' ∉ scope.dirName.toList := by
  cases scope <;> decide

lemma exists_hashed {name hash : List Char} (ending : List Char) (hname : '/' ∉ name) (hhash : '/' ∉ hash)
    (hend : '/' ∉ ending) : ∃ part, part ≠ ['.', '.'] ∧
      Path.pieces (name ++ '-' :: (hash ++ ending)) = [part] := by
  have hdash : '-' ∈ name ++ '-' :: (hash ++ ending) :=
    List.mem_append_right _ List.mem_cons_self
  refine ⟨name ++ '-' :: (hash ++ ending), ?_, Path.pieces_of_not_mem ?_⟩
  · intro h
    rw [h] at hdash
    exact absurd hdash (by decide)
  · simp [hname, hhash, hend]

lemma pieces_archiveLocation (scope : Scope) (root : String) :
    ∃ part, part ≠ ['.', '.'] ∧
      Path.pieces (archiveLocation scope root).toList =
        [scope.dirName.toList, ['j', 'a', 'r', 's'], part] := by
  have hstem : '/' ∉ ((Path.fileStem? root).getD "input").toList := by
    cases h : Path.fileStem? root with
    | none => decide
    | some stem => exact Path.noSlash_fileStem? h
  obtain ⟨part, hup, hpart⟩ :=
    exists_hashed ['.', 'j', 'a', 'r'] hstem (noSlash_shortHash root) (by decide)
  refine ⟨part, hup, ?_⟩
  have hlist : (archiveLocation scope root).toList = scope.dirName.toList ++ '/' ::
      (['j', 'a', 'r', 's'] ++ '/' :: (((Path.fileStem? root).getD "input").toList ++
        '-' :: ((shortHash root).toList ++ ['.', 'j', 'a', 'r']))) := by
    simp [archiveLocation]
  rw [hlist, Path.pieces_append, Path.pieces_append, hpart,
    Path.pieces_of_not_mem (noSlash_dirName scope)]
  rfl

lemma pieces_directoryLocation (scope : Scope) (root : String) :
    ∃ part, part ≠ ['.', '.'] ∧
      Path.pieces (directoryLocation scope root).toList =
        [scope.dirName.toList, ['d', 'i', 'r', 's'], part] := by
  have hname : '/' ∉ ((Path.fileName? root).getD "classes").toList := by
    cases h : Path.fileName? root with
    | none => decide
    | some name => exact Path.noSlash_fileName? h
  obtain ⟨part, hup, hpart⟩ :=
    exists_hashed [] hname (noSlash_shortHash root) (by decide)
  refine ⟨part, hup, ?_⟩
  have hlist : (directoryLocation scope root).toList = scope.dirName.toList ++ '/' ::
      (['d', 'i', 'r', 's'] ++ '/' :: (((Path.fileName? root).getD "classes").toList ++
        '-' :: ((shortHash root).toList ++ []))) := by
    simp [directoryLocation]
  rw [hlist, Path.pieces_append, Path.pieces_append, hpart,
    Path.pieces_of_not_mem (noSlash_dirName scope)]
  rfl

end Layout

namespace InputUnit

def StaysInside (u : InputUnit) : Prop :=
  ∀ relative, u.kind = .file relative → ['.', '.'] ∉ Path.pieces relative.toList

end InputUnit

namespace Layout

open FilePlace

lemma exists_pieces_unitLocation {u : InputUnit} (h : u.StaysInside) : ∃ parts,
    Path.pieces (unitLocation u).toList = u.scope.dirName.toList :: parts ∧
      ['.', '.'] ∉ parts ∧ parts ≠ [] := by
  obtain ⟨scope, root, kind⟩ := u
  cases kind with
  | archive =>
    obtain ⟨part, hup, hpieces⟩ := pieces_archiveLocation scope root
    exact ⟨_, hpieces, by simp [Ne.symm hup], by simp⟩
  | file relative =>
    obtain ⟨part, hup, hpieces⟩ := pieces_directoryLocation scope root
    have hlist : (unitLocation ⟨scope, root, .file relative⟩).toList =
        (directoryLocation scope root).toList ++ '/' :: relative.toList := by
      simp [unitLocation]
    rw [hlist, Path.pieces_append, hpieces]
    exact ⟨_, rfl, by simp [Ne.symm hup, h relative rfl], by simp⟩

lemma descends_of_pieces {path : String} {scope : Scope} {parts : List (List Char)}
    (h : Path.pieces path.toList = scope.dirName.toList :: parts) (hup : ['.', '.'] ∉ parts) :
    Descends path := by
  have hjoin := Path.join_pieces path.toList
  have hhead : path.toList.head? = scope.dirName.toList.head? := by
    rw [← hjoin, h]
    cases parts <;> cases scope <;> simp [Path.join, Scope.dirName]
  refine ⟨?_, ?_, ?_⟩
  · rw [Path.isAbsolute, hhead]
    cases scope <;> decide
  · rw [h, List.mem_cons, not_or]
    exact ⟨by cases scope <;> decide, hup⟩
  · rw [FileTree.names, h, ne_eq, List.reverse_eq_nil_iff, List.dropWhile_eq_nil_iff]
    intro hall
    have := hall scope.dirName.toList (by simp)
    cases scope <;> simp [Scope.dirName] at this

lemma descends_unitLocation {u : InputUnit} (h : u.StaysInside) : Descends (unitLocation u) := by
  obtain ⟨parts, hpieces, hup, -⟩ := exists_pieces_unitLocation h
  exact descends_of_pieces hpieces hup

lemma descends_dirName (scope : Scope) : Descends scope.dirName :=
  descends_of_pieces (Path.pieces_of_not_mem (noSlash_dirName scope)) (by simp)

lemma descends_staging : Descends ".ams-staging" := ⟨by decide, by decide, by decide⟩

variable (l : Layout)

def scopePlace (scope : Scope) : FilePlace := ofPath (l.scopeDirectory scope)

def stagingPlace : FilePlace := ofPath l.stagingDirectory

def outputPlace (u : InputUnit) : FilePlace := ofPath (Path.append l.root (unitLocation u))

def stagedPlace (u : InputUnit) : FilePlace :=
  ofPath (Path.append l.stagingDirectory (unitLocation u))

lemma scopePlace_eq (scope : Scope) : l.scopePlace scope = ofPath l.root ++ [scope.dirName] := by
  rw [scopePlace, scopeDirectory, ofPath_append _ (descends_dirName scope)]
  cases scope <;> rfl

lemma stagingPlace_eq : l.stagingPlace = ofPath l.root ++ [".ams-staging"] := by
  rw [stagingPlace, stagingDirectory, ofPath_append _ descends_staging]
  rfl

variable {l}

lemma outputPlace_eq {u : InputUnit} (h : u.StaysInside) :
    l.outputPlace u = ofPath l.root ++ ofPath (unitLocation u) :=
  ofPath_append _ (descends_unitLocation h)

lemma stagedPlace_eq {u : InputUnit} (h : u.StaysInside) :
    l.stagedPlace u = l.stagingPlace ++ ofPath (unitLocation u) :=
  ofPath_append _ (descends_unitLocation h)

lemma dirName_prefix_unitLocation {u : InputUnit} (h : u.StaysInside) :
    [u.scope.dirName] <+: ofPath (unitLocation u) := by
  obtain ⟨parts, hpieces, hup, -⟩ := exists_pieces_unitLocation h
  rw [(descends_unitLocation h).ofPath_eq, hpieces, List.foldl_cons, foldl_enter hup]
  cases u.scope <;> exact List.prefix_append _ _

lemma scopePlace_prefix_outputPlace {u : InputUnit} (h : u.StaysInside) :
    l.scopePlace u.scope <+: l.outputPlace u := by
  rw [scopePlace_eq, outputPlace_eq h, List.prefix_append_right_inj]
  exact dirName_prefix_unitLocation h

lemma stagingPlace_prefix_stagedPlace {u : InputUnit} (h : u.StaysInside) :
    l.stagingPlace <+: l.stagedPlace u := by
  rw [stagedPlace_eq h]
  exact List.prefix_append _ _

lemma outputPlace_eq_of_stagedPlace_eq {u v : InputUnit} (hu : u.StaysInside) (hv : v.StaysInside)
    (h : l.stagedPlace u = l.stagedPlace v) : l.outputPlace u = l.outputPlace v := by
  rw [stagedPlace_eq hu, stagedPlace_eq hv, List.append_cancel_left_eq] at h
  rw [outputPlace_eq hu, outputPlace_eq hv, h]

lemma not_staged_of_scope {scope : Scope} {q : FilePlace} (h : l.scopePlace scope <+: q) :
    ¬ l.stagingPlace <+: q := by
  rw [scopePlace_eq] at h
  rw [stagingPlace_eq]
  intro hstaging
  have hlen : (ofPath l.root ++ [scope.dirName]).length = (ofPath l.root ++ [".ams-staging"]).length := by
    simp
  have := List.prefix_of_prefix_length_le h hstaging hlen.le
  rw [List.prefix_append_right_inj] at this
  cases scope <;> simp [Scope.dirName] at this

end Layout

end ClassWeaver
