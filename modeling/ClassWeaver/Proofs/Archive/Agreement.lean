import ClassWeaver.Proofs.Archive.Transformation

/-! Both ways of reading an archive come to the same: to the fault of the first entry that cannot be
read, or to one entry for each, in its place and of its kind. -/

namespace ClassWeaver

variable {α : Type} {label : String} {decide : String → Bytes → Decision α}

/-- Whether an archive can be made to hold the entry as it is. A directory has no contents, and none
that could be compressed. -/
def Entry.IsWritable (e : Entry) : Prop := e.isDirectory = true → e.stored = true ∧ e.data = []

structure Entry.Becomes (decide : String → Bytes → Decision α) (e w : Entry) : Prop where
  name : w.name = e.name
  isDirectory : w.isDirectory = e.isDirectory
  modified : w.modified = e.modified
  stored : e.IsWritable → w.stored = e.stored
  data : e.isDirectory = false → w.data = (decide e.name e.data).replacement.getD e.data
  plain : e.isDirectory = true → w.stored = true ∧ w.data = []

lemma Entry.becomes_decided (e : Entry) : e.Becomes decide (e.decided decide) := by
  by_cases hdir : e.isDirectory = true
  · have hwritten : e.decided decide = { e with
        data := [], stored := true, mode := some (e.mode.getD directoryMode % 512) } := if_pos hdir
    rw [hwritten]
    exact {
      name := rfl
      isDirectory := rfl
      modified := rfl
      stored := fun hwritable => (hwritable hdir).1.symm
      data := fun hfile => absurd (hdir.symm.trans hfile) (by decide)
      plain := fun _ => ⟨rfl, rfl⟩ }
  · have hwritten : e.decided decide = { e with
        data := (decide e.name e.data).replacement.getD e.data
        mode := some (e.mode.getD fileMode % 512) } := if_neg hdir
    rw [hwritten]
    exact {
      name := rfl
      isDirectory := rfl
      modified := rfl
      stored := fun _ => rfl
      data := fun _ => rfl
      plain := fun hdir' => absurd hdir' hdir }

namespace Contents

lemma readable_or_not (contents : Contents) :
    (∃ entries : List Entry, contents = entries.map .ok) ∨
      ∃ (entries : List Entry) (reason : String) (rest : Contents),
        contents = entries.map .ok ++ .error reason :: rest := by
  induction contents with
  | nil => exact .inl ⟨[], rfl⟩
  | cons attempt contents ih =>
    cases attempt with
    | error reason => exact .inr ⟨[], reason, contents, rfl⟩
    | ok e =>
      rcases ih with ⟨entries, rfl⟩ | ⟨entries, reason, rest, rfl⟩
      · exact .inl ⟨e :: entries, rfl⟩
      · exact .inr ⟨e :: entries, reason, rest, rfl⟩

def unreadable (label reason : String) : IoFault := ⟨.read, s!"{label}: {reason}"⟩

lemma fetch_error (reason : String) :
    fetch label (.error reason) = .error (unreadable label reason) := rfl

variable (entries : List Entry) (reason : String) (rest : Contents)

lemma transformTogether_unreadable :
    transformTogether label decide (entries.map .ok ++ .error reason :: rest) =
      .error (unreadable label reason) := by
  have hread : (entries.map .ok ++ .error reason :: rest : Contents).mapM (fetch label) =
      .error (unreadable label reason) := by
    have hok : (entries.map .ok : Contents).mapM (fetch label) = .ok entries :=
      mapM_fetch_eq_ok_iff.2 rfl
    rw [List.mapM_append, hok, List.mapM_cons, fetch_error]
    rfl
  rw [transformTogether, hread]
  rfl

lemma transformInTurn_unreadable :
    transformInTurn label decide (entries.map .ok ++ .error reason :: rest) =
      .error (unreadable label reason) := by
  rw [transformInTurn]
  -- What has been written by then does not matter.
  generalize Transformed.empty = out
  induction entries generalizing out with
  | nil => rfl
  | cons e entries ih =>
    rw [List.map_cons, List.cons_append, List.foldlM_cons]
    change (if e.isDirectory then pure (put e none out)
      else pure (put e (some (decide e.name e.data)) out) : Except IoFault (Transformed α)) >>= _ = _
    split <;> exact ih _

theorem transform_unreadable (mode : ReadMode) :
    transform label decide mode (entries.map .ok ++ .error reason :: rest) =
      .error (unreadable label reason) := by
  cases mode with
  | inMemory => exact transformTogether_unreadable entries reason rest
  | streaming => exact transformInTurn_unreadable entries reason rest

lemma transform_readable (mode : ReadMode) :
    transform label decide mode (entries.map .ok) = .ok (putAll decide entries .empty) :=
  transform_eq_ok_iff.2 ⟨entries, rfl, rfl⟩

lemma transform_mode (mode mode' : ReadMode) (contents : Contents) :
    contents.transform label decide mode = contents.transform label decide mode' := by
  obtain ⟨entries, rfl⟩ | ⟨entries, reason, rest, rfl⟩ := contents.readable_or_not
  · rw [transform_readable, transform_readable]
  · rw [transform_unreadable, transform_unreadable]

end Contents

/-- It does not matter how an archive is read: its bytes come to the same fault, or to the same bytes
and details. Its entries come to the fault of the first of them that cannot be read; if there is none,
each of them is written in its place and of its kind, with the contents that were decided on or its
own, and each file has its detail, in the order of the archive. -/
theorem transform_agrees (label : String) (decide : String → Bytes → Decision α) :
    (∀ mode mode' bytes,
      transformBytes label decide mode bytes = transformBytes label decide mode' bytes) ∧
    ∀ contents : Contents,
      (∃ (entries : List Entry) (reason : String) (rest : Contents),
        contents = entries.map .ok ++ .error reason :: rest ∧
          ∀ mode, contents.transform label decide mode =
            .error (Contents.unreadable label reason)) ∨
      ∃ (entries : List Entry) (out : Transformed α), contents = entries.map .ok ∧
        (∀ mode, contents.transform label decide mode = .ok out) ∧
        List.Forall₂ (Entry.Becomes decide) entries out.entries.toList ∧
        out.details.toList = (entries.filter (!·.isDirectory)).map fun e =>
          (e.name, (decide e.name e.data).detail) := by
  constructor
  · intro mode mode' bytes
    unfold transformBytes
    congr 1
    funext contents
    rw [Contents.transform_mode mode mode']
  · intro contents
    obtain ⟨entries, rfl⟩ | ⟨entries, reason, rest, rfl⟩ := contents.readable_or_not
    · refine .inr ⟨entries, _, rfl, Contents.transform_readable entries, ?_, ?_⟩
      · rw [Contents.entries_putAll]
        change List.Forall₂ _ entries (entries.map (Entry.decided decide))
        rw [List.forall₂_map_right_iff, List.forall₂_same]
        exact fun e _ => e.becomes_decided
      · rw [Contents.details_putAll]
        rfl
    · exact .inl ⟨entries, reason, rest, rfl, Contents.transform_unreadable entries reason rest⟩

end ClassWeaver
