import Mathlib.Data.List.Perm.Basic
import Mathlib.Data.String.Basic
import ClassWeaver.Proofs.Text.JsonShapes
import ClassWeaver.Proofs.Text.Utf8
import ClassWeaver.State.Store

namespace ClassWeaver

open Decode

namespace UnitRecord

def Storable (r : UnitRecord) : Prop := r.lastModified < 0x10000000000000000

lemma fits_toJson {r : UnitRecord} (h : r.Storable) : r.toJson.Fits Draft.maxDepth := by
  have hmodified : (Json.nat r.lastModified).Fits 126 :=
    ⟨Int.natCast_nonneg _, by unfold Storable at h; omega⟩
  have hrules : (Json.strings r.rules).Fits 126 :=
    Json.fitsItems_map fun _ _ => by simp [Json.Fits]
  simp [toJson, Draft.maxDepth, Json.Fits, Json.FitsMembers, hmodified, hrules]

lemma decode_toJson (r : UnitRecord) : decode r.toJson.draft = .ok r := by
  have houtcome : UnitOutcome.decode (.string r.outcome.word) = .ok r.outcome := by
    cases r.outcome <;> rfl
  have hmodified : natural (.int r.lastModified) = .ok r.lastModified := by
    simp [natural]
  have hrules := list_strings r.rules
  have hfields := openFields_record
    (.cons (Part.fits_string "key" true r.key)
      (.cons (Part.fits_string "contentHash" true r.contentHash)
        (.cons (Part.fits_of_ok "outcome" true houtcome)
          (.cons (Part.fits_string "output" true r.output)
            (.cons (Part.fits_of_ok "lastModified" true hmodified)
              (.cons (Part.fits_of_ok "rules" false hrules) .nil))))))
    (by decide)
  unfold decode
  rw [toJson, Json.draft]
  dsimp only [Json.draftMembers, Json.draft, Json.nat]
  rw [hfields]
  simp only [bind, Except.bind]
  rw [Fields.get_eq "key" string rfl rfl]
  dsimp only
  rw [Fields.get_eq "contentHash" string rfl rfl]
  dsimp only
  rw [Fields.get_eq "outcome" _ rfl houtcome]
  dsimp only
  rw [Fields.get_eq "output" string rfl rfl]
  dsimp only
  rw [Fields.get_eq "lastModified" _ rfl hmodified]
  dsimp only
  rw [Fields.getD_eq "rules" _ rfl hrules]
  rfl

theorem parse_toJson {r : UnitRecord} (h : r.Storable) : parse r.toJson.compact = .ok r := by
  rw [parse, Decode.parse_compact (fits_toJson h), decode_toJson]

end UnitRecord

namespace StateStore

lemma fits_toJson (store : StateStore) : store.toJson.Fits Draft.maxDepth := by
  have hrows : Json.FitsItems 125 (store.rows.map rowToJson) :=
    Json.fitsItems_map fun row _ => by simp [rowToJson, Json.Fits, Json.FitsMembers]
  have htext : ∀ text : Option String, (Json.ofOption .string text).Fits 126 :=
    Json.fits_ofOption fun _ => by simp [Json.Fits]
  simp [toJson, Draft.maxDepth, Json.Fits, Json.FitsMembers, htext, hrows]

lemma optional_ofOption (text : Option String) :
    optional string (Json.ofOption .string text).draft = .ok text := by
  cases text <;> rfl

lemma decodeRow_rowToJson (row : String × String) : decodeRow (rowToJson row).draft = .ok row := by
  have hfields := fields_record
    (.cons (Part.fits_string "key" true row.1) (.cons (Part.fits_string "text" true row.2) .nil))
    (by decide)
  unfold decodeRow
  rw [rowToJson, Json.draft]
  dsimp only [Json.draftMembers, Json.draft]
  rw [hfields]
  rfl

lemma decodeJson_toJson (store : StateStore) : decodeJson store.toJson.draft = .ok store := by
  have hrows : list decodeRow (Json.list (store.rows.map rowToJson)).draft = .ok store.rows := by
    have h := list_draft (g := id) fun row (_ : row ∈ store.rows) => decodeRow_rowToJson row
    rwa [List.map_id] at h
  have hformat := optional_ofOption store.format
  have hfingerprint := optional_ofOption store.fingerprint
  have hfields := fields_record
    (.cons (Part.fits_of_ok "format" true hformat)
      (.cons (Part.fits_of_ok "fingerprint" true hfingerprint)
        (.cons (Part.fits_of_ok "rows" true hrows) .nil))) (by decide)
  unfold decodeJson
  rw [toJson, Json.draft]
  dsimp only [Json.draftMembers]
  rw [hfields]
  simp only [bind, Except.bind]
  rw [Fields.get_eq "format" _ rfl hformat]
  dsimp only
  rw [Fields.get_eq "fingerprint" _ rfl hfingerprint]
  dsimp only
  rw [Fields.get_eq "rows" _ rfl hrows]
  rfl

/-- No document is without any text, so that what is written is not taken for an empty store. -/
lemma encode_ne_nil (store : StateStore) : store.encode ≠ [] := by
  intro h
  have htext := Utf8.encode_injective (h.trans (by simp [Utf8.encode] : [] = Utf8.encode ""))
  have hparse : Decode.parse decodeJson store.toJson.compact = decodeJson store.toJson.draft :=
    Decode.parse_compact (fits_toJson store)
  have hempty : Draft.parse "" = ⟨.broken .ended, none⟩ := by
    simp [Draft.parse, Draft.value, Draft.skipBlanks]
  rw [htext, decodeJson_toJson, Decode.parse, hempty] at hparse
  cases hparse

theorem decode?_encode (store : StateStore) : decode? store.encode = some store := by
  have hne := encode_ne_nil store
  rw [decode?, if_neg (by simpa using hne), encode, Utf8.decode?_encode]
  dsimp only
  rw [Decode.parse_compact (fits_toJson store), decodeJson_toJson]
  rfl

end StateStore

namespace Snapshot

def Ordered (s : Snapshot) : Prop := s.records.Pairwise fun r r' => r.key < r'.key

lemma mem_of_mem_insertInto {r r' : UnitRecord} {rs : List UnitRecord}
    (h : r' ∈ insertInto r rs) : r' = r ∨ r' ∈ rs := by
  induction rs with
  | nil => exact .inl (List.mem_singleton.1 h)
  | cons x rs ih =>
    rw [insertInto] at h
    split at h
    · exact List.mem_cons.1 h
    split at h
    · exact (List.mem_cons.1 h).imp_right (List.mem_cons_of_mem x)
    · rcases List.mem_cons.1 h with rfl | h
      · exact .inr List.mem_cons_self
      · exact (ih h).imp_right (List.mem_cons_of_mem x)

lemma ordered_insert {s : Snapshot} (h : s.Ordered) (r : UnitRecord) : (s.insert r).Ordered := by
  unfold Ordered insert at *
  dsimp only
  generalize s.records = rs at h
  induction h with
  | nil => exact List.pairwise_singleton _ r
  | @cons x rs hx hrs ih =>
    rw [insertInto]
    split
    · next hlt =>
      refine .cons (fun y hy => ?_) (.cons hx hrs)
      rcases List.mem_cons.1 hy with rfl | hy
      · exact hlt
      · exact hlt.trans (hx y hy)
    split
    · next heq => exact .cons (fun y hy => heq ▸ hx y hy) hrs
    · next hlt hne =>
      refine .cons (fun y hy => ?_) ih
      rcases mem_of_mem_insertInto hy with rfl | hy
      · exact lt_of_le_of_ne (not_lt.1 hlt) (Ne.symm hne)
      · exact hx y hy

lemma perm_insert {s : Snapshot} {r : UnitRecord} (h : ∀ r' ∈ s.records, r'.key ≠ r.key) :
    (s.insert r).records.Perm (r :: s.records) := by
  unfold insert
  dsimp only
  generalize s.records = rs at h
  induction rs with
  | nil => exact .refl _
  | cons x rs ih =>
    rw [List.forall_mem_cons] at h
    rw [insertInto]
    split
    · exact .refl _
    · rw [if_neg (Ne.symm h.1)]
      exact ((ih h.2).cons x).trans (.swap r x rs)

lemma ordered_foldl {s : Snapshot} (h : s.Ordered) (rs : List UnitRecord) :
    (rs.foldl insert s).Ordered := by
  induction rs generalizing s with
  | nil => exact h
  | cons r rs ih => exact ih (ordered_insert h r)

lemma fingerprint_foldl (s : Snapshot) (rs : List UnitRecord) :
    (rs.foldl insert s).fingerprint = s.fingerprint := by
  induction rs generalizing s with
  | nil => rfl
  | cons r rs ih => exact ih (s.insert r)

lemma perm_foldl {s : Snapshot} {rs : List UnitRecord}
    (h : (s.records ++ rs).Pairwise fun r r' => r.key ≠ r'.key) :
    (rs.foldl insert s).records.Perm (s.records ++ rs) := by
  induction rs generalizing s with
  | nil => simp
  | cons r rs ih =>
    have hkeys : ∀ r' ∈ s.records, r'.key ≠ r.key :=
      fun r' hr' => (List.pairwise_append.1 h).2.2 r' hr' r List.mem_cons_self
    have hperm : ((s.insert r).records ++ rs).Perm (s.records ++ r :: rs) :=
      ((perm_insert hkeys).append_right rs).trans List.perm_middle.symm
    have hpair : ((s.insert r).records ++ rs).Pairwise fun r r' => r.key ≠ r'.key :=
      (hperm.pairwise_iff fun hne => hne.symm).2 h
    exact (ih hpair).trans hperm

lemma Ordered.eq_of_perm {s s' : Snapshot} (h : s.Ordered) (h' : s'.Ordered)
    (hfingerprint : s.fingerprint = s'.fingerprint) (hperm : s.records.Perm s'.records) :
    s = s' := by
  obtain ⟨f, rs⟩ := s
  obtain ⟨f', rs'⟩ := s'
  obtain rfl : f = f' := hfingerprint
  congr 1
  exact hperm.eq_of_pairwise (fun a b _ _ hab hba => absurd hba hab.asymm) h h'

lemma Ordered.pairwise_ne {s : Snapshot} (h : s.Ordered) :
    s.records.Pairwise fun r r' => r.key ≠ r'.key := h.imp fun hlt => hlt.ne

end Snapshot

namespace StateStore

lemma perm_insertRow {key text : String} {rows : List (String × String)}
    (h : ∀ row ∈ rows, row.1 ≠ key) : (insertRow key text rows).Perm ((key, text) :: rows) := by
  induction rows with
  | nil => exact .refl _
  | cons row rows ih =>
    rw [List.forall_mem_cons] at h
    rw [insertRow]
    split
    · exact .refl _
    · rw [if_neg (Ne.symm h.1)]
      exact ((ih h.2).cons row).trans (.swap _ row rows)

def rowOf (r : UnitRecord) : String × String := (rowKey r.key, r.toJson.compact)

lemma perm_foldl_insertRow (rows : List (String × String)) {rs : List UnitRecord}
    (h : (rows ++ rs.map rowOf).Pairwise fun row row' => row.1 ≠ row'.1) :
    (rs.foldl (fun rows r => insertRow (rowKey r.key) r.toJson.compact rows) rows).Perm
      (rows ++ rs.map rowOf) := by
  induction rs generalizing rows with
  | nil => simp
  | cons r rs ih =>
    have hkeys : ∀ row ∈ rows, row.1 ≠ rowKey r.key :=
      fun row hrow => (List.pairwise_append.1 h).2.2 row hrow (rowOf r) List.mem_cons_self
    have hperm : (insertRow (rowKey r.key) r.toJson.compact rows ++ rs.map rowOf).Perm
        (rows ++ (r :: rs).map rowOf) :=
      ((perm_insertRow hkeys).append_right _).trans List.perm_middle.symm
    exact (ih _ ((hperm.pairwise_iff fun hne => hne.symm).2 h)).trans hperm

lemma loadRows_eq {rows : List (String × String)} {rs : List UnitRecord}
    (h : List.Forall₂ (fun row r => UnitRecord.parse row.2 = .ok r) rows rs) (s : Snapshot) :
    loadRows rows s = .ok (rs.foldl Snapshot.insert s) := by
  induction h generalizing s with
  | nil => rfl
  | cons hrow _ ih =>
    rw [loadRows, hrow]
    exact ih _

/-- A store of a snapshot gives the snapshot back, unless two of its keys have the same hash. -/
theorem load_ofSnapshot {s : Snapshot} (hs : s.Ordered) (hstorable : ∀ r ∈ s.records, r.Storable)
    (hkeys : ∀ r ∈ s.records, ∀ r' ∈ s.records, rowKey r.key = rowKey r'.key → r.key = r'.key) :
    (ofSnapshot s).load = .ok s := by
  have hdistinct : (s.records.map rowOf).Pairwise fun row row' => row.1 ≠ row'.1 := by
    rw [List.pairwise_map]
    exact hs.pairwise_ne.imp_of_mem fun hr hr' hne heq => hne (hkeys _ hr _ hr' heq)
  have hrows := perm_foldl_insertRow [] hdistinct
  rw [List.nil_append] at hrows
  have htexts : List.Forall₂ (fun row r => UnitRecord.parse row.2 = .ok r)
      (s.records.map rowOf) s.records := by
    rw [List.forall₂_map_left_iff, List.forall₂_same]
    exact fun r hr => UnitRecord.parse_toJson (hstorable r hr)
  -- the rows are in the order of the hashes, and so are the records that are read from them
  obtain ⟨rs, hparse, hrs⟩ := List.perm_comp_forall₂ hrows htexts
  have hload : (ofSnapshot s).load = .ok (rs.foldl Snapshot.insert ⟨s.fingerprint, []⟩) := by
    rw [load, ofSnapshot]
    dsimp only
    rw [if_pos rfl, loadRows_eq hparse]
  have hordered : (Snapshot.mk s.fingerprint []).Ordered := List.Pairwise.nil
  have hperm := Snapshot.perm_foldl (s := ⟨s.fingerprint, []⟩)
    ((hrs.pairwise_iff fun hne => hne.symm).2 hs.pairwise_ne)
  rw [hload, (Snapshot.ordered_foldl hordered rs).eq_of_perm hs (Snapshot.fingerprint_foldl _ rs)
    (hperm.trans hrs)]

end StateStore

end ClassWeaver
