import ClassWeaver.Archive.File
import ClassWeaver.Proofs.Basic

namespace ClassWeaver

variable {α : Type} {label : String} {decide : String → Bytes → Decision α}

lemma retryRead_eq_ok_iff {attempt : Except String α} {a : α} :
    retryRead label (m := Id) attempt = (.ok a : Except IoFault α) ↔ attempt = .ok a := by
  cases attempt with
  | ok b =>
    have hfirst : retryRead label (m := Id) (.ok b) = (.ok b : Except IoFault α) := rfl
    rw [hfirst, Except.ok.injEq, Except.ok.injEq]
  | error reason => exact ⟨nofun, nofun⟩

def Entry.decided (decide : String → Bytes → Decision α) (e : Entry) : Entry :=
  e.written (decide e.name e.data).replacement

lemma Entry.written_of_isDirectory {e : Entry} (h : e.isDirectory = true)
    (replacement replacement' : Option Bytes) : e.written replacement = e.written replacement' := by
  rw [written, written, if_pos h, if_pos h]

namespace Contents

lemma entries_put (e : Entry) (out : Transformed α) :
    (put e (decision? decide e) out).entries = out.entries.push (e.decided decide) := by
  unfold decision?
  split
  · next hdir => rw [put, Entry.decided, Entry.written_of_isDirectory hdir]
  · rfl

def putAll (decide : String → Bytes → Decision α) (entries : List Entry) (out : Transformed α) :
    Transformed α :=
  entries.foldl (fun out e => put e (decision? decide e) out) out

lemma entries_putAll (entries : List Entry) (out : Transformed α) :
    (putAll decide entries out).entries.toList =
      out.entries.toList ++ entries.map (Entry.decided decide) := by
  induction entries generalizing out with
  | nil => simp [putAll]
  | cons e entries ih =>
    have hstep : putAll decide (e :: entries) out =
        putAll decide entries (put e (decision? decide e) out) := rfl
    rw [hstep, ih, entries_put]
    simp

lemma details_putAll (entries : List Entry) (out : Transformed α) :
    (putAll decide entries out).details.toList = out.details.toList ++
      (entries.filter (!·.isDirectory)).map fun e => (e.name, (decide e.name e.data).detail) := by
  induction entries generalizing out with
  | nil => simp [putAll]
  | cons e entries ih =>
    have hstep : putAll decide (e :: entries) out =
        putAll decide entries (put e (decision? decide e) out) := rfl
    rw [hstep, ih, decision?]
    cases hdir : e.isDirectory <;> simp [hdir, put]

lemma mapM_fetch_eq_ok_iff {contents : Contents} {entries : List Entry} :
    contents.mapM (fetch label) = .ok entries ↔ contents = entries.map .ok := by
  rw [mapM_eq_ok_iff, ← List.forall₂_eq_eq_eq, List.forall₂_map_right_iff]
  have hfetch : (fun attempt e => fetch label attempt = .ok e) =
      fun (attempt : Except String Entry) e => attempt = .ok e := by
    funext attempt e
    exact propext retryRead_eq_ok_iff
  rw [hfetch]

lemma transformTogether_eq_ok_iff {contents : Contents} {out : Transformed α} :
    contents.transformTogether label decide = .ok out ↔
      ∃ entries : List Entry, contents = entries.map .ok ∧ out = putAll decide entries .empty := by
  have hzip : ∀ (entries : List Entry) (start : Transformed α),
      (entries.zip (entries.map (decision? decide))).foldl
        (fun out x => put x.1 x.2 out) start = putAll decide entries start := by
    intro entries
    induction entries with
    | nil => exact fun _ => rfl
    | cons e entries ih => exact fun start => ih _
  rw [transformTogether, bind_eq_ok_iff]
  constructor
  · rintro ⟨entries, hentries, hout⟩
    cases hout
    exact ⟨entries, mapM_fetch_eq_ok_iff.1 hentries, hzip entries _⟩
  · rintro ⟨entries, hentries, rfl⟩
    exact ⟨entries, mapM_fetch_eq_ok_iff.2 hentries, congrArg Except.ok (hzip entries _)⟩

lemma transformInTurn_eq_ok_iff {contents : Contents} {out : Transformed α} :
    contents.transformInTurn label decide = .ok out ↔
      ∃ entries : List Entry, contents = entries.map .ok ∧ out = putAll decide entries .empty := by
  rw [transformInTurn]
  generalize Transformed.empty = start
  induction contents generalizing start with
  | nil =>
    rw [List.foldlM_nil]
    constructor
    · intro h
      cases h
      exact ⟨[], rfl, rfl⟩
    · rintro ⟨entries, hentries, rfl⟩
      obtain rfl : entries = [] := List.map_eq_nil_iff.1 hentries.symm
      rfl
  | cons attempt contents ih =>
    have hstep : ∀ e : Entry, (if e.isDirectory then return put e none start
        else return put e (some (decide e.name e.data)) start : Except IoFault (Transformed α)) =
          .ok (put e (decision? decide e) start) := by
      intro e
      unfold decision?
      split <;> rfl
    rw [List.foldlM_cons, bind_eq_ok_iff]
    constructor
    · rintro ⟨mid, hmid, hrest⟩
      obtain ⟨e, hfetch, hput⟩ := bind_eq_ok_iff.1 hmid
      obtain rfl := retryRead_eq_ok_iff.1 hfetch
      rw [hstep] at hput
      cases hput
      obtain ⟨entries, rfl, rfl⟩ := (ih _).1 hrest
      exact ⟨e :: entries, rfl, rfl⟩
    · rintro ⟨entries, hentries, rfl⟩
      obtain ⟨e, rest, rfl, rfl, rfl⟩ := List.map_eq_cons_iff.1 hentries.symm
      exact ⟨put e (decision? decide e) start,
        bind_eq_ok_iff.2 ⟨e, retryRead_eq_ok_iff.2 rfl, hstep e⟩, (ih _).2 ⟨rest, rfl, rfl⟩⟩

theorem transform_eq_ok_iff {mode : ReadMode} {contents : Contents} {out : Transformed α} :
    contents.transform label decide mode = .ok out ↔
      ∃ entries : List Entry, contents = entries.map .ok ∧ out = putAll decide entries .empty := by
  cases mode with
  | inMemory => exact transformTogether_eq_ok_iff
  | streaming => exact transformInTurn_eq_ok_iff

end Contents

theorem transformBytes_ok {mode : ReadMode} {bytes out : Bytes} {details : List (String × α)}
    (h : transformBytes label decide mode bytes = .ok (out, details)) :
    ∃ entries : List Entry, Zip.decode bytes = .ok (entries.map .ok) ∧
      out = Zip.encode (entries.map (Entry.decided decide)) ∧
      details = (entries.filter (!·.isDirectory)).map fun e =>
        (e.name, (decide e.name e.data).detail) := by
  obtain ⟨contents, hcontents, h⟩ := bind_eq_ok_iff.1 h
  obtain ⟨transformed, htransformed, h⟩ := bind_eq_ok_iff.1 h
  cases h
  obtain ⟨entries, rfl, rfl⟩ := Contents.transform_eq_ok_iff.1 htransformed
  refine ⟨entries, mapError_eq_ok_iff.1 (retryRead_eq_ok_iff.1 hcontents), ?_, ?_⟩
  · rw [Contents.entries_putAll]
    rfl
  · rw [Contents.details_putAll]
    rfl

end ClassWeaver
