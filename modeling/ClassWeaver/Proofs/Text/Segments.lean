import Mathlib.Data.List.Chain
import Mathlib.Data.List.Infix
import ClassWeaver.Proofs.Files.Places

namespace ClassWeaver

def IsSegmented (cs : List Char) : Prop :=
  ∃ segments : List (List Char), segments ≠ [] ∧
    (∀ segment ∈ segments, segment ≠ [] ∧ '/' ∉ segment) ∧ cs = Path.join segments

namespace Path

lemma join_append {ps qs : List (List Char)} (hps : ps ≠ []) (hqs : qs ≠ []) :
    join (ps ++ qs) = join ps ++ '/' :: join qs := by
  induction ps with
  | nil => exact absurd rfl hps
  | cons p ps ih =>
    cases ps with
    | nil =>
      obtain ⟨q, qs, rfl⟩ := List.exists_cons_of_ne_nil hqs
      simp [join]
    | cons p' ps =>
      have hjoin := ih (List.cons_ne_nil _ _)
      simp only [join, List.cons_append, List.intercalate_cons_cons] at hjoin ⊢
      rw [hjoin]
      simp

lemma pieces_join {ps : List (List Char)} (hne : ps ≠ []) (h : ∀ p ∈ ps, '/' ∉ p) :
    pieces (join ps) = ps := by
  induction ps with
  | nil => exact absurd rfl hne
  | cons p ps ih =>
    rw [List.forall_mem_cons] at h
    cases ps with
    | nil =>
      rw [show join [p] = p by simp [join]]
      exact pieces_of_not_mem h.1
    | cons p' ps =>
      have hjoin : join (p :: p' :: ps) = p ++ '/' :: join (p' :: ps) := by simp [join]
      rw [hjoin, pieces_append, pieces_of_not_mem h.1, ih (List.cons_ne_nil _ _) h.2]
      rfl

lemma eq_nil_of_pieces {cs p : List Char} {ps : List (List Char)} (h : pieces cs = p :: ps) :
    p = [] ↔ cs = [] ∨ cs.head? = some '/' := by
  cases cs with
  | nil =>
    cases h
    simp
  | cons c cs =>
    rw [pieces_cons] at h
    split at h
    · next hc =>
      cases h
      simp [hc]
    · next hc =>
      cases hps : pieces cs with
      | nil => exact absurd hps (pieces_ne_nil cs)
      | cons q qs =>
        rw [hps] at h
        cases h
        simp [hc]

end Path

open ClassWeaver.Path

variable {cs ds : List Char}

lemma isSegmented_iff_pieces : IsSegmented cs ↔ [] ∉ pieces cs := by
  constructor
  · rintro ⟨segments, hne, h, rfl⟩ hmem
    rw [pieces_join hne fun p hp => (h p hp).2] at hmem
    exact (h [] hmem).1 rfl
  · intro h
    refine ⟨pieces cs, pieces_ne_nil cs, fun p hp => ⟨fun hnil => h (hnil ▸ hp), ?_⟩,
      (join_pieces cs).symm⟩
    exact not_mem_of_mem_pieces hp

lemma isSegmented_append_iff :
    IsSegmented (cs ++ '/' :: ds) ↔ IsSegmented cs ∧ IsSegmented ds := by
  rw [isSegmented_iff_pieces, isSegmented_iff_pieces, isSegmented_iff_pieces, pieces_append,
    List.mem_append, not_or]

lemma nil_notMem_of_pieces {p : List Char} {ps : List (List Char)} (h : pieces cs = p :: ps) :
    [] ∉ ps ↔ cs.getLast? ≠ some '/' ∧ cs.IsChain fun c d => ¬ (c = '/' ∧ d = '/') := by
  induction cs generalizing p ps with
  | nil =>
    cases h
    simp
  | cons c cs ih =>
    obtain ⟨q, qs, hqs⟩ := List.exists_cons_of_ne_nil (pieces_ne_nil cs)
    have hq := eq_nil_of_pieces hqs
    rw [pieces_cons, hqs] at h
    rw [List.isChain_cons]
    by_cases hc : c = '/'
    · rw [if_pos hc] at h
      cases h
      rw [List.mem_cons, not_or, ih hqs, eq_comm, hq]
      cases cs <;> simp [hc, and_left_comm]
    · rw [if_neg hc] at h
      cases h
      rw [ih hqs]
      cases cs <;> simp [hc]

lemma isSegmented_iff : IsSegmented cs ↔ cs ≠ [] ∧ cs.head? ≠ some '/' ∧ cs.getLast? ≠ some '/' ∧
    cs.IsChain fun c d => ¬ (c = '/' ∧ d = '/') := by
  obtain ⟨p, ps, hps⟩ := List.exists_cons_of_ne_nil (pieces_ne_nil cs)
  rw [isSegmented_iff_pieces, hps, List.mem_cons, not_or, nil_notMem_of_pieces hps, eq_comm,
    eq_nil_of_pieces hps, not_or, and_assoc]

structure IsPlainSegment (segment : List Char) : Prop where
  ne_nil : segment ≠ []
  noSlash : '/' ∉ segment
  noDot : '.' ∉ segment

instance (segment : List Char) : Decidable (IsPlainSegment segment) :=
  decidable_of_iff (segment ≠ [] ∧ '/' ∉ segment ∧ '.' ∉ segment)
    ⟨fun h => ⟨h.1, h.2.1, h.2.2⟩, fun h => ⟨h.ne_nil, h.noSlash, h.noDot⟩⟩

namespace Path

variable {p : List Char} {ps : List (List Char)}

lemma isIdle_of_plain (h : IsPlainSegment p) : isIdle p = false := by
  have hdot : p ≠ ['.'] := fun hp => h.noDot (hp ▸ List.mem_cons_self)
  simp [isIdle, h.ne_nil, hdot]

lemma dropWhile_isIdle (h : ∀ p ∈ ps, IsPlainSegment p) : ps.dropWhile isIdle = ps := by
  cases ps with
  | nil => rfl
  | cons p ps =>
    exact List.dropWhile_cons_of_neg (by simp [isIdle_of_plain (h p List.mem_cons_self)])

lemma exists_join_eq_cons (hne : ps ≠ []) (h : ∀ p ∈ ps, IsPlainSegment p) :
    ∃ c cs, join ps = c :: cs ∧ c ≠ '/' ∧ c ≠ '.' := by
  obtain ⟨p, qs, rfl⟩ := List.exists_cons_of_ne_nil hne
  have hp := h p List.mem_cons_self
  obtain ⟨c, cs, rfl⟩ := List.exists_cons_of_ne_nil hp.ne_nil
  obtain ⟨rest, hrest⟩ : ∃ rest, join ((c :: cs) :: qs) = c :: rest := by
    cases qs with
    | nil => exact ⟨cs, by simp [join]⟩
    | cons q qs => exact ⟨cs ++ '/' :: join (q :: qs), by simp [join]⟩
  exact ⟨c, rest, hrest, fun hc => hp.noSlash (hc ▸ List.mem_cons_self),
    fun hc => hp.noDot (hc ▸ List.mem_cons_self)⟩

lemma split_join (hne : ps ≠ []) (h : ∀ p ∈ ps, IsPlainSegment p) :
    split (join ps) = ([], join ps) := by
  obtain ⟨c, cs, hjoin, hslash, hdot⟩ := exists_join_eq_cons hne h
  rw [hjoin]
  unfold split
  split <;> simp_all

lemma length_le_length_join (h : ∀ p ∈ ps, IsPlainSegment p) : ps.length ≤ (join ps).length := by
  induction ps with
  | nil => exact Nat.zero_le _
  | cons p ps ih =>
    rw [List.forall_mem_cons] at h
    have hp := List.length_pos_of_ne_nil h.1.ne_nil
    cases ps with
    | nil =>
      have hjoin : join [p] = p := by simp [join]
      rw [hjoin]
      exact hp
    | cons q ps =>
      have hjoin : join (p :: q :: ps) = p ++ '/' :: join (q :: ps) := by simp [join]
      have hlength := ih h.2
      rw [hjoin, List.length_append]
      simp only [List.length_cons] at hlength ⊢
      omega

lemma parent?_join (h : ∀ q ∈ ps ++ [p], IsPlainSegment q) :
    parent? (String.ofList (join (ps ++ [p]))) = some (String.ofList (join ps)) := by
  have hp := h p (List.mem_append_right ps List.mem_cons_self)
  have hps : ∀ q ∈ ps.reverse, IsPlainSegment q :=
    fun q hq => h q (List.mem_append_left _ (List.mem_reverse.1 hq))
  have hne : ps ++ [p] ≠ [] := by simp
  have hbackwards : backwards (join (ps ++ [p])) = p :: ps.reverse := by
    rw [backwards, pieces_join hne fun q hq => (h q hq).noSlash, List.reverse_concat]
    exact List.dropWhile_cons_of_neg (by simp [isIdle_of_plain hp])
  rw [parent?, String.toList_ofList, split_join hne h]
  dsimp only
  rw [hbackwards]
  dsimp only
  rw [dropWhile_isIdle hps, List.reverse_reverse]
  rfl

lemma go_join {n : Nat} (hn : ps.length ≤ n) (h : ∀ p ∈ ps, IsPlainSegment p) :
    ancestors.go n (String.ofList (join ps)) =
      (ps.inits.map fun front => String.ofList (join front)).reverse := by
  induction ps using List.reverseRecOn generalizing n with
  | nil => cases n <;> rfl
  | append_singleton ps p ih =>
    rw [List.length_append] at hn
    obtain ⟨n, rfl⟩ : ∃ m, n = m + 1 := ⟨n - 1, by simp at hn; omega⟩
    rw [ancestors.go, parent?_join h]
    dsimp only
    rw [ih (by simpa using hn) fun q hq => h q (List.mem_append_left _ hq), List.inits_append]
    simp

lemma ancestors_join (h : ∀ q ∈ ps ++ [p], IsPlainSegment q) :
    ancestors (String.ofList (join (ps ++ [p]))) = String.ofList (join (ps ++ [p])) ::
      (ps.inits.map fun front => String.ofList (join front)).reverse := by
  have hlength := length_le_length_join h
  rw [ancestors, go_join (by simpa using hlength) h, List.inits_append]
  simp

end Path

end ClassWeaver
