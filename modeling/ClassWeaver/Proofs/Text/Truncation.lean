import ClassWeaver.Proofs.Basic
import ClassWeaver.Proofs.Text.ModifiedUtf8

/-! A text in the coding of class files is lost when its bytes are cut short, because what is left of
them stands for fewer units. -/

namespace ClassWeaver

def Utf16.count (cs : List Char) : Nat := total (fun c => (units c).length) cs

namespace ModifiedUtf8

open Utf16

/-! ### The units that bytes stand for -/

lemma unitsFrom_step (a : UInt8) (rest : Bytes) :
    ∃ u more, u < 0x10000 ∧ more.length ≤ rest.length ∧
      ∀ done, unitsFrom (a :: rest) done = unitsFrom more (u :: done) := by
  have htail : ∀ b, Utf8.tailBits b < 64 := fun b => Nat.mod_lt _ (by decide)
  by_cases h : a < 0x80
  · have hlt := a.toNat_lt
    exact ⟨a.toNat, rest, by omega, Nat.le_refl _, fun done => unitsFrom_one h⟩
  by_cases h2 : 0xC0 ≤ a ∧ a < 0xE0
  · cases rest with
    | nil =>
      refine ⟨0xFFFD, [], by decide, Nat.le_refl _, fun done => ?_⟩
      rw [unitsFrom.eq_def]
      simp [h, h2, unitsFrom]
    | cons b rest =>
      have hlt := htail b
      exact ⟨_, rest, by omega, Nat.le_succ _, fun done => unitsFrom_two h h2.1 h2.2⟩
  by_cases h3 : 0xE0 ≤ a ∧ a < 0xF0
  · rcases rest with _ | ⟨b, _ | ⟨c, rest⟩⟩
    case cons.cons =>
      have hlt := htail b
      have hlt' := htail c
      exact ⟨_, rest, by omega, by simp only [List.length_cons]; omega,
        fun done => unitsFrom_three h (UInt8.not_lt.2 h3.1) h3.2⟩
    all_goals
      refine ⟨0xFFFD, _, by decide, Nat.le_refl _, fun done => ?_⟩
      rw [unitsFrom.eq_def]
      simp [h, h2, h3]
  · refine ⟨0xFFFD, rest, by decide, Nat.le_refl _, fun done => ?_⟩
    rw [unitsFrom.eq_def]
    simp [h, h2, h3]

@[elab_as_elim]
lemma units_induction {motive : Bytes → Prop} (nil : motive [])
    (step : ∀ bs u more, u < 0x10000 → more.length < bs.length →
      (∀ done, unitsFrom bs done = unitsFrom more (u :: done)) → motive more → motive bs)
    (bs : Bytes) : motive bs := by
  induction hn : bs.length using Nat.strongRecOn generalizing bs with
  | _ n ih =>
    subst hn
    cases bs with
    | nil => exact nil
    | cons a rest =>
      obtain ⟨u, more, hu, hlen, htake⟩ := unitsFrom_step a rest
      have hlt : more.length < (a :: rest).length := Nat.lt_succ_of_le hlen
      exact step _ u more hu hlt htake (ih _ hlt more rfl)

lemma unitsFrom_append (bs : Bytes) (done more : List Nat) :
    unitsFrom bs (done ++ more) = more.reverse ++ unitsFrom bs done := by
  induction bs using units_induction generalizing done with
  | nil => simp [unitsFrom]
  | step bs u rest hu hlen htake ih => rw [htake, htake, ← List.cons_append, ih]

lemma length_unitsFrom (bs : Bytes) (done : List Nat) :
    (unitsFrom bs done).length = done.length + (unitsFrom bs []).length := by
  have h := unitsFrom_append bs [] done
  rw [List.nil_append] at h
  rw [h, List.length_append, List.length_reverse]

lemma length_unitsFrom_le (bs : Bytes) (done : List Nat) :
    (unitsFrom bs done).length ≤ done.length + bs.length := by
  induction bs using units_induction generalizing done with
  | nil => simp [unitsFrom]
  | step bs u rest hu hlen htake ih =>
    have hrest := ih (u :: done)
    rw [List.length_cons] at hrest
    rw [htake]
    omega

lemma unitsFrom_lt (bs : Bytes) {done : List Nat} (h : ∀ u ∈ done, u < 0x10000) :
    ∀ u ∈ unitsFrom bs done, u < 0x10000 := by
  induction bs using units_induction generalizing done with
  | nil => simpa [unitsFrom] using h
  | step bs u rest hu hlen htake ih =>
    rw [htake]
    exact ih (List.forall_mem_cons.2 ⟨hu, h⟩)

lemma length_encodeUnit_le (u : Nat) : (encodeUnit u).length ≤ 3 := by
  unfold encodeUnit
  split
  · simp
  · split <;> simp

lemma length_flatMap_encodeUnit_le (us : List Nat) :
    (us.flatMap encodeUnit).length ≤ 3 * us.length := by
  induction us with
  | nil => exact Nat.zero_le _
  | cons u us ih =>
    have hle := length_encodeUnit_le u
    rw [List.flatMap_cons, List.length_append, List.length_cons]
    omega

lemma length_unitsFrom_take {us : List Nat} (hu : ∀ u ∈ us, u < 0x10000) (n : Nat) :
    3 * (unitsFrom ((us.flatMap encodeUnit).take n) []).length +
      ((us.flatMap encodeUnit).length - n) ≤ 3 * us.length + 4 := by
  induction us generalizing n with
  | nil => simp [unitsFrom]
  | cons u us ih =>
    rw [List.forall_mem_cons] at hu
    rw [List.flatMap_cons, List.length_append, List.length_cons]
    -- the cut goes through this unit, or through what follows it
    by_cases hn : n < (encodeUnit u).length
    · have hunit := length_encodeUnit_le u
      have hrest := length_flatMap_encodeUnit_le us
      have hcut := length_unitsFrom_le ((encodeUnit u ++ us.flatMap encodeUnit).take n) []
      rw [List.length_take, List.length_append, List.length_nil] at hcut
      omega
    · have hsplit : (encodeUnit u ++ us.flatMap encodeUnit).take n =
          encodeUnit u ++ (us.flatMap encodeUnit).take (n - (encodeUnit u).length) := by
        rw [List.take_append, List.take_of_length_le (by omega)]
      have hrest := ih hu.2 (n - (encodeUnit u).length)
      rw [hsplit, unitsFrom_encodeUnit hu.1, length_unitsFrom, List.length_singleton]
      omega

/-! ### The units of what is read -/

lemma length_units_le (c : Char) : (units c).length ≤ 2 := by
  unfold units
  split <;> simp

lemma length_units_ofNat {n : Nat} (hn : n < 0x10000) : (units (Char.ofNat n)).length = 1 := by
  have hlt : (Char.ofNat n).toNat < 0x10000 := by
    by_cases hvalid : n.isValidChar
    · rw [Char.ofNat, dif_pos hvalid]
      exact hn
    · rw [Char.ofNat, dif_neg hvalid]
      decide
  rw [units, if_pos hlt]
  rfl

lemma count_decodeFrom {us : List Nat} {done : List Char} (hu : ∀ u ∈ us, u < 0x10000) :
    count (Utf16.decodeFrom us done) ≤ count done + us.length := by
  have hmark : (units Utf8.replacement).length = 1 := length_units_ofNat (by decide)
  fun_induction Utf16.decodeFrom us done with
  | case1 done => simp [count]
  | case2 u done hhigh v rest hlow ih =>
    have hpair := length_units_le (Char.ofNat (0x10000 + (u - 0xD800) * 1024 + (v - 0xDC00)))
    rw [List.forall_mem_cons, List.forall_mem_cons] at hu
    have hrest := ih hu.2.2
    simp only [count, total_cons, List.length_cons] at hrest ⊢
    omega
  | case3 u done hhigh v rest hlow ih | case5 u rest done hhigh hlow ih =>
    rw [List.forall_mem_cons] at hu
    have hrest := ih hu.2
    simp only [count, total_cons, List.length_cons, hmark] at hrest ⊢
    omega
  | case4 u done hhigh =>
    simp only [count, total_reverse, total_cons, List.length_singleton, hmark]
    omega
  | case6 u rest done hhigh hlow ih =>
    rw [List.forall_mem_cons] at hu
    have hone := length_units_ofNat hu.1
    have hrest := ih hu.2
    simp only [count, total_cons, List.length_cons, hone] at hrest ⊢
    omega

lemma unitsFrom_stray {a : UInt8} (h : ¬ a < 0x80) (hstray : a < 0xC0 ∨ 0xF0 ≤ a) (rest : Bytes)
    (done : List Nat) : unitsFrom (a :: rest) done = unitsFrom rest (0xFFFD :: done) := by
  have htwo : ¬ (0xC0 ≤ a ∧ a < 0xE0) := by grind
  have hthree : ¬ (0xE0 ≤ a ∧ a < 0xF0) := by grind
  rw [unitsFrom.eq_def]
  simp [h, htwo, hthree]

lemma unitsFrom_tail {b : UInt8} (h : Utf8.isTail b = true) (rest : Bytes) (done : List Nat) :
    unitsFrom (b :: rest) done = unitsFrom rest (0xFFFD :: done) := by
  rw [Utf8.isTail, Bool.and_eq_true, decide_eq_true_eq, decide_eq_true_eq] at h
  exact unitsFrom_stray (UInt8.not_lt.2 h.1) (.inl h.2) rest done

lemma count_utf8 {bs : Bytes} {done xs : List Char} (h : Utf8.decodeFrom bs done = some xs) :
    count xs ≤ count done + (unitsFrom bs []).length := by
  have htail : ∀ b, Utf8.tailBits b < 64 := fun b => Nat.mod_lt _ (by decide)
  fun_induction Utf8.decodeFrom bs done with
  | case1 done =>
    cases h
    simp [count]
  | case2 a rest done ha ih =>
    have hlt := a.toNat_lt
    have hone := length_units_ofNat (n := a.toNat) (by omega)
    have hrest := ih h
    rw [unitsFrom_one ha, length_unitsFrom]
    simp only [count, total_cons, hone, List.length_singleton] at hrest ⊢
    omega
  | case3 a done ha ha' b rest n hn ih =>
    have hlt := htail b
    have hone := length_units_ofNat (n := n) (by omega)
    have hlead : 0xC0 ≤ a := by
      rw [Bool.and_eq_true, Bool.and_eq_true] at hn
      exact of_decide_eq_true hn.1.1
    have hrest := ih h
    rw [unitsFrom_two ha hlead ha', length_unitsFrom]
    simp only [count, total_cons, hone, List.length_singleton] at hrest ⊢
    omega
  | case6 a done ha ha' ha'' b c rest n hn ih =>
    have hlt := htail b
    have hlt' := htail c
    have hone := length_units_ofNat (n := n) (by omega)
    have hrest := ih h
    rw [unitsFrom_three ha ha' ha'', length_unitsFrom]
    simp only [count, total_cons, hone, List.length_singleton] at hrest ⊢
    omega
  | case9 a done ha ha' ha'' b c d rest n hn ih =>
    simp only [Bool.and_eq_true] at hn
    obtain ⟨⟨⟨⟨⟨-, hb⟩, hc⟩, hd⟩, -⟩, -⟩ := hn
    have hpair := length_units_le (Char.ofNat n)
    have hrest := ih h
    -- the character has two units, and each of its four bytes is read alone
    rw [unitsFrom_stray ha (.inr (UInt8.not_lt.1 ha'')), unitsFrom_tail hb, unitsFrom_tail hc,
      unitsFrom_tail hd, length_unitsFrom]
    simp only [count, total_cons, List.length_cons] at hrest ⊢
    omega
  | _ => cases h

lemma count_decode (bs : Bytes) : count (decode bs).toList ≤ (unitsFrom bs []).length := by
  unfold decode
  cases h : Utf8.decode? bs with
  | none =>
    have hcount : count (Utf16.decodeFrom (unitsFrom bs []) []) ≤
        count [] + (unitsFrom bs []).length :=
      count_decodeFrom (unitsFrom_lt bs (List.forall_mem_nil _))
    rw [Option.getD_none, decodeUnits, String.toList_ofList]
    simpa [count] using hcount
  | some text =>
    obtain ⟨cs, hcs, rfl⟩ := Option.map_eq_some_iff.1 h
    have hcount := count_utf8 hcs
    rw [Option.getD_some, String.toList_ofList]
    simpa [count] using hcount

lemma count_eq (cs : List Char) : count cs = (cs.flatMap units).length := by
  induction cs with
  | nil => rfl
  | cons c cs ih => rw [List.flatMap_cons, List.length_append, ← ih, count, count, total_cons]

/-- A text that has lost more than four of its bytes is another text. -/
theorem decode_take_ne {text : String} {n : Nat} (h : n + 4 < (encode text).length) :
    decode ((encode text).take n) ≠ text := by
  intro hsame
  have hunits := flatMap_units_lt text.toList
  have hread := count_decode ((encode text).take n)
  have hcut := length_unitsFrom_take hunits n
  rw [hsame, count_eq] at hread
  rw [← encode_eq] at hcut
  omega

end ModifiedUtf8

end ClassWeaver
