import ClassWeaver.Code.Instruction
import ClassWeaver.Proofs.Basic

/-! Reading instructions is the inverse of writing them: what fits its opcode and its place reads
back, and whatever is read fits. A method's code is therefore a tiling by such instructions. -/

namespace ClassWeaver

namespace Switch

lemma readWord?_eq_some_iff {bs rest : Bytes} {w : Int32} :
    readWord? bs = some (w, rest) ↔ bs = encodeWord w ++ rest := by
  constructor
  · intro h
    unfold readWord? at h
    split at h
    · cases h
      rw [encodeWord, UInt32.toUInt32_toInt32, be32_ofBe32]
      rfl
    · cases h
  · rintro rfl
    rw [encodeWord, be32]
    simp only [List.cons_append, List.nil_append, readWord?, ofBe32_be32]
    rfl

def Consecutive : Int32 → List (Int32 × Int32) → Prop
  | _, [] => True
  | key, c :: rest => c.1 = key ∧ Consecutive (key + 1) rest

lemma readTargets?_eq_some_iff {n : Nat} {key : Int32} {bs rest : Bytes}
    {done cases : List (Int32 × Int32)} :
    readTargets? n key bs done = some (cases, rest) ↔
      ∃ tail, cases = done.reverse ++ tail ∧ tail.length = n ∧ Consecutive key tail ∧
        bs = (tail.flatMap fun c => encodeWord c.2) ++ rest := by
  induction n generalizing key bs done with
  | zero =>
    simp only [readTargets?, Option.some.injEq, Prod.mk.injEq, List.length_eq_zero_iff]
    constructor
    · rintro ⟨rfl, rfl⟩
      exact ⟨[], by simp, rfl, trivial, rfl⟩
    · rintro ⟨tail, rfl, rfl, -, rfl⟩
      simp
  | succ n ih =>
    simp only [readTargets?]
    constructor
    · intro h
      split at h
      · next target bs' hw =>
        obtain ⟨tail, rfl, hl, hc, rfl⟩ := ih.1 h
        rw [readWord?_eq_some_iff] at hw
        exact ⟨(key, target) :: tail, by simp, by simp [hl], ⟨rfl, hc⟩, by simp [hw]⟩
      · cases h
    · rintro ⟨tail, rfl, hl, hc, rfl⟩
      cases tail with
      | nil => cases hl
      | cons c tail =>
        obtain ⟨rfl, hc⟩ := hc
        have hw : readWord? (((c :: tail).flatMap fun c => encodeWord c.2) ++ rest) =
            some (c.2, (tail.flatMap fun c => encodeWord c.2) ++ rest) :=
          readWord?_eq_some_iff.2 (by simp)
        rw [hw]
        exact ih.2 ⟨tail, by simp, by simpa using hl, hc, rfl⟩

lemma readPairs?_eq_some_iff {n : Nat} {bs rest : Bytes} {done cases : List (Int32 × Int32)} :
    readPairs? n bs done = some (cases, rest) ↔
      ∃ tail, cases = done.reverse ++ tail ∧ tail.length = n ∧
        bs = (tail.flatMap fun c => encodeWord c.1 ++ encodeWord c.2) ++ rest := by
  induction n generalizing bs done with
  | zero =>
    simp only [readPairs?, Option.some.injEq, Prod.mk.injEq, List.length_eq_zero_iff]
    constructor
    · rintro ⟨rfl, rfl⟩
      exact ⟨[], by simp, rfl, rfl⟩
    · rintro ⟨tail, rfl, rfl, rfl⟩
      simp
  | succ n ih =>
    simp only [readPairs?]
    constructor
    · intro h
      split at h
      · next key bs' hw =>
        split at h
        · next target bs'' hw' =>
          obtain ⟨tail, rfl, hl, rfl⟩ := ih.1 h
          rw [readWord?_eq_some_iff] at hw hw'
          exact ⟨(key, target) :: tail, by simp, by simp [hl], by simp [hw, hw']⟩
        · cases h
      · cases h
    · rintro ⟨tail, rfl, hl, rfl⟩
      cases tail with
      | nil => cases hl
      | cons c tail =>
        have hw : readWord? (((c :: tail).flatMap fun c => encodeWord c.1 ++ encodeWord c.2) ++
            rest) = some (c.1, encodeWord c.2 ++
              ((tail.flatMap fun c => encodeWord c.1 ++ encodeWord c.2) ++ rest)) :=
          readWord?_eq_some_iff.2 (by simp)
        have hw' := readWord?_eq_some_iff.2 (rfl : encodeWord c.2 ++
          ((tail.flatMap fun c => encodeWord c.1 ++ encodeWord c.2) ++ rest) = _)
        rw [hw]
        simp only [hw']
        exact ih.2 ⟨tail, by simp, by simpa using hl, rfl⟩

def Fits (opcode : UInt8) (s : Switch) : Prop :=
  match s.low with
  | some low =>
    opcode = Opcode.tableswitch ∧ s.cases ≠ [] ∧ low.toInt + s.cases.length ≤ 2147483648 ∧
      Consecutive low s.cases
  | none => opcode ≠ Opcode.tableswitch ∧ s.cases.length < 2147483648

lemma toInt_high {low : Int32} {n : Nat} (hn : 0 < n) (h : low.toInt + n ≤ 2147483648) :
    (low + Int32.ofNat n - 1).toInt = low.toInt + n - 1 := by
  have hl := low.le_toInt
  rw [Int32.toInt_sub, Int32.toInt_add, Int32.toInt_ofNat', Int32.toInt_one]
  have hs : Int32.size = 2 ^ 32 := rfl
  rw [hs, Int.add_bmod_bmod, Int.sub_eq_add_neg, Int.bmod_add_bmod]
  rw [Int.bmod_eq_of_le] <;> omega

lemma high_eq {low high : Int32} (h : ¬ high < low) :
    low + Int32.ofNat (high.toInt - low.toInt + 1).toNat - 1 = high := by
  rw [Int32.lt_iff_toInt_lt] at h
  have hh := high.toInt_lt
  apply Int32.toInt.inj
  rw [toInt_high] <;> omega

lemma toInt_count {n : Nat} (h : n < 2147483648) : (Int32.ofNat n).toInt = n := by
  rw [Int32.toInt_ofNat_of_lt]
  omega

lemma count_eq {count : Int32} (h : ¬ count < 0) :
    Int32.ofNat count.toInt.toNat = count := by
  rw [Int32.lt_iff_toInt_lt, Int32.toInt_zero] at h
  have hc := count.toInt_lt
  apply Int32.toInt.inj
  rw [toInt_count] <;> omega

lemma length_encodeWord (w : Int32) : (encodeWord w).length = 4 := rfl

lemma length_spell (s : Switch) : s.spell.length = s.size := by
  have targets : ∀ cs : List (Int32 × Int32),
      (cs.flatMap fun c => encodeWord c.2).length = 4 * cs.length := by
    intro cs
    induction cs with
    | nil => rfl
    | cons c cs ih =>
      simp only [List.flatMap_cons, List.length_append, List.length_cons, ih, length_encodeWord]
      omega
  have pairs : ∀ cs : List (Int32 × Int32),
      (cs.flatMap fun c => encodeWord c.1 ++ encodeWord c.2).length = 8 * cs.length := by
    intro cs
    induction cs with
    | nil => rfl
    | cons c cs ih =>
      simp only [List.flatMap_cons, List.length_append, List.length_cons, ih, length_encodeWord]
      omega
  unfold spell size
  split <;> simp only [List.length_append, length_encodeWord, targets, pairs] <;> omega

lemma fits_of_read? {opcode : UInt8} {bs rest : Bytes} {s : Switch}
    (h : read? opcode bs = some (s, rest)) : s.Fits opcode ∧ bs = s.spell ++ rest := by
  simp only [read?, bind, Option.bind_eq_some_iff, Prod.exists] at h
  obtain ⟨default, bs1, h1, h⟩ := h
  rw [readWord?_eq_some_iff] at h1
  split at h
  · next hop =>
    obtain ⟨low, bs2, h2, high, bs3, h3, h⟩ := by
      simpa only [Option.bind_eq_some_iff, Prod.exists] using h
    rw [readWord?_eq_some_iff] at h2 h3
    split at h
    · cases h
    · next hle =>
      obtain ⟨cases, bs4, h4, h⟩ := by
        simpa only [Option.bind_eq_some_iff, Prod.exists] using h
      cases h
      obtain ⟨tail, ht, hl, hc, rfl⟩ := readTargets?_eq_some_iff.1 h4
      obtain rfl : cases = tail := ht
      have hhigh := high_eq hle
      rw [Int32.lt_iff_toInt_lt] at hle
      have hlt := high.toInt_lt
      rw [← hl] at hhigh
      have hpos : 0 < cases.length := by omega
      have hmax : low.toInt + cases.length ≤ 2147483648 := by omega
      refine ⟨⟨hop, List.ne_nil_of_length_pos hpos, hmax, hc⟩, ?_⟩
      rw [h1, h2, h3]
      simp [spell, count, hhigh]
  · next hop =>
    obtain ⟨count, bs2, h2, h⟩ := by
      simpa only [Option.bind_eq_some_iff, Prod.exists] using h
    rw [readWord?_eq_some_iff] at h2
    split at h
    · cases h
    · next hle =>
      obtain ⟨cases, bs4, h4, h⟩ := by
        simpa only [Option.bind_eq_some_iff, Prod.exists] using h
      cases h
      obtain ⟨tail, ht, hl, rfl⟩ := readPairs?_eq_some_iff.1 h4
      obtain rfl : cases = tail := ht
      have hcount := count_eq hle
      have hlt := count.toInt_lt
      rw [← hl] at hcount
      have hmax : cases.length < 2147483648 := by omega
      refine ⟨⟨hop, hmax⟩, ?_⟩
      rw [h1, h2]
      simp [spell, Switch.count, hcount]

/-! The bytes are variables here, since the kernel would compute with written words. -/

lemma read?_table {bs bs1 bs2 bs3 rest : Bytes} {default low high : Int32}
    {cases : List (Int32 × Int32)} (h1 : readWord? bs = some (default, bs1))
    (h2 : readWord? bs1 = some (low, bs2)) (h3 : readWord? bs2 = some (high, bs3))
    (hle : ¬ high < low)
    (h4 : readTargets? (high.toInt - low.toInt + 1).toNat low bs3 [] = some (cases, rest)) :
    read? Opcode.tableswitch bs = some (⟨default, some low, cases⟩, rest) := by
  simp only [read?, h1, h2, h3, h4, bind, Option.bind_some, if_pos, if_neg hle]
  rfl

lemma read?_pairs {opcode : UInt8} {bs bs1 bs2 rest : Bytes} {default count : Int32}
    {cases : List (Int32 × Int32)} (hop : opcode ≠ Opcode.tableswitch)
    (h1 : readWord? bs = some (default, bs1)) (h2 : readWord? bs1 = some (count, bs2))
    (hle : ¬ count < 0) (h3 : readPairs? count.toInt.toNat bs2 [] = some (cases, rest)) :
    read? opcode bs = some (⟨default, none, cases⟩, rest) := by
  simp only [read?, h1, h2, h3, bind, Option.bind_some, if_neg hop, if_neg hle]
  rfl

lemma read?_spell_append {opcode : UInt8} {s : Switch} (hf : s.Fits opcode) (rest : Bytes) :
    read? opcode (s.spell ++ rest) = some (s, rest) := by
  obtain ⟨default, low, cases⟩ := s
  cases low with
  | some low =>
    obtain ⟨rfl, hne, hle, hc⟩ := hf
    dsimp only at hne hle hc
    have hpos := List.length_pos_iff.2 hne
    have hhigh := toInt_high hpos hle
    have hn : ((low + Int32.ofNat cases.length - 1).toInt - low.toInt + 1).toNat =
        cases.length := by
      rw [hhigh]
      omega
    have hlt : ¬ low + Int32.ofNat cases.length - 1 < low := by
      rw [Int32.lt_iff_toInt_lt, hhigh]
      omega
    apply read?_table (readWord?_eq_some_iff.2 (List.append_assoc ..))
      (readWord?_eq_some_iff.2 (List.append_assoc ..))
      (readWord?_eq_some_iff.2 (List.append_assoc ..)) hlt
    rw [hn]
    exact readTargets?_eq_some_iff.2 ⟨cases, rfl, rfl, hc, rfl⟩
  | none =>
    obtain ⟨hop, hle⟩ := hf
    have hn : (Int32.ofNat cases.length).toInt = cases.length := toInt_count hle
    have hlt : ¬ Int32.ofNat cases.length < 0 := by
      rw [Int32.lt_iff_toInt_lt, Int32.toInt_zero, hn]
      omega
    apply read?_pairs hop (readWord?_eq_some_iff.2 (List.append_assoc ..))
      (readWord?_eq_some_iff.2 (List.append_assoc ..)) hlt
    rw [hn, Int.toNat_natCast]
    exact readPairs?_eq_some_iff.2 ⟨cases, rfl, rfl, rfl⟩

/-- A table whose last key is the greatest word, so that no word is behind it; or one with more
cases than a word counts. -/
def Overflows (s : Switch) : Prop :=
  ∃ low, s.low = some low ∧
    (low.toInt + s.cases.length = 2147483648 ∨ 2147483648 ≤ s.cases.length)

lemma eq_spell_of_encode? {s : Switch} {bs : Bytes} (h : s.encode? = some bs) : bs = s.spell := by
  unfold encode? at h
  split at h
  · dsimp only at h
    split at h <;> cases h
    rfl
  · cases h
    rfl

lemma encode?_eq_none_iff {opcode : UInt8} {s : Switch} (hs : s.Fits opcode) :
    s.encode? = none ↔ s.Overflows := by
  obtain ⟨default, low, cases⟩ := s
  cases low with
  | none => simp [encode?, Overflows]
  | some low =>
    obtain ⟨-, hne, hle, -⟩ := hs
    dsimp only at hne hle
    have hpos := List.length_pos_iff.2 hne
    have hlow := low.le_toInt
    have hcount : (Int32.ofNat cases.length).toInt = (cases.length : Int).bmod 4294967296 :=
      Int32.toInt_ofNat' ..
    simp only [encode?, count, ite_eq_right_iff, reduceCtorEq, imp_false, Overflows,
      Option.some.injEq, exists_eq_left', hcount, Int.bmod_def]
    omega

end Switch

lemma Opcode.wideOperands?_ne_zero (inner : UInt8) : wideOperands? inner ≠ some 0 := by
  unfold wideOperands?
  split
  · simp
  · split <;> simp

namespace Operand

lemma length_encode (x : Operand) : x.encode.length = x.size := by
  cases x with
  | plain bytes => rfl
  | near delta => rfl
  | far delta => rfl
  | switch padding table => simp [encode, size, Switch.length_spell]

def Fits (opcode : UInt8) (offset : Nat) : Operand → Prop
  | plain bytes =>
    Opcode.shape? opcode = some (.plain bytes.length) ∨
      Opcode.shape? opcode = some .wide ∧
        ∃ inner rest, bytes = inner :: rest ∧ Opcode.wideOperands? inner = some bytes.length
  | near _ => Opcode.shape? opcode = some .near
  | far _ => Opcode.shape? opcode = some .far
  | switch padding table =>
    Opcode.shape? opcode = some .switch ∧ padding.length = Switch.paddingAt offset ∧
      table.Fits opcode

lemma readPlain?_eq_some_iff {n : Nat} {bs rest : Bytes} {x : Operand} :
    readPlain? n bs = some (x, rest) ↔ ∃ bytes, x = plain bytes ∧ bytes.length = n ∧
      bs = bytes ++ rest := by
  simp only [readPlain?, Option.map_eq_some_iff, Prod.exists, Prod.mk.injEq,
    takeExact?_eq_some_iff]
  constructor
  · rintro ⟨bytes, rest', ⟨hl, rfl⟩, rfl, rfl⟩
    exact ⟨bytes, rfl, hl, rfl⟩
  · rintro ⟨bytes, rfl, hl, rfl⟩
    exact ⟨bytes, rest, ⟨hl, rfl⟩, rfl, rfl⟩

lemma fits_of_read? {opcode : UInt8} {offset : Nat} {bs rest : Bytes} {x : Operand}
    (h : read? opcode offset bs = some (x, rest)) :
    x.Fits opcode offset ∧ bs = x.encode ++ rest := by
  unfold read? at h
  split at h
  · cases h
  · next n hs =>
    obtain ⟨bytes, rfl, rfl, rfl⟩ := readPlain?_eq_some_iff.1 h
    exact ⟨.inl hs, rfl⟩
  · next hs =>
    split at h <;> cases h
    refine ⟨hs, ?_⟩
    rw [encode, show (ofBe16 _ _).toInt16.toUInt16 = ofBe16 _ _ from rfl, be16_ofBe16]
    rfl
  · next hs =>
    split at h <;> cases h
    refine ⟨hs, ?_⟩
    rw [encode, UInt32.toUInt32_toInt32, be32_ofBe32]
    rfl
  · next hs =>
    split at h
    · next inner rest' =>
      obtain ⟨n, hw, h⟩ := Option.bind_eq_some_iff.1 h
      obtain ⟨bytes, rfl, rfl, hb⟩ := readPlain?_eq_some_iff.1 h
      refine ⟨.inr ⟨hs, ?_⟩, hb⟩
      cases bytes with
      | nil => exact absurd hw (Opcode.wideOperands?_ne_zero inner)
      | cons c cs =>
        obtain rfl := (List.cons.inj hb).1
        exact ⟨_, _, rfl, hw⟩
    · cases h
  · next hs =>
    simp only [Option.bind_eq_some_iff, Option.map_eq_some_iff, Prod.exists, Prod.mk.injEq,
      takeExact?_eq_some_iff] at h
    obtain ⟨padding, rest', ⟨hl, rfl⟩, table, rest'', ht, rfl, rfl⟩ := h
    obtain ⟨hf, rfl⟩ := Switch.fits_of_read? ht
    exact ⟨⟨hs, hl, hf⟩, by simp [encode]⟩

lemma read?_encode_append {opcode : UInt8} {offset : Nat} {x : Operand}
    (hf : x.Fits opcode offset) (rest : Bytes) :
    read? opcode offset (x.encode ++ rest) = some (x, rest) := by
  cases x with
  | plain bytes =>
    rcases hf with hs | ⟨hs, inner, tail, rfl, hw⟩
    · simp only [read?, hs, encode]
      exact readPlain?_eq_some_iff.2 ⟨bytes, rfl, rfl, rfl⟩
    · simp only [read?, hs, encode, List.cons_append, hw, Option.bind_some]
      exact readPlain?_eq_some_iff.2 ⟨_, rfl, rfl, rfl⟩
  | near delta =>
    have hs : Opcode.shape? opcode = some .near := hf
    simp only [read?, hs, encode, be16, List.cons_append, List.nil_append, ofBe16_be16]
    rfl
  | far delta =>
    have hs : Opcode.shape? opcode = some .far := hf
    simp only [read?, hs, encode, be32, List.cons_append, List.nil_append, ofBe32_be32]
    rfl
  | switch padding table =>
    obtain ⟨hs, hl, ht⟩ := hf
    simp only [read?, hs, encode, List.append_assoc]
    rw [takeExact?_eq_some_iff.2 ⟨hl, rfl⟩]
    simp only [Option.bind_some, Switch.read?_spell_append ht, Option.map_some]

lemma eq_encode_of_encode? {x : Operand} {bs : Bytes} (h : x.encode? = some bs) :
    bs = x.encode := by
  cases x with
  | switch padding table =>
    obtain ⟨operands, ht, rfl⟩ := Option.map_eq_some_iff.1 h
    rw [encode, Switch.eq_spell_of_encode? ht]
  | _ => exact (Option.some.inj h).symm

lemma encode?_eq_none_iff {opcode : UInt8} {offset : Nat} {x : Operand}
    (hx : x.Fits opcode offset) :
    x.encode? = none ↔ ∃ padding table, x = switch padding table ∧ table.Overflows := by
  cases x with
  | switch padding table => simp [encode?, Switch.encode?_eq_none_iff hx.2.2]
  | _ => simp [encode?]

end Operand

namespace Instruction

lemma length_encode (i : Instruction) : i.encode.length = i.size := by
  simp only [encode, List.length_cons, Operand.length_encode, size]
  omega

lemma size_pos (i : Instruction) : 0 < i.size := by
  unfold size
  omega

lemma length_encodeAll (is : List Instruction) : (encodeAll is).length = total size is := by
  induction is with
  | nil => rfl
  | cons i is ih => simpa [encodeAll, total, length_encode] using ih

lemma eq_encode_of_encode? {i : Instruction} {bs : Bytes} (h : i.encode? = some bs) :
    bs = i.encode := by
  obtain ⟨operand, hx, rfl⟩ := Option.map_eq_some_iff.1 h
  rw [encode, Operand.eq_encode_of_encode? hx]

def Fits (i : Instruction) : Prop := i.operand.Fits i.opcode i.offset

def Overflows (i : Instruction) : Prop :=
  ∃ padding table, i.operand = .switch padding table ∧ table.Overflows

lemma encode?_eq_none_iff {i : Instruction} (hi : i.Fits) : i.encode? = none ↔ i.Overflows := by
  rw [encode?, Option.map_eq_none_iff, Operand.encode?_eq_none_iff hi, Overflows]

def Tiles : Nat → List Instruction → Prop
  | _, [] => True
  | pos, i :: rest => i.offset = pos ∧ i.Fits ∧ Tiles i.stop rest

lemma decodeFrom_cons {pos : Nat} {opcode : UInt8} {rest rest' : Bytes} {x : Operand}
    (hx : Operand.read? opcode pos rest = some (x, rest')) (done : List Instruction) :
    decodeFrom pos (opcode :: rest) done =
      decodeFrom (stop ⟨pos, opcode, x⟩) rest' (⟨pos, opcode, x⟩ :: done) := by
  rw [decodeFrom]
  split
  · next hx' => rw [hx] at hx'; cases hx'
  · next hx' => rw [hx] at hx'; cases hx'; rfl

lemma Tiles.read?_of_encodeAll {pos : Nat} {i : Instruction} {tail : List Instruction}
    {opcode : UInt8} {rest : Bytes} (ht : Tiles pos (i :: tail))
    (hb : opcode :: rest = encodeAll (i :: tail)) :
    i = ⟨pos, opcode, i.operand⟩ ∧
      Operand.read? opcode pos rest = some (i.operand, encodeAll tail) := by
  obtain ⟨rfl, hf, -⟩ := ht
  have hb' : opcode :: rest = i.opcode :: (i.operand.encode ++ encodeAll tail) := hb
  obtain ⟨rfl, rfl⟩ := List.cons.inj hb'
  exact ⟨rfl, Operand.read?_encode_append hf _⟩

lemma decodeFrom_eq_ok_iff {pos : Nat} {bs : Bytes} {done is : List Instruction} :
    decodeFrom pos bs done = .ok is ↔
      ∃ tail, is = done.reverse ++ tail ∧ Tiles pos tail ∧ bs = encodeAll tail := by
  induction pos, bs, done using decodeFrom.induct generalizing is with
  | case1 pos done =>
    rw [decodeFrom]
    constructor
    · intro h
      cases h
      exact ⟨[], by simp, trivial, rfl⟩
    · rintro ⟨tail, rfl, -, hb⟩
      cases tail with
      | nil => simp
      | cons i tail => cases hb
  | case2 pos done opcode rest hx =>
    rw [decodeFrom]
    constructor
    · intro h
      split at h
      · cases h
      · next hx' => rw [hx] at hx'; cases hx'
    · rintro ⟨tail, rfl, ht, hb⟩
      cases tail with
      | nil => cases hb
      | cons i tail =>
        rw [(ht.read?_of_encodeAll hb).2] at hx
        cases hx
  | case3 pos done opcode rest x rest' hx _ i =>
    rename_i ih
    rw [decodeFrom_cons hx, ih]
    constructor
    · rintro ⟨tail, rfl, ht, rfl⟩
      obtain ⟨hf, rfl⟩ := Operand.fits_of_read? hx
      exact ⟨i :: tail, by simp, ⟨rfl, hf, ht⟩, rfl⟩
    · rintro ⟨tail, rfl, ht, hb⟩
      cases tail with
      | nil => cases hb
      | cons j tail =>
        obtain ⟨hj, hread⟩ := ht.read?_of_encodeAll hb
        rw [hx] at hread
        obtain ⟨rfl, rfl⟩ := Prod.mk.inj (Option.some.inj hread)
        rw [hj] at ht
        exact ⟨tail, by rw [hj]; simp [i], ht.2.2, rfl⟩

lemma decode_eq_ok_iff {bs : Bytes} {is : List Instruction} :
    decode bs = .ok is ↔ Tiles 0 is ∧ bs = encodeAll is := by
  rw [decode, decodeFrom_eq_ok_iff]
  constructor
  · rintro ⟨tail, rfl, ht, hb⟩
    exact ⟨ht, hb⟩
  · rintro ⟨ht, hb⟩
    exact ⟨is, rfl, ht, hb⟩

end Instruction

end ClassWeaver
