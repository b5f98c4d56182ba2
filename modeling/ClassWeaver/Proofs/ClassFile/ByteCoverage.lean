import ClassWeaver.Proofs.ClassFile.Truncation

/-! A class file that is read accounts for every byte. Its parts lie behind one another from the
first byte to the last, and no byte can be missing at the end or stand behind it. -/

namespace ClassWeaver

open Read

def slice (bytes : Bytes) (span : Nat × Nat) : Bytes :=
  (bytes.drop span.1).take (span.2 - span.1)

/-- Each span begins where the one before stops, the first at `pos` and the last up to `stop`. -/
def Contiguous : Nat → List (Nat × Nat) → Nat → Prop
  | pos, [], stop => pos = stop
  | pos, span :: rest, stop => span.1 = pos ∧ span.1 ≤ span.2 ∧ Contiguous span.2 rest stop

def spansFrom : Nat → List Bytes → List (Nat × Nat)
  | _, [] => []
  | pos, part :: rest => (pos, pos + part.length) :: spansFrom (pos + part.length) rest

lemma spansFrom_append (pos : Nat) (parts rest : List Bytes) :
    spansFrom pos (parts ++ rest) =
      spansFrom pos parts ++ spansFrom (pos + parts.flatten.length) rest := by
  induction parts generalizing pos with
  | nil => simp [spansFrom]
  | cons part parts ih => simp [spansFrom, ih, Nat.add_assoc]

lemma contiguous_spansFrom (pos : Nat) (parts : List Bytes) :
    Contiguous pos (spansFrom pos parts) (pos + parts.flatten.length) := by
  induction parts generalizing pos with
  | nil => rfl
  | cons part parts ih =>
    refine ⟨rfl, Nat.le_add_right _ _, ?_⟩
    rw [List.flatten_cons, List.length_append, ← Nat.add_assoc]
    exact ih _

lemma slices_spansFrom (before : Bytes) (parts : List Bytes) :
    (spansFrom before.length parts).map (slice (before ++ parts.flatten)) = parts := by
  induction parts generalizing before with
  | nil => rfl
  | cons part parts ih =>
    have hrest := ih (before ++ part)
    rw [List.append_assoc, List.length_append] at hrest
    rw [spansFrom, List.map_cons, List.flatten_cons, hrest, slice, List.drop_left]
    dsimp only
    rw [Nat.add_sub_cancel_left, List.take_left]

lemma Attribute.spans_placeFrom (pos : Nat) (as : List Attribute) (done : List (Nat × Attribute)) :
    (placeFrom pos as done).map (fun x => (x.1, x.1 + x.2.size)) =
      done.reverse.map (fun x => (x.1, x.1 + x.2.size)) ++ spansFrom pos (as.map encode) := by
  induction as generalizing pos done with
  | nil => simp [placeFrom, spansFrom]
  | cons a as ih => simp [placeFrom, spansFrom, ih, length_encode]

namespace ClassFile

lemma spans_placeMethodsFrom (pos : Nat) (ms : List Method) (done : List (Nat × Method)) :
    (placeMethodsFrom pos ms done).map (fun x => (x.1, x.1 + x.2.size)) =
      done.reverse.map (fun x => (x.1, x.1 + x.2.size)) ++ spansFrom pos (ms.map Method.encode) := by
  induction ms generalizing pos done with
  | nil => simp [placeMethodsFrom, spansFrom]
  | cons m ms ih => simp [placeMethodsFrom, spansFrom, ih, Method.length_encode]

def parts (c : ClassFile) : List Bytes :=
  [c.encodeHead, count16 c.pool.count, c.pool.raw, c.encodeRelations, c.encodeFields,
    count16 c.methods.length] ++ (c.methods.map Method.encode ++
      ([count16 c.attributes.length] ++ c.attributes.map Attribute.encode))

def spans (c : ClassFile) : List (Nat × Nat) :=
  [(0, 8), (8, 10), (10, 10 + c.pool.raw.length), (10 + c.pool.raw.length, c.fieldsStart),
    (c.fieldsStart, c.fieldsStop), (c.fieldsStop, c.fieldsStop + 2)] ++
      (c.placedMethods.map (fun x => (x.1, x.1 + x.2.size)) ++
        ([(c.attributesStart, c.attributesStart + 2)] ++
          (Attribute.place c.attributesStart c.attributes).map fun x => (x.1, x.1 + x.2.size)))

lemma encode_eq_flatten {c : ClassFile} (h : c.pool.Whole) : c.encode = c.parts.flatten := by
  simp only [encode, encodeMethods, Attribute.encodeAll, h.encode_eq, parts, List.flatten_append,
    List.flatten_cons, List.flatten_nil, List.append_nil, List.flatMap_def, List.append_assoc]

lemma spans_eq (c : ClassFile) : c.spans = spansFrom 0 c.parts := by
  have hhead : c.encodeHead.length = 8 := rfl
  have hrelations : 10 + c.pool.raw.length + c.encodeRelations.length = c.fieldsStart := by
    simp only [encodeRelations, List.length_append, length_be16, count16, length_flatMap, fieldsStart]
    have htwo : total (fun _ : UInt16 => 2) c.interfaces = 2 * c.interfaces.length := by
      induction c.interfaces with
      | nil => rfl
      | cons i is ih =>
        rw [total_cons, ih, List.length_cons]
        omega
    omega
  have hfields : c.fieldsStart + c.encodeFields.length = c.fieldsStop := by
    have hsize : (fun f : Field => f.encode.length) = Field.size := by
      funext f
      simp only [Field.encode, Field.size, List.length_append, length_be16,
        Attribute.length_encodeAll]
      omega
    simp only [encodeFields, List.length_append, count16, length_be16, length_flatMap, fieldsStop,
      hsize]
    omega
  have hmethods : c.fieldsStop + 2 + (c.methods.map Method.encode).flatten.length =
      c.attributesStart := by
    rw [← List.flatMap_def, length_flatMap, attributesStart]
    simp only [Method.length_encode]
  rw [parts, spansFrom_append, spansFrom_append, spansFrom_append, spans, placedMethods,
    spans_placeMethodsFrom, Attribute.place, Attribute.spans_placeFrom]
  simp only [spansFrom, hhead, count16, length_be16, List.reverse_nil, List.map_nil, List.nil_append,
    List.flatten_cons, List.flatten_nil, List.append_nil, List.length_append, Nat.zero_add,
    ← Nat.add_assoc, hrelations, hfields, hmethods, Nat.reduceAdd]

/-- The parts of a class file cover its bytes without a gap or an overlap, all of them are needed,
and none may follow. -/
theorem parse_accounts {bytes : Bytes} {c : ClassFile} (parsed : parse bytes = .ok c) :
    (Contiguous 0 c.spans bytes.length ∧ c.spans.map (slice bytes) = c.parts ∧
      c.parts.flatten = bytes) ∧
    (∀ front more, front ++ more = bytes → more ≠ [] →
      ∃ context pos, parse front = .error (.truncated context pos)) ∧
    ∀ more, more ≠ [] → parse (bytes ++ more) = .error (.trailingBytes more.length) := by
  refine ⟨?_, ?_⟩
  · obtain ⟨hw, -, rfl⟩ := parse_iff.1 parsed
    rw [encode_eq_flatten hw, spans_eq]
    have hcover := contiguous_spansFrom 0 c.parts
    rw [Nat.zero_add] at hcover
    exact ⟨hcover, slices_spansFrom [] c.parts, rfl⟩
  · obtain ⟨r', hread⟩ := runAt_eq_ok_iff.1 parsed
    constructor
    · rintro front more rfl hmore
      have hall := ends_read.all _ _ _ hread
      obtain ⟨context, pos, hfault⟩ :=
        ends_read.cuts _ _ _ front more hread (by simp [hall]) hmore
      refine ⟨context, pos, ?_⟩
      rw [parse, runAt, hfault]
      rfl
    · intro more hmore
      have hfault := ends_read.overruns _ _ _ more hread hmore
      rw [parse, runAt, hfault]
      rfl

theorem parse_accounts_sample :
    (Contiguous 0 Sample.file.spans Sample.file.encode.length ∧
      Sample.file.spans.map (slice Sample.file.encode) = Sample.file.parts ∧
      Sample.file.parts.flatten = Sample.file.encode) ∧
    (∃ context pos, parse Sample.file.encode.dropLast = .error (.truncated context pos)) ∧
    parse (Sample.file.encode ++ [0]) = .error (.trailingBytes 1) := by
  obtain ⟨hcover, hcut, hmore⟩ := parse_accounts Sample.parse_file
  exact ⟨hcover, hcut _ [0] (by decide) (by decide), hmore [0] (by decide)⟩

end ClassFile

end ClassWeaver
