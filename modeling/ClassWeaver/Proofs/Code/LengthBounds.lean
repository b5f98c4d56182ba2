import ClassWeaver.Proofs.ClassFile.Costs
import ClassWeaver.Proofs.Code.ShortestStackMap

/-! How long a relocated code can be. Everything but its instructions takes three times the bytes at
most: only the distances of frames take more of them than before, two for each frame. -/

namespace ClassWeaver

open Read

namespace FrameType

variable {f : Nat → Except CodeFault Nat}

def size (t : FrameType) : Nat := t.encode.length

lemma size_mapOffset {t t' : FrameType} (h : t.mapOffset f = .ok t') : t'.size = t.size := by
  cases t with
  | uninitialized old =>
    obtain ⟨new, -, rfl⟩ := map_eq_ok_iff.1 h
    rfl
  | _ =>
    cases h
    rfl

lemma size_mapOffset_all {ts ts' : List FrameType}
    (h : ts.mapM (FrameType.mapOffset f) = .ok ts') : total size ts' = total size ts :=
  total_eq_of_forall₂ (mapM_eq_ok_iff.1 h) fun _ _ => size_mapOffset

end FrameType

namespace FrameKind

variable {f : Nat → Except CodeFault Nat}

def leastSize : FrameKind → Nat
  | same => 1
  | sameLocals1 t => 1 + t.size
  | chop _ => 3
  | append locals => 3 + total FrameType.size locals
  | full locals stack => 7 + total FrameType.size locals + total FrameType.size stack

lemma length_encode_bounds (k : FrameKind) (delta : Nat) :
    k.leastSize ≤ (k.encode delta).length ∧ (k.encode delta).length ≤ 3 * k.leastSize := by
  have htypes (types : List FrameType) :
      (types.flatMap FrameType.encode).length = total FrameType.size types := length_flatMap _ _
  cases k with
  | same =>
    rw [length_encode_same, leastSize]
    split <;> omega
  | sameLocals1 t =>
    rw [length_encode_sameLocals1, leastSize, FrameType.size]
    split <;> omega
  | chop count => simp [FrameKind.encode, leastSize, length_count16]
  | append locals =>
    simp only [FrameKind.encode, leastSize, List.length_cons, List.length_append, length_count16,
      htypes]
    omega
  | full locals stack =>
    simp only [FrameKind.encode, encodeTypes, leastSize, List.length_cons, List.length_append,
      length_count16, htypes]
    omega

lemma leastSize_mapOffset {k k' : FrameKind} (h : k.mapOffset f = .ok k') :
    k'.leastSize = k.leastSize := by
  cases k with
  | same =>
    cases h
    rfl
  | chop count =>
    cases h
    rfl
  | sameLocals1 t =>
    obtain ⟨t', ht, rfl⟩ := map_eq_ok_iff.1 h
    rw [leastSize, leastSize, FrameType.size_mapOffset ht]
  | append locals =>
    obtain ⟨locals', hl, rfl⟩ := map_eq_ok_iff.1 h
    rw [leastSize, leastSize, FrameType.size_mapOffset_all hl]
  | full locals stack =>
    obtain ⟨locals', hl, h⟩ := bind_eq_ok_iff.1 h
    obtain ⟨stack', hs, h⟩ := bind_eq_ok_iff.1 h
    cases h
    rw [leastSize, leastSize, FrameType.size_mapOffset_all hl, FrameType.size_mapOffset_all hs]

end FrameKind

namespace Frame

def leastSize (frame : Frame) : Nat := frame.kind.leastSize

lemma length_encodeFrom_bounds {previous : Option Nat} {frames : List Frame} {done : List Bytes}
    {bs : Bytes} (h : encodeFrom previous frames done = .ok bs) :
    done.flatten.length + total leastSize frames ≤ bs.length ∧
      bs.length ≤ done.flatten.length + 3 * total leastSize frames := by
  induction frames generalizing previous done with
  | nil =>
    cases h
    simp
  | cons frame frames ih =>
    rw [encodeFrom] at h
    split at h
    · cases h
    next delta _ =>
      split at h
      · cases h
      · have hrest := ih h
        have hframe := frame.kind.length_encode_bounds delta
        rw [List.flatten_cons, List.length_append] at hrest
        rw [total_cons, leastSize]
        omega

lemma length_encode_bounds {frames : List Frame} {bs : Bytes} (h : encode frames = .ok bs) :
    2 + total leastSize frames ≤ bs.length ∧ bs.length ≤ 2 + 3 * total leastSize frames := by
  obtain ⟨body, hb, rfl⟩ := map_eq_ok_iff.1 h
  have hbody := length_encodeFrom_bounds hb
  rw [List.flatten_nil, List.length_nil] at hbody
  rw [List.length_append, length_count16]
  omega

lemma total_le_of_parse {bs : Bytes} {frames : List Frame} (h : parse bs = .ok frames) :
    2 + total leastSize frames ≤ bs.length := by
  obtain ⟨written, hw, hle⟩ := encode_of_parse h
  exact Nat.le_trans (length_encode_bounds hw).1 hle

lemma leastSize_move {m : Placement} {frame frame' : Frame}
    (h : Relocation.moveFrame m frame = .ok frame') : frame'.leastSize = frame.leastSize := by
  obtain ⟨offset, -, h⟩ := bind_eq_ok_iff.1 h
  obtain ⟨kind, hkind, h⟩ := bind_eq_ok_iff.1 h
  cases h
  exact FrameKind.leastSize_mapOffset hkind

end Frame

namespace Relocation

variable {pool : Pool} {m : Placement}

lemma length_moveRange {start length : UInt16} {bs : Bytes}
    (h : moveRange m start length = .ok bs) : bs.length = 4 := by
  obtain ⟨newStart, -, h⟩ := bind_eq_ok_iff.1 h
  obtain ⟨newStop, -, h⟩ := bind_eq_ok_iff.1 h
  cases h
  rfl

lemma length_moveLineNumber {entry new : Bytes} (h : moveLineNumber m entry = .ok new) :
    new.length = entry.length := by
  unfold moveLineNumber at h
  split at h
  · obtain ⟨pc, -, rfl⟩ := map_eq_ok_iff.1 h
    simp
    omega
  · cases h
    rfl

lemma length_moveLocalVariable {entry new : Bytes} (h : moveLocalVariable m entry = .ok new) :
    new.length = entry.length := by
  unfold moveLocalVariable at h
  split at h
  · obtain ⟨range, hrange, rfl⟩ := map_eq_ok_iff.1 h
    rw [List.length_append, length_moveRange hrange]
    simp only [List.length_cons]
    omega
  · cases h
    rfl

lemma total_chunks_le (size n : Nat) (bs : Bytes) (done : List Bytes) :
    total List.length (chunks size n bs done) ≤ total List.length done + bs.length := by
  induction n generalizing bs done with
  | zero =>
    rw [chunks, total_reverse]
    omega
  | succ n ih =>
    have hle := ih (bs.drop size) (bs.take size :: done)
    rw [total_cons, List.length_take, List.length_drop] at hle
    rw [chunks]
    omega

lemma length_moveTable_le {size : Nat} {entry : Bytes → Except CodeFault Bytes} {body new : Bytes}
    (hentry : ∀ old new, entry old = .ok new → new.length = old.length)
    (h : moveTable size entry body = .ok new) : new.length ≤ body.length := by
  unfold moveTable at h
  split at h
  next a b rest =>
    dsimp only at h
    split at h
    · obtain ⟨entries, he, rfl⟩ := map_eq_ok_iff.1 h
      have hall := total_eq_of_forall₂ (mapM_eq_ok_iff.1 he) hentry
      have hle := total_chunks_le size (ofBe16 a b).toNat rest []
      rw [total_nil] at hle
      simp only [List.length_cons, length_flatten]
      omega
    · cases h
  · cases h

section TypeAnnotations

variable (name : String)

lemma spends_moveVariableRange : Spends (moveVariableRange name m) List.length := by
  have spends_word : Spends (reading name (u16 "local variable target")) fun _ => 2 :=
    (spends_u16 _).mapFault _
  apply spends_word.bind
  intro start
  apply spends_word.bind
  intro length
  apply spends_word.bind
  rintro index ⟨pos, rest⟩ bs r' h
  obtain ⟨range, hrange, h⟩ := lift_then_iff.1 h
  obtain ⟨rfl, rfl⟩ := pure_eq_ok_iff.1 h
  dsimp only
  rw [List.length_append, length_moveRange hrange, length_be16]
  omega

lemma spends_moveTarget : Spends (moveTarget name m) List.length := by
  have spends_word (context : String) : Spends (reading name (u16 context)) fun _ => 2 :=
    (spends_u16 _).mapFault _
  apply Spends.bind ((spends_u8 _).mapFault _)
  intro tag
  split
  · apply (spends_word _).bind
    intro n
    apply ((spends_moveVariableRange name).times _).bind
    intro ranges
    apply spends_pure
    rw [List.length_cons, List.length_append, length_be16, length_flatten]
    omega
  split
  · apply (spends_word _).bind
    exact fun _ => spends_pure rfl
  split
  · apply (spends_word _).bind
    intro old
    have spends_byte : Spends ((fun b => [b]) <$> reading name (u8 "type argument index"))
        List.length := Spends.map ((spends_u8 _).mapFault _) fun _ => Nat.le_refl 1
    have spends_nil : Spends (pure [] : ReadOr CodeFault Bytes) List.length := spends_pure rfl
    cases m.instruction? old.toNat with
    | none =>
      dsimp only
      split
      · exact spends_byte.bind fun _ => spends_fail _ _
      · exact spends_nil.bind fun _ => spends_fail _ _
    | some new =>
      have spends_rest : ∀ argument : Bytes, Spends
          (pure (tag :: (count16 new ++ argument)) : ReadOr CodeFault Bytes)
          fun bs => bs.length - 1 - 2 - argument.length := by
        intro argument
        apply spends_pure
        rw [List.length_cons, List.length_append, count16, length_be16]
        omega
      dsimp only
      split
      · exact spends_byte.bind spends_rest
      · exact spends_nil.bind spends_rest
  · exact spends_fail _ _

lemma carries_readPathAndType {pool₁ : Pool} (hp : pool.Extends pool₁) :
    Carries (readPathAndType pool) (readPathAndType pool₁) := by
  apply (reads_u8 _).carries.bind
  intro length
  apply (reads_bytes _ _).carries.bind
  intro path
  apply (Annotations.carries_read hp).bind
  exact fun _ => carries_pure _

lemma spends_moveAnnotatedType : Spends (moveAnnotatedType name m pool) List.length := by
  apply (spends_moveTarget name).bind
  intro target
  apply ((carries_readPathAndType (.refl pool)).spends_spelled.mapFault _).bind
  intro rest
  apply spends_pure
  rw [List.length_append]
  omega

lemma spends_moveTypeAnnotations : Spends (moveTypeAnnotations name m pool) List.length := by
  apply Spends.bind ((spends_u16 _).mapFault _)
  intro n
  apply ((spends_moveAnnotatedType name).times _).bind
  rintro moved ⟨pos, rest⟩ bs r' h
  obtain ⟨-, h⟩ := else_fail_iff.1 (remaining_then_iff.1 h)
  obtain ⟨rfl, rfl⟩ := pure_eq_ok_iff.1 h
  dsimp only
  rw [List.length_append, length_be16, length_flatten]
  omega

end TypeAnnotations

lemma moveAttribute_spec {moved moved' : Moved} {a : Attribute}
    (h : moveAttribute pool m moved a = .ok moved') :
    moved'.attributes = moved.attributes ∨ ∃ body : Bytes, body.length ≤ 3 * a.body.length ∧
      moved'.attributes = { a with body } :: moved.attributes := by
  cases moveAttribute_eq_ok_iff.1 h with
  | @stackMap old frames body _ hold hframes hbody =>
    have hparse := Frame.total_le_of_parse hold
    have hall := total_eq_of_forall₂ (mapM_eq_ok_iff.1 hframes) fun _ _ => Frame.leastSize_move
    have hencode := (Frame.length_encode_bounds hbody).2
    exact .inr ⟨body, by omega, rfl⟩
  | @lineNumbers body _ hbody =>
    have hle := length_moveTable_le (fun _ _ => length_moveLineNumber) hbody
    exact .inr ⟨body, by omega, rfl⟩
  | @localVariables body _ hbody =>
    have hle := length_moveTable_le (fun _ _ => length_moveLocalVariable) hbody
    exact .inr ⟨body, by omega, rfl⟩
  | @typeAnnotations body _ hbody =>
    have hle := (spends_moveTypeAnnotations a.name).runAt hbody
    exact .inr ⟨body, by omega, rfl⟩
  | dropped => exact .inl rfl

lemma size_moveAttributes_le {as : List Attribute} {moved moved' : Moved}
    (h : moveAttributes pool m as moved = .ok moved') :
    total Attribute.size moved'.attributes ≤
      total Attribute.size moved.attributes + 3 * total Attribute.size as := by
  induction as generalizing moved with
  | nil =>
    cases h
    exact Nat.le_add_right _ _
  | cons a as ih =>
    obtain ⟨next, hnext, h⟩ := moveAttributes_cons_iff.1 h
    have hle := ih h
    rw [total_cons]
    rcases moveAttribute_spec hnext with he | ⟨body, hbody, he⟩
    · rw [he] at hle
      omega
    · rw [he, total_cons] at hle
      simp only [Attribute.size, Attribute.headerSize] at hle ⊢
      omega

end Relocation

/-- A relocated code takes three times the bytes at most, but for its instructions. -/
lemma Relocates.length_encode_le {pool : Pool} {code : Code} {ins : Insertion} {body : Body}
    {placed : List (Instruction × Place)} {stop : Nat}
    (h : Relocates pool code ins body placed stop) :
    body.code.encode.length ≤ body.code.bytes.length + 3 * code.encode.length := by
  obtain ⟨moved, hmoved, ha, -⟩ := h.attributes
  have hle := Relocation.size_moveAttributes_le hmoved
  have hhandlers : (body.code.handlers.flatMap Handler.encode).length =
      (code.handlers.flatMap Handler.encode).length := by
    rw [length_flatMap, length_flatMap]
    exact total_eq_of_forall₂ h.handlers fun _ _ _ => rfl
  simp only [Code.encode, List.length_append, length_be16, count32, length_be32, count16, hhandlers,
    Attribute.length_encodeAll, Attribute.sizeAll, ha, total_reverse]
  rw [total_nil] at hle
  omega

end ClassWeaver
