import ClassWeaver.Proofs.ClassFile.RoundTrip
import ClassWeaver.Proofs.Code.Readability
import ClassWeaver.Proofs.Code.Tables

/-! What accompanies a code goes with it. The handlers, the frames and the tables of a relocated code
say of the old instructions what those of the old code said, at the offsets where the instructions
stand now. -/

namespace ClassWeaver

open Instruction Read

structure Handler.Moves (o : OffsetMap) (h h' : Handler) : Prop where
  start : o.block h.start.toNat h'.start.toNat
  stop : o.block h.stop.toNat h'.stop.toNat
  target : o.block h.target.toNat h'.target.toNat
  catchType : h'.catchType = h.catchType

inductive FrameType.Moves (o : OffsetMap) : FrameType → FrameType → Prop
  | uninitialized {old new : Nat} : o.instruction old new →
      Moves o (uninitialized old) (uninitialized new)
  | other {t : FrameType} : (∀ old, t ≠ uninitialized old) → Moves o t t

inductive FrameKind.Moves (o : OffsetMap) : FrameKind → FrameKind → Prop
  | same : Moves o same same
  | sameLocals1 {t t' : FrameType} : t.Moves o t' → Moves o (sameLocals1 t) (sameLocals1 t')
  | chop {count : UInt8} : Moves o (chop count) (chop count)
  | append {locals locals' : List FrameType} : List.Forall₂ (FrameType.Moves o) locals locals' →
      Moves o (append locals) (append locals')
  | full {locals locals' stack stack' : List FrameType} :
      List.Forall₂ (FrameType.Moves o) locals locals' →
      List.Forall₂ (FrameType.Moves o) stack stack' →
      Moves o (full locals stack) (full locals' stack')

structure Frame.Moves (o : OffsetMap) (frame frame' : Frame) : Prop where
  offset : o.block frame.offset frame'.offset
  kind : frame.kind.Moves o frame'.kind

structure MovesFrames (o : OffsetMap) (old new : List Frame) : Prop where
  frames : List.Forall₂ (Frame.Moves o) old new
  sorted : (new.map (·.offset)).Pairwise (· < ·)

namespace Attribute

def isStackMap (a : Attribute) : Bool := a.name == "StackMapTable"

def isMovable (a : Attribute) : Bool :=
  a.isStackMap || a.name == "LineNumberTable" || a.name == "LocalVariableTable" ||
    a.name == "LocalVariableTypeTable" || a.name == "RuntimeVisibleTypeAnnotations" ||
    a.name == "RuntimeInvisibleTypeAnnotations"

inductive MovesBody (pool : Pool) (o : OffsetMap) (frames : List Frame) (name : String)
    (body body' : Bytes) : Prop
  | stackMap {old : List Frame} : name = "StackMapTable" → Frame.parse body = .ok old →
      Frame.parse body' = .ok frames → MovesFrames o old frames →
      MovesBody pool o frames name body body'
  | lineNumbers : name = "LineNumberTable" →
      MovesTable LineNumber.encode (fun _ => True) (LineNumber.Moves o) body body' →
      MovesBody pool o frames name body body'
  | localVariables : name = "LocalVariableTable" ∨ name = "LocalVariableTypeTable" →
      MovesTable LocalVariable.encode (fun _ => True) (LocalVariable.Moves o) body body' →
      MovesBody pool o frames name body body'
  | typeAnnotations :
      name = "RuntimeVisibleTypeAnnotations" ∨ name = "RuntimeInvisibleTypeAnnotations" →
      MovesTable AnnotatedType.encode (AnnotatedType.Fits pool) (AnnotatedType.Moves o) body
        body' →
      MovesBody pool o frames name body body'

structure Moves (pool : Pool) (o : OffsetMap) (frames : List Frame) (a a' : Attribute) : Prop where
  nameIndex : a'.nameIndex = a.nameIndex
  name : a'.name = a.name
  body : MovesBody pool o frames a.name a.body a'.body

lemma Moves.of_isStackMap_eq_false {pool : Pool} {o : OffsetMap} {frames frames' : List Frame}
    {a a' : Attribute} (h : a.Moves pool o frames a') (ha : a.isStackMap = false) :
    a.Moves pool o frames' a' := by
  refine ⟨h.nameIndex, h.name, ?_⟩
  cases h.body with
  | stackMap hname => simp [isStackMap, hname] at ha
  | lineNumbers hname htable => exact .lineNumbers hname htable
  | localVariables hname htable => exact .localVariables hname htable
  | typeAnnotations hname htable => exact .typeAnnotations hname htable

end Attribute

section Frames

variable {o : OffsetMap} {f : Nat → Except CodeFault Nat}

lemma FrameType.moves_of_mapOffset (hf : ∀ old new, f old = .ok new → o.instruction old new)
    {t t' : FrameType} (h : t.mapOffset f = .ok t') : t.Moves o t' := by
  cases t with
  | uninitialized old =>
    obtain ⟨new, hnew, rfl⟩ := map_eq_ok_iff.1 h
    exact .uninitialized (hf old new hnew)
  | _ =>
    cases h
    exact .other nofun

lemma FrameKind.moves_of_mapOffset (hf : ∀ old new, f old = .ok new → o.instruction old new)
    {k k' : FrameKind} (h : k.mapOffset f = .ok k') : k.Moves o k' := by
  have htypes {ts ts' : List FrameType} (h : ts.mapM (FrameType.mapOffset f) = .ok ts') :
      List.Forall₂ (FrameType.Moves o) ts ts' :=
    (mapM_eq_ok_iff.1 h).imp fun _ _ => FrameType.moves_of_mapOffset hf
  cases k with
  | same =>
    cases h
    exact .same
  | chop count =>
    cases h
    exact .chop
  | sameLocals1 t =>
    obtain ⟨t', ht, rfl⟩ := map_eq_ok_iff.1 h
    exact .sameLocals1 (FrameType.moves_of_mapOffset hf ht)
  | append locals =>
    obtain ⟨locals', hl, rfl⟩ := map_eq_ok_iff.1 h
    exact .append (htypes hl)
  | full locals stack =>
    obtain ⟨locals', hl, h⟩ := bind_eq_ok_iff.1 h
    obtain ⟨stack', hs, h⟩ := bind_eq_ok_iff.1 h
    cases h
    exact .full (htypes hl) (htypes hs)

end Frames

namespace Relocation

variable {pool : Pool} {m : Placement}

lemma moveHandler_moves (hm : m.Faithful) {h h' : Handler} (hmove : moveHandler m h = .ok h') :
    h.Moves m.offsets h' := by
  obtain ⟨start, hstart, hmove⟩ := bind_eq_ok_iff.1 hmove
  obtain ⟨stop, hstop, hmove⟩ := bind_eq_ok_iff.1 hmove
  obtain ⟨target, htarget, hmove⟩ := bind_eq_ok_iff.1 hmove
  cases hmove
  exact ⟨hm.pc hstart, hm.pc hstop, hm.pc htarget, rfl⟩

lemma moveFrame_moves {frame frame' : Frame} (h : moveFrame m frame = .ok frame') :
    frame.Moves m.offsets frame' := by
  obtain ⟨offset, ho, h⟩ := bind_eq_ok_iff.1 h
  obtain ⟨kind, hk, h⟩ := bind_eq_ok_iff.1 h
  cases h
  exact ⟨ho, FrameKind.moves_of_mapOffset (fun _ _ hnew => moveNew_eq_ok_iff.1 hnew) hk⟩

lemma moveStackMap_moves (hm : m.Faithful) {body : Bytes} {old frames : List Frame} {new : Bytes}
    (hold : Frame.parse body = .ok old) (hframes : old.mapM (moveFrame m) = .ok frames)
    (hnew : Frame.encode frames = .ok new) :
    Frame.parse new = .ok frames ∧ MovesFrames m.offsets old frames := by
  have hbound (i j : Nat) (hj : moveNew m i = .ok j) : j < 65536 :=
    hm.instruction_lt (moveNew_eq_ok_iff.1 hj)
  obtain ⟨bytes, hbytes, -⟩ := map_eq_ok_iff.1 hnew
  have hfit := (Frame.allFit_of_parse hold).mapOffsets hbound hframes
  exact ⟨Frame.parse_encode hfit hnew,
    (mapM_eq_ok_iff.1 hframes).imp fun _ _ => moveFrame_moves, (Frame.encodeFrom_sorted hbytes).2⟩

lemma moveAttribute_moves (hm : m.Faithful) {a : Attribute} {moved moved' : Moved}
    (h : moveAttribute pool m moved a = .ok moved') :
    (a.isMovable = false ∧ moved' = moved) ∨
      a.isMovable = true ∧ (a.isStackMap = false → moved'.frames = moved.frames) ∧
        ∃ a', moved'.attributes = a' :: moved.attributes ∧
          a.Moves pool m.offsets moved'.frames a' := by
  cases moveAttribute_eq_ok_iff.1 h with
  | stackMap hname hold hframes hbody =>
    obtain ⟨hagain, hmoves⟩ := moveStackMap_moves hm hold hframes hbody
    refine .inr ⟨?_, ?_, _, rfl, rfl, rfl, .stackMap hname hold hagain hmoves⟩
    · simp [Attribute.isMovable, Attribute.isStackMap, hname]
    · simp [Attribute.isStackMap, hname]
  | lineNumbers hname hbody =>
    have hmoves := moveTable_moves (fun _ _ _ => rfl)
      (fun _ _ hlen => moveLineNumber_moves hm hlen) hbody
    refine .inr ⟨?_, fun _ => rfl, _, rfl, rfl, rfl, .lineNumbers hname hmoves⟩
    simp [Attribute.isMovable, hname]
  | localVariables hname hbody =>
    have hmoves := moveTable_moves (fun _ _ _ => rfl)
      (fun _ _ hlen => moveLocalVariable_moves hm hlen) hbody
    refine .inr ⟨?_, fun _ => rfl, _, rfl, rfl, rfl, .localVariables hname hmoves⟩
    rcases hname with hname | hname <;> simp [Attribute.isMovable, hname]
  | typeAnnotations hname hbody =>
    have hmoves := moveTypeAnnotations_moves a.name hm hbody
    refine .inr ⟨?_, fun _ => rfl, _, rfl, rfl, rfl, .typeAnnotations hname hmoves⟩
    rcases hname with hname | hname <;> simp [Attribute.isMovable, hname]
  | dropped hstack hlines hvariables htypes =>
    rw [not_or] at hvariables htypes
    refine .inl ⟨?_, rfl⟩
    simp [Attribute.isMovable, Attribute.isStackMap, hstack, hlines, hvariables, htypes]

lemma moveAttributes_moves (hm : m.Faithful) {as : List Attribute} {moved moved' : Moved}
    (one : (as.filter Attribute.isStackMap).length ≤ 1)
    (h : moveAttributes pool m as moved = .ok moved') :
    (as.filter Attribute.isStackMap = [] → moved'.frames = moved.frames) ∧
      ∃ bs, moved'.attributes = bs.reverse ++ moved.attributes ∧
        List.Forall₂ (Attribute.Moves pool m.offsets moved'.frames)
          (as.filter Attribute.isMovable) bs := by
  induction as generalizing moved with
  | nil =>
    cases h
    exact ⟨fun _ => rfl, [], rfl, .nil⟩
  | cons a as ih =>
    obtain ⟨next, hnext, h⟩ := moveAttributes_cons_iff.1 h
    -- behind the one stack map nothing sets the frames, and in front of it they do not matter
    cases hstack : a.isStackMap with
    | false =>
      rw [List.filter_cons_of_neg (by simp [hstack])] at one ⊢
      obtain ⟨hframes, bs, hbs, hmoves⟩ := ih one h
      rcases moveAttribute_moves hm hnext with ⟨hdrop, rfl⟩ | ⟨hmove, hkeep, a', ha', hbody⟩
      · rw [List.filter_cons_of_neg (by simp [hdrop])]
        exact ⟨hframes, bs, hbs, hmoves⟩
      · rw [List.filter_cons_of_pos hmove]
        refine ⟨fun hnone => (hframes hnone).trans (hkeep hstack), a' :: bs, ?_, ?_⟩
        · rw [hbs, ha']
          simp
        · exact .cons (hbody.of_isStackMap_eq_false hstack) hmoves
    | true =>
      rw [List.filter_cons_of_pos hstack] at one ⊢
      have hnone : as.filter Attribute.isStackMap = [] := by
        rw [← List.length_eq_zero_iff]
        simpa using one
      obtain ⟨hframes, bs, hbs, hmoves⟩ := ih (by simp [hnone]) h
      rcases moveAttribute_moves hm hnext with ⟨hdrop, -⟩ | ⟨hmove, -, a', ha', hbody⟩
      · simp [Attribute.isMovable, hstack] at hdrop
      · rw [List.filter_cons_of_pos hmove]
        refine ⟨fun hcons => absurd hcons (List.cons_ne_nil _ _), a' :: bs, ?_, ?_⟩
        · rw [hbs, ha']
          simp
        · rw [hframes hnone] at hmoves ⊢
          exact .cons hbody hmoves

end Relocation

def StandsAt (ins : Insertion) (bytes : Bytes) (i : Instruction) (p : Place) : Prop :=
  ∃ (front rest : Bytes) (j : Instruction),
    bytes = front ++ (i.prologueOf ins ++ (i.epilogueOf ins ++ (j.encode ++ rest))) ∧
      p.block = front.length + (i.prologueOf ins).length ∧
      p.instruction = p.block + (i.epilogueOf ins).length ∧ i.Alike j

def offsetsBetween (placed : List (Instruction × Place)) (oldEnd newEnd : Nat) : OffsetMap where
  block old new := (∃ a ∈ placed, a.1.offset = old ∧ a.2.block = new) ∨ old = oldEnd ∧ new = newEnd
  instruction old new :=
    (∃ a ∈ placed, a.1.offset = old ∧ a.2.instruction = new) ∨ old = oldEnd ∧ new = newEnd

namespace Relocates

variable {pool : Pool} {code : Code} {ins : Insertion} {body : Body}
  {placed : List (Instruction × Place)} {stop : Nat}

lemma stands_tail (h : Relocates pool code ins body placed stop) {tail : List (Instruction × Place)}
    {blocks : List Bytes} {pos : Nat} (hmem : ∀ a ∈ tail, a ∈ placed)
    (hplaced : PlacedFrom ins pos tail stop)
    (hb : List.Forall₂ (fun a b => Relocation.emit ins (Placement.of placed stop) a = .ok b)
      tail blocks) {front : Bytes} (hfront : front.length = pos) :
    front.length + blocks.flatten.length = stop ∧
      ∀ a ∈ tail, StandsAt ins (front ++ blocks.flatten) a.1 a.2 := by
  induction hb generalizing pos front with
  | nil => exact ⟨hfront.trans hplaced.symm, nofun⟩
  | @cons a b tail blocks hab _ ih =>
    obtain ⟨i, p⟩ := a
    obtain ⟨rfl, hplaced⟩ := hplaced
    have hi := hmem _ List.mem_cons_self
    obtain ⟨-, halike, -, hsize⟩ := h.image_fits hi
    have hblock := h.emit_eq hi hab
    have hnext : (front ++ b).length = (i.placeAt ins pos).instruction +
        i.sizeAt (i.placeAt ins pos).instruction := by
      rw [← hsize, ← length_encode, hblock]
      simp only [placeAt, List.length_append, hfront]
      omega
    obtain ⟨hstop, hstands⟩ := ih (fun c hc => hmem c (List.mem_cons_of_mem _ hc)) hplaced hnext
    rw [List.flatten_cons, ← List.append_assoc]
    refine ⟨?_, ?_⟩
    · rw [← hstop]
      simp only [List.length_append]
      omega
    · rintro c (- | ⟨-, hc⟩)
      · refine ⟨front, blocks.flatten, (Placement.of placed stop).image i, ?_, ?_, rfl, halike⟩
        · rw [hblock]
          simp only [List.append_assoc]
        · rw [hfront]
          rfl
      · exact hstands c hc

lemma stands (h : Relocates pool code ins body placed stop) :
    body.code.bytes.length = stop ∧ ∀ a ∈ placed, StandsAt ins body.code.bytes a.1 a.2 := by
  obtain ⟨blocks, hb, hbytes⟩ := h.blocks
  have hnone : ([] : Bytes).length = 0 := rfl
  obtain ⟨hstop, hstands⟩ := h.stands_tail (fun _ ha => ha) h.places hb hnone
  rw [hbytes]
  exact ⟨by simpa using hstop, hstands⟩

lemma exists_place?_iff (h : Relocates pool code ins body placed stop) (f : Place → Nat)
    (hf : f ⟨stop, stop⟩ = stop) {old new : Nat} :
    (∃ p, (Placement.of placed stop).place? old = some p ∧ f p = new) ↔
      (∃ a ∈ placed, a.1.offset = old ∧ f a.2 = new) ∨ old = code.bytes.length ∧ new = stop := by
  simp only [Placement.place?_eq_some_iff h.tiles, h.length_code]
  constructor
  · rintro ⟨p, ⟨i, hi, ho⟩ | ⟨ho, rfl⟩, hp⟩
    · exact .inl ⟨(i, p), hi, ho, hp⟩
    · exact .inr ⟨ho, hp.symm.trans hf⟩
  · rintro (⟨⟨i, p⟩, hi, ho, hp⟩ | ⟨ho, rfl⟩)
    · exact ⟨p, .inl ⟨i, hi, ho⟩, hp⟩
    · exact ⟨_, .inr ⟨ho, rfl⟩, hf⟩

lemma offsets_eq (h : Relocates pool code ins body placed stop) :
    (Placement.of placed stop).offsets = offsetsBetween placed code.bytes.length stop := by
  rw [Placement.offsets, offsetsBetween, OffsetMap.mk.injEq]
  refine ⟨funext₂ fun old new => propext ?_, funext₂ fun old new => propext ?_⟩
  · rw [Placement.block_eq_ok_iff, h.exists_place?_iff (·.block) rfl]
  · rw [Placement.instruction?, Option.map_eq_some_iff, h.exists_place?_iff (·.instruction) rfl]

end Relocates

/-- What a code holds besides its instructions goes with them: the new code has the old instructions
at these places, and everything else in the body says of them what it said before. -/
structure Accompanies (pool : Pool) (code : Code) (ins : Insertion) (body : Body)
    (placed : List (Instruction × Place)) (o : OffsetMap) : Prop where
  decoded : decode code.bytes = .ok (placed.map Prod.fst)
  places : PlacedFrom ins 0 placed body.code.bytes.length
  stands : ∀ a ∈ placed, StandsAt ins body.code.bytes a.1 a.2
  handlers : List.Forall₂ (Handler.Moves o) code.handlers body.code.handlers
  ranges : ∀ handler ∈ body.code.handlers, handler.Fits body.code.bytes.length
  frames : code.attributes.filter Attribute.isStackMap = [] → body.frames = []
  attributes : List.Forall₂ (Attribute.Moves pool o body.frames)
    (code.attributes.filter Attribute.isMovable) body.code.attributes

/-- Relocation of a code that was read moves all that names an offset along with the instructions. -/
theorem Code.relocate_accompanies {bytes : Bytes} {file : ClassFile} {method : Method} {index : Nat}
    {code : Code} {ins : Insertion} {body : Body} (parsed : ClassFile.parse bytes = .ok file)
    (hm : method ∈ file.methods) (hc : method.code = some (index, code))
    (one : (code.attributes.filter Attribute.isStackMap).length ≤ 1)
    (h : code.relocate file.pool ins = .ok body) :
    ∃ placed, Accompanies file.pool code ins body placed
      (offsetsBetween placed code.bytes.length body.code.bytes.length) := by
  obtain ⟨placed, stop, hr⟩ := relocates h
  obtain ⟨-, hfits, -⟩ := ClassFile.parse_iff.1 parsed
  obtain ⟨-, -, -, -, -, -, -, hcode, -⟩ := (hfits.methods.2 method hm).exists_code hc
  obtain ⟨hstop, hstands⟩ := hr.stands
  obtain ⟨moved, hmoved, hattributes, hframes⟩ := hr.attributes
  obtain ⟨hnone, bs, hbs, hmoves⟩ := Relocation.moveAttributes_moves hr.faithful one hmoved
  have hlast : body.code.attributes = bs := by
    rw [hattributes, hbs, List.append_nil, List.reverse_reverse]
  refine ⟨placed, hr.decoded, hstop ▸ hr.places, hstands, ?_, ?_, ?_, ?_⟩
  · rw [hstop, ← hr.offsets_eq]
    exact hr.handlers.imp fun _ _ => Relocation.moveHandler_moves hr.faithful
  · intro new hnew
    obtain ⟨old, hold, hmove⟩ := exists_of_forall₂ hr.handlers.flip hnew
    rw [hstop]
    exact (hr.handler_fits hmove (hcode.handlers.2 old hold).1).1
  · rw [hframes]
    exact hnone
  · rw [hstop, ← hr.offsets_eq, hlast, hframes]
    exact hmoves

namespace Sample

def guardedPool : Pool :=
  ⟨pool.slots ++ #[.utf8 "StackMapTable", .utf8 "LocalVariableTable"], 8, pool.raw ++
    [1, 0, 13, 83, 116, 97, 99, 107, 77, 97, 112, 84, 97, 98, 108, 101, 1, 0, 18, 76, 111, 99,
      97, 108, 86, 97, 114, 105, 97, 98, 108, 101, 84, 97, 98, 108, 101]⟩

def guarded : Code where
  maxStack := 1
  maxLocals := 1
  bytes := [0xbb, 0x00, 0x02, 0x4b, 0xb1]
  handlers := [⟨0, 3, 4, 0⟩]
  attributes := [⟨6, "StackMapTable", [0, 1, 67, 8, 0, 0]⟩,
    ⟨7, "LocalVariableTable", [0, 1, 0, 3, 0, 2, 0, 3, 0, 4, 0, 0]⟩]

def guardedFile : ClassFile :=
  { file with
    pool := guardedPool
    methods := [⟨9, 3, 4, "f", "()V", [⟨5, "Code", guarded.encode⟩], some (0, guarded), []⟩] }

def guardedBody : Body where
  code :=
    { guarded with
      bytes := [0x00, 0xbb, 0x00, 0x02, 0x4b, 0x00, 0xb1]
      handlers := [⟨1, 4, 5, 0⟩]
      attributes := [⟨6, "StackMapTable", [0, 1, 68, 8, 0, 1]⟩,
        ⟨7, "LocalVariableTable", [0, 1, 0, 4, 0, 3, 0, 3, 0, 4, 0, 0]⟩] }
  frames := [⟨4, .sameLocals1 (.uninitialized 1)⟩]

end Sample

theorem Code.relocate_accompanies_sample :
    ∃ placed, Accompanies Sample.guardedPool Sample.guarded ⟨[0x00], [0x00]⟩ Sample.guardedBody
      placed (offsetsBetween placed 5 7) := by
  have hparse : ClassFile.parse Sample.guardedFile.encode = .ok Sample.guardedFile := by
    decide +kernel
  have hrelocate : Sample.guarded.relocate Sample.guardedFile.pool ⟨[0x00], [0x00]⟩ =
      .ok Sample.guardedBody := by decide +kernel
  exact Code.relocate_accompanies hparse List.mem_cons_self rfl (by decide) hrelocate

end ClassWeaver
