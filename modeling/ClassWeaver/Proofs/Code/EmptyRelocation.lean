import ClassWeaver.Proofs.Code.RelocatedParts
import ClassWeaver.Proofs.Code.PlacementComposition
import ClassWeaver.Proofs.Code.Succession
import ClassWeaver.Proofs.Code.ShortestStackMap

/-! Relocation that inserts nothing. What it writes is the old code, except that the gaps in front of
the tables of switches hold zeros and that a stack map takes as few bytes as it can. -/

namespace ClassWeaver

open Instruction Read

def Operand.zeroPadded : Operand → Operand
  | .switch padding table => .switch (List.replicate padding.length 0) table
  | x => x

def Instruction.zeroPadded (i : Instruction) : Instruction :=
  { i with operand := i.operand.zeroPadded }

structure OffsetMap.Still (o : OffsetMap) : Prop where
  block {old new : Nat} : o.block old new → new = old
  instruction {old new : Nat} : o.instruction old new → new = old

lemma eq_of_forall₂ {α : Type} {r : α → α → Prop} (hr : ∀ a b, r a b → b = a) {as bs : List α}
    (h : List.Forall₂ r as bs) : bs = as := by
  have hsame : List.Forall₂ (· = ·) as bs := h.imp fun a b hab => (hr a b hab).symm
  rw [List.forall₂_eq_eq_eq] at hsame
  exact hsame.symm

section Still

variable {o : OffsetMap}

lemma Handler.Moves.eq {h h' : Handler} (hm : h.Moves o h') (ho : o.Still) : h' = h := by
  have hstart := UInt16.toNat.inj (ho.block hm.start)
  have hstop := UInt16.toNat.inj (ho.block hm.stop)
  have htarget := UInt16.toNat.inj (ho.block hm.target)
  have hcatch := hm.catchType
  obtain ⟨⟩ := h
  obtain ⟨⟩ := h'
  rw [Handler.mk.injEq]
  exact ⟨hstart, hstop, htarget, hcatch⟩

lemma FrameType.Moves.eq {t t' : FrameType} (hm : t.Moves o t') (ho : o.Still) : t' = t := by
  cases hm with
  | uninitialized h => rw [ho.instruction h]
  | other _ => rfl

lemma FrameKind.Moves.eq {k k' : FrameKind} (hm : k.Moves o k') (ho : o.Still) : k' = k := by
  have hall {ts ts' : List FrameType} (h : List.Forall₂ (FrameType.Moves o) ts ts') : ts' = ts :=
    eq_of_forall₂ (fun _ _ ht => ht.eq ho) h
  cases hm with
  | same => rfl
  | chop => rfl
  | sameLocals1 h => rw [h.eq ho]
  | append h => rw [hall h]
  | full hl hs => rw [hall hl, hall hs]

lemma Frame.Moves.eq {frame frame' : Frame} (hm : frame.Moves o frame') (ho : o.Still) :
    frame' = frame := by
  have hoffset := ho.block hm.offset
  have hkind := hm.kind.eq ho
  obtain ⟨⟩ := frame
  obtain ⟨⟩ := frame'
  rw [Frame.mk.injEq]
  exact ⟨hoffset, hkind⟩

lemma LineNumber.Moves.eq {e e' : LineNumber} (hm : e.Moves o e') (ho : o.Still) : e' = e := by
  have hstart := UInt16.toNat.inj (ho.block hm.start)
  have hline := hm.line
  obtain ⟨⟩ := e
  obtain ⟨⟩ := e'
  rw [LineNumber.mk.injEq]
  exact ⟨hstart, hline⟩

lemma Stretch.Moves.eq {s s' : Stretch} (hm : s.Moves o s') (ho : o.Still) : s' = s := by
  have hstart := UInt16.toNat.inj (ho.block hm.start)
  have hstop := ho.block hm.stop
  obtain ⟨start, length⟩ := s
  obtain ⟨start', length'⟩ := s'
  dsimp only [Stretch.stop] at hstart hstop
  subst hstart
  rw [UInt16.toNat.inj (Nat.add_left_cancel hstop)]

lemma LocalVariable.Moves.eq {e e' : LocalVariable} (hm : e.Moves o e') (ho : o.Still) :
    e' = e := by
  have hscope := hm.scope.eq ho
  have hname := hm.name
  have htype := hm.type
  have hindex := hm.index
  obtain ⟨⟩ := e
  obtain ⟨⟩ := e'
  rw [LocalVariable.mk.injEq]
  exact ⟨hscope, hname, htype, hindex⟩

lemma VariableRange.Moves.eq {e e' : VariableRange} (hm : e.Moves o e') (ho : o.Still) :
    e' = e := by
  have hscope := hm.scope.eq ho
  have hindex := hm.index
  obtain ⟨⟩ := e
  obtain ⟨⟩ := e'
  rw [VariableRange.mk.injEq]
  exact ⟨hscope, hindex⟩

lemma TypeTarget.Moves.eq {t t' : TypeTarget} (hm : t.Moves o t') (ho : o.Still) : t' = t := by
  cases hm with
  | scopes h => rw [eq_of_forall₂ (fun _ _ hr => hr.eq ho) h]
  | handler => rfl
  | instruction h => rw [UInt16.toNat.inj (ho.instruction h)]
  | argument h => rw [UInt16.toNat.inj (ho.instruction h)]

lemma AnnotatedType.Moves.eq {e e' : AnnotatedType} (hm : e.Moves o e') (ho : o.Still) :
    e' = e := by
  have htarget := hm.target.eq ho
  have hrest := hm.rest
  obtain ⟨⟩ := e
  obtain ⟨⟩ := e'
  rw [AnnotatedType.mk.injEq]
  exact ⟨htarget, hrest⟩

lemma MovesTable.eq {α : Type} {encode : α → Bytes} {fits : α → Prop} {moves : α → α → Prop}
    {old new : Bytes} (h : MovesTable encode fits moves old new)
    (hm : ∀ e e', moves e e' → e' = e) : new = old := by
  obtain ⟨-, entries, entries', -, -, hmoves, rfl, rfl⟩ := h
  rw [eq_of_forall₂ hm hmoves]

end Still

/-- A table for these frames, all others having more bytes. -/
structure Frame.IsShortest (frames : List Frame) (bs : Bytes) : Prop where
  parse : Frame.parse bs = .ok frames
  shortest : ∀ other, Frame.parse other = .ok frames → other = bs ∨ bs.length < other.length

lemma Frame.isShortest_encode {frames : List Frame} {old bs : Bytes}
    (h : Frame.parse old = .ok frames) (he : Frame.encode frames = .ok bs) :
    Frame.IsShortest frames bs := by
  refine ⟨Frame.parse_encode (Frame.allFit_of_parse h) he, fun other hother => ?_⟩
  obtain ⟨written, hw, hor⟩ := Frame.eq_encode_or_length_lt hother
  rw [he] at hw
  cases hw
  exact hor

namespace Attribute

structure Keeps (a a' : Attribute) : Prop where
  nameIndex : a'.nameIndex = a.nameIndex
  name : a'.name = a.name
  body : a.isStackMap = false → a'.body = a.body
  frames : a.isStackMap = true →
    ∃ frames, Frame.parse a.body = .ok frames ∧ Frame.IsShortest frames a'.body

def IsTight (a : Attribute) : Prop :=
  ∀ frames other, Frame.parse a.body = .ok frames → Frame.parse other = .ok frames →
    a.body.length ≤ other.length

lemma Keeps.eq {a a' : Attribute} (h : a.Keeps a') (ha : a.isStackMap = true → a.IsTight) :
    a' = a := by
  have hbody : a'.body = a.body := by
    cases hstack : a.isStackMap with
    | false => exact h.body hstack
    | true =>
      obtain ⟨frames, hold, hnew⟩ := h.frames hstack
      rcases hnew.shortest _ hold with hsame | hlt
      · exact hsame.symm
      · exact absurd hlt (Nat.not_lt.2 (ha hstack _ _ hold hnew.parse))
  obtain ⟨nameIndex, name, body⟩ := a
  obtain ⟨nameIndex', name', body'⟩ := a'
  rw [mk.injEq]
  exact ⟨h.nameIndex, h.name, hbody⟩

end Attribute

namespace Relocation

variable {pool : Pool} {m : Placement}

section Operands

variable {i : Instruction}

lemma branch_still (hs : m.offsets.Still) {source new : Nat} {target : Int}
    (h : m.branch source target = .ok new) : (new : Int) = target := by
  have hnew : new = target.toNat := hs.block (Placement.block_of_branch h)
  rw [Placement.branch] at h
  split at h
  · cases h
  · omega

lemma leads_still (hs : m.offsets.Still) {delta delta' : Int}
    (h : Leads m i i.offset delta delta') : delta' = delta := by
  obtain ⟨block, hb, ho⟩ := h
  have hblock := branch_still hs hb
  omega

lemma moveOperand_still (hs : m.offsets.Still) (hf : i.Fits) {x : Operand}
    (h : moveOperand m i i.offset = .ok x) : x = i.operand.zeroPadded := by
  have hredirects := redirects_of_moveOperand h
  generalize hx : i.operand = operand at hredirects
  cases hredirects with
  | plain => rfl
  | near hlead =>
    rw [Int16.toInt.inj (leads_still hs hlead)]
    rfl
  | far hlead =>
    rw [Int32.toInt.inj (leads_still hs hlead)]
    rfl
  | @table padding s default cases hdefault hcases =>
    have hsame : cases = s.cases := eq_of_forall₂ (fun c c' hc =>
      Prod.ext hc.1.symm (Int32.toInt.inj (leads_still hs hc.2))) hcases
    rw [Instruction.Fits, hx] at hf
    rw [Operand.zeroPadded, hf.2.1, Int32.toInt.inj (leads_still hs hdefault), hsame]

end Operands

lemma moveAttribute_stackMap {a : Attribute} {moved moved' : Moved} (ha : a.name = "StackMapTable")
    (h : moveAttribute pool m moved a = .ok moved') :
    ∃ body, Frame.encode moved'.frames = .ok body ∧
      moved'.attributes = { a with body } :: moved.attributes := by
  cases moveAttribute_eq_ok_iff.1 h with
  | stackMap _ _ _ hbody => exact ⟨_, hbody, rfl⟩
  | lineNumbers hname => simp [ha] at hname
  | localVariables hname => simp [ha] at hname
  | typeAnnotations hname => simp [ha] at hname
  | dropped hstack => exact absurd ha hstack

lemma moveAttribute_keeps (hm : m.Faithful) (hs : m.offsets.Still) {a : Attribute}
    {moved moved' : Moved} (h : moveAttribute pool m moved a = .ok moved') :
    (a.isMovable = false ∧ moved' = moved) ∨
      a.isMovable = true ∧ ∃ a', moved'.attributes = a' :: moved.attributes ∧ a.Keeps a' := by
  rcases moveAttribute_moves hm h with hdrop | ⟨hmove, -, a', ha', hbody⟩
  · exact .inl hdrop
  refine .inr ⟨hmove, a', ha', hbody.nameIndex, hbody.name, ?_, ?_⟩
  · intro hstack
    cases hbody.body with
    | stackMap hname => simp [Attribute.isStackMap, hname] at hstack
    | lineNumbers _ htable => exact htable.eq fun _ _ he => he.eq hs
    | localVariables _ htable => exact htable.eq fun _ _ he => he.eq hs
    | typeAnnotations _ htable => exact htable.eq fun _ _ he => he.eq hs
  · intro hstack
    have hname : a.name = "StackMapTable" := by simpa [Attribute.isStackMap] using hstack
    obtain ⟨body, hencode, hbody'⟩ := moveAttribute_stackMap hname h
    rw [ha'] at hbody'
    obtain ⟨rfl, -⟩ := List.cons.inj hbody'
    cases hbody.body with
    | @stackMap old _ hold _ hframes =>
      rw [eq_of_forall₂ (fun _ _ hframe => hframe.eq hs) hframes.frames] at hencode
      exact ⟨old, hold, Frame.isShortest_encode hold hencode⟩
    | lineNumbers hother => simp [hname] at hother
    | localVariables hother => simp [hname] at hother
    | typeAnnotations hother => simp [hname] at hother

lemma moveAttributes_keeps (hm : m.Faithful) (hs : m.offsets.Still) {as : List Attribute}
    {moved moved' : Moved} (h : moveAttributes pool m as moved = .ok moved') :
    ∃ bs, moved'.attributes = bs.reverse ++ moved.attributes ∧
      List.Forall₂ Attribute.Keeps (as.filter Attribute.isMovable) bs := by
  induction as generalizing moved with
  | nil =>
    cases h
    exact ⟨[], rfl, .nil⟩
  | cons a as ih =>
    obtain ⟨next, hnext, h⟩ := moveAttributes_cons_iff.1 h
    obtain ⟨bs, hbs, hkeeps⟩ := ih h
    rcases moveAttribute_keeps hm hs hnext with ⟨hdrop, rfl⟩ | ⟨hmove, a', ha', hkeep⟩
    · rw [List.filter_cons_of_neg (by simp [hdrop])]
      exact ⟨bs, hbs, hkeeps⟩
    · rw [List.filter_cons_of_pos hmove]
      refine ⟨a' :: bs, ?_, .cons hkeep hkeeps⟩
      rw [hbs, ha']
      simp

end Relocation

lemma Instruction.Fits.sizeAt_offset {i : Instruction} (h : i.Fits) : i.sizeAt i.offset = i.size := by
  unfold sizeAt
  split
  · next padding table hx =>
    rw [Fits, hx] at h
    rw [size, hx, Operand.size, h.2.1, Switch.sizeAt, Nat.add_assoc]
  · rfl

lemma Instruction.PlacedFrom.still {pos stop : Nat} {placed : List (Instruction × Place)}
    (h : PlacedFrom ⟨[], []⟩ pos placed stop) (ht : Tiles pos (placed.map Prod.fst)) :
    stop = pos + total size (placed.map Prod.fst) ∧
      ∀ a ∈ placed, a.2 = ⟨a.1.offset, a.1.offset⟩ := by
  have hplace (i : Instruction) (pos : Nat) : i.placeAt ⟨[], []⟩ pos = ⟨pos, pos⟩ := by
    simp [placeAt, prologueOf, epilogueOf]
  induction placed generalizing pos with
  | nil => exact ⟨h, List.forall_mem_nil _⟩
  | cons a placed ih =>
    obtain ⟨i, p⟩ := a
    obtain ⟨rfl, h⟩ := h
    obtain ⟨ho, hfit, ht⟩ := ht
    dsimp only at ho hfit
    subst ho
    rw [hplace] at h ⊢
    dsimp only at h
    rw [hfit.sizeAt_offset] at h
    obtain ⟨hstop, hall⟩ := ih h ht
    refine ⟨?_, List.forall_mem_cons.2 ⟨rfl, hall⟩⟩
    rw [hstop, List.map_cons, total_cons, Nat.add_assoc]

namespace Relocates

variable {pool : Pool} {code : Code} {body : Body} {placed : List (Instruction × Place)}
  {stop : Nat}

section

variable (h : Relocates pool code ⟨[], []⟩ body placed stop)

include h

lemma still : (Placement.of placed stop).offsets.Still := by
  obtain ⟨hstop, hall⟩ := h.places.still h.tiles
  rw [Nat.zero_add, ← h.length_code] at hstop
  rw [h.offsets_eq]
  constructor
  all_goals
    rintro old new (⟨a, ha, rfl, rfl⟩ | ⟨rfl, rfl⟩)
    · rw [hall a ha]
    · exact hstop

lemma bytes_zeroPadded (hne : code.bytes ≠ []) :
    body.code.bytes = encodeAll ((placed.map Prod.fst).map zeroPadded) := by
  rw [h.bytes_eq hne, encodeAll, List.nil_append,
    List.flatMap_map zeroPadded]
  apply List.flatMap_congr
  intro i hi
  obtain ⟨p, hp⟩ := h.exists_place hi
  obtain ⟨x, hx, himage⟩ := h.image_eq hp
  obtain rfl : p = ⟨i.offset, i.offset⟩ := (h.places.still h.tiles).2 _ hp
  have hnone : i.epilogueOf ⟨[], []⟩ = [] := by simp [epilogueOf]
  rw [hnone, List.nil_append, himage, Relocation.moveOperand_still h.still (h.tiles.fits hi) hx]
  rfl

lemma handlers_still : body.code.handlers = code.handlers :=
  eq_of_forall₂ (fun _ _ hmove => (Relocation.moveHandler_moves h.faithful hmove).eq h.still)
    h.handlers

lemma frames_still : body.frames = code.asBody.frames :=
  eq_of_forall₂ (fun _ _ hmove => (Relocation.moveFrame_moves hmove).eq h.still)
    h.frames_carried.1

lemma attributes_keep : List.Forall₂ Attribute.Keeps (code.attributes.filter Attribute.isMovable)
    body.code.attributes := by
  obtain ⟨moved, hmoved, hattributes, -⟩ := h.attributes
  obtain ⟨bs, hbs, hkeeps⟩ := Relocation.moveAttributes_keeps h.faithful h.still hmoved
  rw [hattributes, hbs, List.append_nil, List.reverse_reverse]
  exact hkeeps

end

end Relocates

structure Reproduces (code : Code) (is : List Instruction) (body : Body) : Prop where
  decoded : decode code.bytes = .ok is
  old : code.bytes = encodeAll is
  new : body.code.bytes = encodeAll (is.map zeroPadded)
  maxStack : body.code.maxStack = code.maxStack
  maxLocals : body.code.maxLocals = code.maxLocals
  handlers : body.code.handlers = code.handlers
  attributes : List.Forall₂ Attribute.Keeps (code.attributes.filter Attribute.isMovable)
    body.code.attributes
  frames : body.frames = code.asBody.frames

lemma Reproduces.code_eq {code : Code} {is : List Instruction} {body : Body}
    (h : Reproduces code is body) (padding : ∀ i ∈ is, i.zeroPadded = i)
    (all : body.code.attributes.length = code.attributes.length)
    (tight : ∀ a ∈ code.attributes, a.isStackMap = true → a.IsTight) : body.code = code := by
  have hbytes : body.code.bytes = code.bytes := by
    rw [h.new, h.old, List.map_congr_left padding, List.map_id']
  have hfilter : code.attributes.filter Attribute.isMovable = code.attributes := by
    rw [List.filter_eq_self, ← List.length_filter_eq_length_iff, h.attributes.length_eq, all]
  have hattributes : body.code.attributes = code.attributes := by
    have hkeeps := h.attributes
    rw [hfilter] at hkeeps
    exact eq_of_forall₂ (fun _ _ heq => heq)
      (forall₂_imp_of_mem hkeeps fun a ha a' _ hkeep => hkeep.eq (tight a ha))
  have hstack := h.maxStack
  have hlocals := h.maxLocals
  have hhandlers := h.handlers
  obtain ⟨⟨_, _, _, _, _⟩, _⟩ := body
  obtain ⟨_, _, _, _, _⟩ := code
  rw [Code.mk.injEq]
  exact ⟨hstack, hlocals, hbytes, hhandlers, hattributes⟩

/-- A code into which nothing is inserted is written as it was, and where nothing had to be filled,
dropped or shortened it is read again from the same bytes. -/
theorem Code.relocate_nothing {file : ClassFile} {bs : Bytes} {a : Attribute} {code : Code}
    {body : Body} (hfile : ClassFile.parse bs = .ok file) (hcode : file.HasCode a code)
    (h : code.relocate file.pool ⟨[], []⟩ = .ok body) :
    ∃ is, Reproduces code is body ∧
      ((∀ i ∈ is, i.zeroPadded = i) → body.code.attributes.length = code.attributes.length →
        (∀ b ∈ code.attributes, b.isStackMap = true → b.IsTight) →
        body.code.encode = a.body ∧ ∀ pos method,
          runAt pos body.code.encode (Code.read file.pool method) = .ok body.code) := by
  obtain ⟨hfits, hbody, -⟩ := hcode.fits hfile
  obtain ⟨placed, stop, hr⟩ := relocates h
  obtain ⟨hstack, hlocals⟩ := relocate_limits h
  have hreproduces : Reproduces code (placed.map Prod.fst) body :=
    ⟨hr.decoded, (decode_eq_ok_iff.1 hr.decoded).2, hr.bytes_zeroPadded hfits.nonempty, hstack,
      hlocals, hr.handlers_still, hr.attributes_keep, hr.frames_still⟩
  refine ⟨_, hreproduces, fun padding all tight => ?_⟩
  rw [hreproduces.code_eq padding all tight]
  exact ⟨hbody.symm, fun pos method => Code.read_iff.2 ⟨hfits, rfl⟩⟩

namespace Sample

def switching : Code where
  maxStack := 1
  maxLocals := 0
  bytes := [0x03, 0xaa, 0, 0, 0, 0, 0, 19, 0, 0, 0, 0, 0, 0, 0, 0, 0, 0, 0, 19, 0xb1]
  handlers := []
  attributes := [⟨6, "StackMapTable", [0, 1, 20]⟩]

def switchingFile : ClassFile :=
  { guardedFile with
    methods := [⟨9, 3, 4, "f", "()V", [⟨5, "Code", switching.encode⟩], some (0, switching), []⟩] }

end Sample

theorem Code.relocate_nothing_sample :
    runAt 0 Sample.switching.encode (Code.read Sample.switchingFile.pool "f") =
      .ok Sample.switching := by
  have hfile : ClassFile.parse Sample.switchingFile.encode = .ok Sample.switchingFile := by
    decide +kernel
  have hcode : Sample.switchingFile.HasCode ⟨5, "Code", Sample.switching.encode⟩
      Sample.switching :=
    ⟨_, List.mem_cons_self, List.mem_cons_self, rfl, 0, by decide +kernel⟩
  have h : Sample.switching.relocate Sample.switchingFile.pool ⟨[], []⟩ =
      .ok ⟨Sample.switching, [⟨20, .same⟩]⟩ := by decide +kernel
  obtain ⟨is, hreproduces, hagain⟩ := Code.relocate_nothing hfile hcode h
  refine (hagain ?_ rfl ?_).2 0 "f"
  · have hdecode : decode Sample.switching.bytes = .ok [⟨0, 0x03, .plain []⟩,
        ⟨1, 0xaa, .switch [0, 0] ⟨19, some 0, [(0, 19)]⟩⟩, ⟨20, 0xb1, .plain []⟩] := by
      decide +kernel
    rw [hreproduces.decoded] at hdecode
    cases hdecode
    decide
  · intro b hb _ frames other hparse hother
    obtain rfl := List.mem_singleton.1 hb
    have hframes : Frame.parse [0, 1, 20] = .ok [⟨20, .same⟩] := by decide +kernel
    rw [hframes] at hparse
    cases hparse
    obtain ⟨written, hwritten, hle⟩ := Frame.encode_of_parse hother
    have hencode : Frame.encode [⟨20, .same⟩] = .ok [0, 1, 20] := by decide +kernel
    rw [hencode] at hwritten
    cases hwritten
    exact hle

end ClassWeaver
