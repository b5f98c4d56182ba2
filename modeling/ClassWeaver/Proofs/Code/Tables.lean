import ClassWeaver.Proofs.Code.AttributeComposition

namespace ClassWeaver

open Read

structure OffsetMap where
  block : Nat → Nat → Prop
  instruction : Nat → Nat → Prop

def Placement.offsets (m : Placement) : OffsetMap where
  block old new := m.block old = .ok new
  instruction old new := m.instruction? old = some new

structure LineNumber where
  start : UInt16
  line : UInt16

def LineNumber.encode (e : LineNumber) : Bytes := be16 e.start ++ be16 e.line

structure LineNumber.Moves (o : OffsetMap) (e e' : LineNumber) : Prop where
  start : o.block e.start.toNat e'.start.toNat
  line : e'.line = e.line

structure Stretch where
  start : UInt16
  length : UInt16

namespace Stretch

def stop (s : Stretch) : Nat := s.start.toNat + s.length.toNat

def encode (s : Stretch) : Bytes := be16 s.start ++ be16 s.length

structure Moves (o : OffsetMap) (s s' : Stretch) : Prop where
  start : o.block s.start.toNat s'.start.toNat
  stop : o.block s.stop s'.stop

end Stretch

structure LocalVariable where
  scope : Stretch
  name : UInt16
  type : UInt16
  index : UInt16

def LocalVariable.encode (e : LocalVariable) : Bytes :=
  e.scope.encode ++ (be16 e.name ++ (be16 e.type ++ be16 e.index))

structure LocalVariable.Moves (o : OffsetMap) (e e' : LocalVariable) : Prop where
  scope : e.scope.Moves o e'.scope
  name : e'.name = e.name
  type : e'.type = e.type
  index : e'.index = e.index

structure VariableRange where
  scope : Stretch
  index : UInt16

def VariableRange.encode (e : VariableRange) : Bytes := e.scope.encode ++ be16 e.index

structure VariableRange.Moves (o : OffsetMap) (e e' : VariableRange) : Prop where
  scope : e.scope.Moves o e'.scope
  index : e'.index = e.index

def encodeTable {α : Type} (encode : α → Bytes) (entries : List α) : Bytes :=
  count16 entries.length ++ entries.flatMap encode

inductive TypeTarget where
  | scopes (tag : UInt8) (ranges : List VariableRange)
  | handler (index : UInt16)
  | instruction (tag : UInt8) (offset : UInt16)
  | argument (tag : UInt8) (offset : UInt16) (index : UInt8)

namespace TypeTarget

def Fits : TypeTarget → Prop
  | scopes tag ranges => (tag = 0x40 ∨ tag = 0x41) ∧ ranges.length < 65536
  | handler _ => True
  | instruction tag _ => 0x43 ≤ tag ∧ tag < 0x47
  | argument tag _ _ => 0x47 ≤ tag ∧ tag ≤ 0x4b

def encode : TypeTarget → Bytes
  | scopes tag ranges => tag :: encodeTable VariableRange.encode ranges
  | handler index => 0x42 :: be16 index
  | instruction tag offset => tag :: be16 offset
  | argument tag offset index => tag :: (be16 offset ++ [index])

inductive Moves (o : OffsetMap) : TypeTarget → TypeTarget → Prop
  | scopes {tag ranges ranges'} : List.Forall₂ (VariableRange.Moves o) ranges ranges' →
      Moves o (scopes tag ranges) (scopes tag ranges')
  | handler {index} : Moves o (handler index) (handler index)
  | instruction {tag} {old new : UInt16} : o.instruction old.toNat new.toNat →
      Moves o (instruction tag old) (instruction tag new)
  | argument {tag index} {old new : UInt16} : o.instruction old.toNat new.toNat →
      Moves o (argument tag old index) (argument tag new index)

lemma Moves.fits {o : OffsetMap} {t t' : TypeTarget} (h : Moves o t t') (ht : t.Fits) : t'.Fits := by
  cases h with
  | scopes h => exact ⟨ht.1, h.length_eq ▸ ht.2⟩
  | _ => exact ht

lemma Moves.length_eq {o : OffsetMap} {t t' : TypeTarget} (h : Moves o t t') :
    t'.encode.length = t.encode.length := by
  cases h with
  | scopes h =>
    have hlen : ∀ e e' : VariableRange, e.Moves o e' → e'.encode.length = e.encode.length :=
      fun _ _ _ => rfl
    have hall := total_eq_of_forall₂ h hlen
    simp only [encode, encodeTable, List.length_cons, List.length_append, count16, length_be16,
      length_flatMap, hall]
  | _ => rfl

end TypeTarget

structure AnnotatedType where
  target : TypeTarget
  rest : Bytes

namespace AnnotatedType

structure Fits (pool : Pool) (e : AnnotatedType) : Prop where
  target : e.target.Fits
  rest : Accepts (Relocation.readPathAndType pool) e.rest ()

def encode (e : AnnotatedType) : Bytes := e.target.encode ++ e.rest

structure Moves (o : OffsetMap) (e e' : AnnotatedType) : Prop where
  target : e.target.Moves o e'.target
  rest : e'.rest = e.rest

lemma Moves.fits {o : OffsetMap} {pool : Pool} {e e' : AnnotatedType} (h : Moves o e e')
    (he : e.Fits pool) : e'.Fits pool :=
  ⟨h.target.fits he.target, h.rest ▸ he.rest⟩

lemma Moves.length_eq {o : OffsetMap} {e e' : AnnotatedType} (h : Moves o e e') :
    e'.encode.length = e.encode.length := by
  rw [encode, encode, List.length_append, List.length_append, h.target.length_eq, h.rest]

end AnnotatedType

def MovesTable {α : Type} (encode : α → Bytes) (fits : α → Prop) (moves : α → α → Prop)
    (old new : Bytes) : Prop :=
  new.length = old.length ∧ ∃ entries entries' : List α, AllFit fits entries ∧
    AllFit fits entries' ∧ List.Forall₂ moves entries entries' ∧
      old = encodeTable encode entries ∧ new = encodeTable encode entries'

lemma movesTable_of_entries {α : Type} {encode : α → Bytes} {fits : α → Prop}
    {moves : α → α → Prop} {entries entries' : List α}
    (hlen : ∀ e e', moves e e' → (encode e').length = (encode e).length)
    (hkept : ∀ e e', moves e e' → fits e → fits e') (hfits : AllFit fits entries)
    (hmoves : List.Forall₂ moves entries entries') :
    MovesTable encode fits moves (encodeTable encode entries) (encodeTable encode entries') := by
  refine ⟨?_, entries, entries', hfits, ⟨hmoves.length_eq ▸ hfits.1, ?_⟩, hmoves, rfl, rfl⟩
  · have hall := total_eq_of_forall₂ hmoves hlen
    simp only [encodeTable, List.length_append, count16, length_be16, length_flatMap, hall]
  · intro e' he'
    obtain ⟨e, he, hmove⟩ := exists_of_forall₂ hmoves.flip he'
    exact hkept e e' hmove (hfits.2 e he)

/-- New offsets fit sixteen bits, and blocks keep the order of the old offsets. -/
structure Placement.Faithful (m : Placement) : Prop where
  bounded {old : Nat} {p : Place} : m.place? old = some p →
    p.block ≤ p.instruction ∧ p.instruction ≤ Code.maxLength
  ordered {a b : Nat} {p q : Place} : m.place? a = some p → m.place? b = some q → a ≤ b →
    p.block ≤ q.block

lemma Relocates.faithful {pool : Pool} {code : Code} {ins : Insertion} {body : Body}
    {placed : List (Instruction × Place)} {stop : Nat}
    (h : Relocates pool code ins body placed stop) : (Placement.of placed stop).Faithful := by
  refine ⟨?_, ?_⟩
  · intro old p hp
    obtain ⟨hle, hstop⟩ := Placement.block_le h.places h.tiles hp
    exact ⟨hle, Nat.le_trans hstop h.stop_le⟩
  · intro a b p q hp hq hab
    rcases Nat.eq_or_lt_of_le hab with rfl | hlt
    · rw [hp] at hq
      cases hq
      exact Nat.le_refl _
    · have hle := (Placement.block_le h.places h.tiles hp).1
      have hmono := Placement.place?_lt h.places h.tiles hp hq hlt
      omega

namespace Placement.Faithful

variable {m : Placement}

lemma block_lt (hm : m.Faithful) {old new : Nat} (h : m.block old = .ok new) : new < 65536 := by
  obtain ⟨p, hp, rfl⟩ := block_eq_ok_iff.1 h
  obtain ⟨hle, hmax⟩ := hm.bounded hp
  exact Nat.lt_succ_of_le (Nat.le_trans hle hmax)

lemma instruction_lt (hm : m.Faithful) {old new : Nat} (h : m.instruction? old = some new) :
    new < 65536 := by
  obtain ⟨p, hp, rfl⟩ := Option.map_eq_some_iff.1 h
  exact Nat.lt_succ_of_le (hm.bounded hp).2

lemma block_mono (hm : m.Faithful) {a b a' b' : Nat} (ha : m.block a = .ok a')
    (hb : m.block b = .ok b') (hle : a ≤ b) : a' ≤ b' := by
  obtain ⟨p, hp, rfl⟩ := block_eq_ok_iff.1 ha
  obtain ⟨q, hq, rfl⟩ := block_eq_ok_iff.1 hb
  exact hm.ordered hp hq hle

lemma pc (hm : m.Faithful) {old new : UInt16} (h : m.pc old = .ok new) :
    m.offsets.block old.toNat new.toNat := by
  obtain ⟨block, hb, rfl⟩ := map_eq_ok_iff.1 h
  show m.block old.toNat = .ok (UInt16.ofNat block).toNat
  rw [toNat_count16 (hm.block_lt hb), hb]

end Placement.Faithful

namespace Relocation

variable {m : Placement}

lemma moveRange_moves (hm : m.Faithful) {start length : UInt16} {new : Bytes}
    (h : moveRange m start length = .ok new) :
    ∃ s' : Stretch, new = s'.encode ∧ Stretch.Moves m.offsets ⟨start, length⟩ s' := by
  obtain ⟨newStart, hstart, h⟩ := bind_eq_ok_iff.1 h
  obtain ⟨newStop, hstop, h⟩ := bind_eq_ok_iff.1 h
  cases h
  have hblock := hm.pc hstart
  have hle := hm.block_mono hblock hstop (Nat.le_add_right _ _)
  have hlt := hm.block_lt hstop
  refine ⟨⟨newStart, UInt16.ofNat (newStop - newStart.toNat)⟩, rfl, hblock, ?_⟩
  show m.block _ = .ok (newStart.toNat + (UInt16.ofNat (newStop - newStart.toNat)).toNat)
  rw [toNat_count16 (by omega), Nat.add_sub_cancel' hle]
  exact hstop

lemma moveLineNumber_moves (hm : m.Faithful) {old new : Bytes} (hlen : old.length = 4)
    (h : moveLineNumber m old = .ok new) : ∃ e e' : LineNumber, old = e.encode ∧
      new = e'.encode ∧ e.Moves m.offsets e' := by
  match old, hlen with
  | [a, b, c, d], _ =>
    obtain ⟨pc, hpc, rfl⟩ := map_eq_ok_iff.1 h
    refine ⟨⟨ofBe16 a b, ofBe16 c d⟩, ⟨pc, ofBe16 c d⟩, ?_, ?_, hm.pc hpc, rfl⟩
    · rw [LineNumber.encode, be16_ofBe16, be16_ofBe16]
      rfl
    · rw [LineNumber.encode, be16_ofBe16]

lemma moveLocalVariable_moves (hm : m.Faithful) {old new : Bytes} (hlen : old.length = 10)
    (h : moveLocalVariable m old = .ok new) : ∃ e e' : LocalVariable, old = e.encode ∧
      new = e'.encode ∧ e.Moves m.offsets e' := by
  match old, hlen with
  | [a, b, c, d, n, n', t, t', i, i'], _ =>
    obtain ⟨range, hrange, rfl⟩ := map_eq_ok_iff.1 h
    obtain ⟨s', rfl, hmoves⟩ := moveRange_moves hm hrange
    refine ⟨⟨⟨ofBe16 a b, ofBe16 c d⟩, ofBe16 n n', ofBe16 t t', ofBe16 i i'⟩,
      ⟨s', ofBe16 n n', ofBe16 t t', ofBe16 i i'⟩, ?_, ?_, hmoves, rfl, rfl, rfl⟩
    · simp only [LocalVariable.encode, Stretch.encode, be16_ofBe16]
      rfl
    · simp only [LocalVariable.encode, be16_ofBe16]
      rfl

lemma exists_entries {α : Type} {encode : α → Bytes} {moves : α → α → Prop} {olds news : List Bytes}
    (h : List.Forall₂ (fun old new => ∃ e e', old = encode e ∧ new = encode e' ∧ moves e e')
      olds news) :
    ∃ entries entries', olds = entries.map encode ∧ news = entries'.map encode ∧
      List.Forall₂ moves entries entries' := by
  induction h with
  | nil => exact ⟨[], [], rfl, rfl, .nil⟩
  | cons hentry _ ih =>
    obtain ⟨e, e', rfl, rfl, hmove⟩ := hentry
    obtain ⟨entries, entries', rfl, rfl, hmoves⟩ := ih
    exact ⟨e :: entries, e' :: entries', rfl, rfl, .cons hmove hmoves⟩

lemma moveTable_moves {α : Type} {size : Nat} {entry : Bytes → Except CodeFault Bytes}
    {encode : α → Bytes} {moves : α → α → Prop}
    (hlen : ∀ e e', moves e e' → (encode e').length = (encode e).length)
    (hentry : ∀ old new, old.length = size → entry old = .ok new →
      ∃ e e', old = encode e ∧ new = encode e' ∧ moves e e')
    {body new : Bytes} (h : moveTable size entry body = .ok new) :
    MovesTable encode (fun _ => True) moves body new := by
  unfold moveTable at h
  split at h
  next a b rest =>
    dsimp only at h
    split at h
    next hsize =>
      obtain ⟨news, hnews, rfl⟩ := map_eq_ok_iff.1 h
      obtain ⟨olds, holds, hn, hall, rfl⟩ := chunks_eq hsize []
      rw [List.reverse_nil, List.nil_append] at holds
      rw [holds] at hnews
      obtain ⟨entries, entries', rfl, rfl, hmoves⟩ := exists_entries <|
        forall₂_imp_of_mem (mapM_eq_ok_iff.1 hnews)
          fun old ho new _ hnew => hentry old new (hall old ho) hnew
      rw [List.length_map] at hn
      have hcount : count16 entries.length = [a, b] := by
        rw [hn, count16, UInt16.ofNat_toNat, be16_ofBe16]
      have hold : a :: b :: (entries.map encode).flatten = encodeTable encode entries := by
        rw [encodeTable, hcount, List.flatMap_def]
        rfl
      have hnew : a :: b :: (entries'.map encode).flatten = encodeTable encode entries' := by
        rw [encodeTable, ← hmoves.length_eq, hcount, List.flatMap_def]
        rfl
      have hlt := (ofBe16 a b).toNat_lt
      rw [hold, hnew]
      exact movesTable_of_entries hlen (fun _ _ _ _ => trivial) ⟨by omega, fun _ _ => trivial⟩ hmoves
    · cases h
  · cases h

section TypeAnnotations

def Rewrites {α : Type} (item : ReadOr CodeFault Bytes) (encode : α → Bytes) (fits : α → Prop)
    (moves : α → α → Prop) : Prop :=
  ∀ r new r', item r = .ok (new, r') →
    ∃ e e', fits e ∧ moves e e' ∧ r.rest = encode e ++ r'.rest ∧ new = encode e'

lemma Rewrites.timesFrom {α : Type} {item : ReadOr CodeFault Bytes} {encode : α → Bytes}
    {fits : α → Prop} {moves : α → α → Prop} (h : Rewrites item encode fits moves) {n : Nat}
    {r r' : Reader} {done news : List Bytes} (hr : timesFrom item n done r = .ok (news, r')) :
    ∃ entries entries', entries.length = n ∧ (∀ e ∈ entries, fits e) ∧
      List.Forall₂ moves entries entries' ∧ r.rest = entries.flatMap encode ++ r'.rest ∧
        news = done.reverse ++ entries'.map encode := by
  induction n generalizing r done with
  | zero =>
    cases hr
    exact ⟨[], [], rfl, nofun, .nil, rfl, by simp⟩
  | succ n ih =>
    rw [timesFrom_succ] at hr
    obtain ⟨new, s, hnew, hr⟩ := Read.bind_eq_ok_iff.1 hr
    obtain ⟨e, e', hfit, hmove, hrest, rfl⟩ := h _ _ _ hnew
    obtain ⟨entries, entries', hlen, hfits, hmoves, hs, rfl⟩ := ih hr
    refine ⟨e :: entries, e' :: entries', by simp [hlen], ?_, .cons hmove hmoves, ?_, by simp⟩
    · rintro a (- | ⟨-, ha⟩)
      · exact hfit
      · exact hfits a ha
    · rw [hrest, hs, List.flatMap_cons, List.append_assoc]

lemma Rewrites.table {α : Type} {item : ReadOr CodeFault Bytes} {encode : α → Bytes}
    {fits : α → Prop} {moves : α → α → Prop} (h : Rewrites item encode fits moves) {n : UInt16}
    {r r' : Reader} {news : List Bytes} (hr : times n.toNat item r = .ok (news, r')) :
    ∃ entries entries', AllFit fits entries ∧ List.Forall₂ moves entries entries' ∧
      be16 n ++ r.rest = encodeTable encode entries ++ r'.rest ∧
        be16 n ++ news.flatten = encodeTable encode entries' := by
  obtain ⟨entries, entries', hlen, hfits, hmoves, hrest, rfl⟩ := h.timesFrom hr
  have hcount : count16 entries.length = be16 n := by
    rw [hlen, count16, UInt16.ofNat_toNat]
  have hlt := n.toNat_lt
  refine ⟨entries, entries', ⟨by omega, hfits⟩, hmoves, ?_, ?_⟩
  · rw [encodeTable, hcount, hrest, List.append_assoc]
  · rw [encodeTable, ← hmoves.length_eq, hcount, List.flatMap_def]
    rfl

variable (name : String)

lemma rest_of_word {context : String} {w : UInt16} {r s : Reader}
    (h : reading name (u16 context) r = .ok (w, s)) : r.rest = be16 w ++ s.rest :=
  ((reads_u16 context _ _ _).1 (mapError_eq_ok_iff.1 h)).2.1

lemma rest_of_byte {context : String} {b : UInt8} {r s : Reader}
    (h : reading name (u8 context) r = .ok (b, s)) : r.rest = b :: s.rest :=
  ((reads_u8 context _ _ _).1 (mapError_eq_ok_iff.1 h)).2.1

lemma rewrites_variableRange (hm : m.Faithful) : Rewrites (moveVariableRange name m)
    VariableRange.encode (fun _ => True) (VariableRange.Moves m.offsets) := by
  intro r new r' h
  obtain ⟨start, s₁, hstart, h⟩ := Read.bind_eq_ok_iff.1 h
  obtain ⟨length, s₂, hlength, h⟩ := Read.bind_eq_ok_iff.1 h
  obtain ⟨index, ⟨pos, rest⟩, hindex, h⟩ := Read.bind_eq_ok_iff.1 h
  obtain ⟨range, hrange, h⟩ := lift_then_iff.1 h
  obtain ⟨rfl, rfl⟩ := pure_eq_ok_iff.1 h
  obtain ⟨s', rfl, hmoves⟩ := moveRange_moves hm hrange
  refine ⟨⟨⟨start, length⟩, index⟩, ⟨s', index⟩, trivial, ⟨hmoves, rfl⟩, ?_, rfl⟩
  rw [rest_of_word name hstart, rest_of_word name hlength, rest_of_word name hindex]
  simp only [VariableRange.encode, Stretch.encode, List.append_assoc]

lemma offsetTarget_moves (hm : m.Faithful) {tag : UInt8} {old : UInt16} {argument new : Bytes}
    {r r' : Reader}
    (h : (match m.instruction? old.toNat with
      | some new => pure (tag :: (count16 new ++ argument))
      | none => Read.fail (annotationFault name (.unplaced old.toNat)) :
        ReadOr CodeFault Bytes) r = .ok (new, r')) :
    r' = r ∧ ∃ w : UInt16, new = tag :: (be16 w ++ argument) ∧
      m.offsets.instruction old.toNat w.toNat := by
  cases hi : m.instruction? old.toNat with
  | none =>
    rw [hi] at h
    cases h
  | some place =>
    rw [hi] at h
    obtain ⟨rfl, rfl⟩ := pure_eq_ok_iff.1 h
    refine ⟨rfl, UInt16.ofNat place, rfl, ?_⟩
    show m.instruction? old.toNat = some (UInt16.ofNat place).toNat
    rw [toNat_count16 (hm.instruction_lt hi), hi]

lemma rewrites_target (hm : m.Faithful) : Rewrites (moveTarget name m) TypeTarget.encode
    TypeTarget.Fits (TypeTarget.Moves m.offsets) := by
  intro r new r' h
  obtain ⟨tag, s, htag, h⟩ := Read.bind_eq_ok_iff.1 h
  have hrest := rest_of_byte name htag
  split at h
  · next hvariable =>
    obtain ⟨n, s₁, hn, h⟩ := Read.bind_eq_ok_iff.1 h
    obtain ⟨ranges, s₂, hranges, h⟩ := Read.bind_eq_ok_iff.1 h
    obtain ⟨rfl, rfl⟩ := pure_eq_ok_iff.1 h
    obtain ⟨old, moved, hfits, hmoves, htable, htable'⟩ :=
      (rewrites_variableRange name hm).table hranges
    refine ⟨.scopes tag old, .scopes tag moved, ⟨hvariable, hfits.1⟩, .scopes hmoves, ?_, ?_⟩
    · rw [hrest, rest_of_word name hn, htable]
      rfl
    · rw [htable', TypeTarget.encode]
  next hvariable =>
  split at h
  · next hhandler =>
    obtain ⟨index, s₁, hindex, h⟩ := Read.bind_eq_ok_iff.1 h
    obtain ⟨rfl, rfl⟩ := pure_eq_ok_iff.1 h
    refine ⟨.handler index, .handler index, trivial, .handler, ?_, by rw [hhandler]; rfl⟩
    rw [hrest, rest_of_word name hindex, hhandler]
    rfl
  next hhandler =>
  split at h
  · next hoffset =>
    obtain ⟨old, s₁, hold, h⟩ := Read.bind_eq_ok_iff.1 h
    dsimp only at h
    split at h
    · next hargument =>
      obtain ⟨argument, s₂, hread, h⟩ := Read.bind_eq_ok_iff.1 h
      rw [map_eq_pure_bind] at hread
      obtain ⟨index, s₃, hindex, hread⟩ := Read.bind_eq_ok_iff.1 hread
      obtain ⟨rfl, rfl⟩ := pure_eq_ok_iff.1 hread
      obtain ⟨rfl, w, rfl, hmove⟩ := offsetTarget_moves name hm h
      refine ⟨.argument tag old index, .argument tag w index, ⟨hargument, hoffset.2⟩,
        .argument hmove, ?_, rfl⟩
      rw [hrest, rest_of_word name hold, rest_of_byte name hindex, TypeTarget.encode]
      simp only [List.cons_append, List.append_assoc, List.nil_append]
    · next hargument =>
      obtain ⟨rfl, w, rfl, hmove⟩ := offsetTarget_moves name hm h
      refine ⟨.instruction tag old, .instruction tag w, ⟨hoffset.1, UInt8.not_le.1 hargument⟩,
        .instruction hmove, ?_, ?_⟩
      · rw [hrest, rest_of_word name hold]
        rfl
      · rw [List.append_nil, TypeTarget.encode]
  · cases h

lemma rewrites_annotatedType (hm : m.Faithful) (pool : Pool) :
    Rewrites (moveAnnotatedType name m pool) AnnotatedType.encode (AnnotatedType.Fits pool)
      (AnnotatedType.Moves m.offsets) := by
  intro r new r' h
  obtain ⟨target, s, htarget, h⟩ := Read.bind_eq_ok_iff.1 h
  obtain ⟨rest, s₁, hrest, h⟩ := Read.bind_eq_ok_iff.1 h
  obtain ⟨rfl, rfl⟩ := pure_eq_ok_iff.1 h
  obtain ⟨t, t', hfit, hmove, hfront, rfl⟩ := rewrites_target name hm _ _ _ htarget
  obtain ⟨hspelled, ⟨⟩, haccepts⟩ :=
    (carries_readPathAndType (.refl pool)).spelled_spec (mapError_eq_ok_iff.1 hrest)
  refine ⟨⟨t, rest⟩, ⟨t', rest⟩, ⟨hfit, haccepts⟩, ⟨hmove, rfl⟩, ?_, rfl⟩
  rw [hfront, hspelled, AnnotatedType.encode, List.append_assoc]

lemma moveTypeAnnotations_moves (hm : m.Faithful) {pool : Pool} {body new : Bytes}
    (h : Read.runAt 0 body (moveTypeAnnotations name m pool) = .ok new) :
    MovesTable AnnotatedType.encode (AnnotatedType.Fits pool) (AnnotatedType.Moves m.offsets)
      body new := by
  obtain ⟨r', h⟩ := runAt_eq_ok_iff.1 h
  obtain ⟨n, s, hn, h⟩ := Read.bind_eq_ok_iff.1 h
  obtain ⟨moved, ⟨pos, rest⟩, hmoved, h⟩ := Read.bind_eq_ok_iff.1 h
  obtain ⟨hz, h⟩ := else_fail_iff.1 (remaining_then_iff.1 h)
  obtain ⟨rfl, rfl⟩ := pure_eq_ok_iff.1 h
  obtain ⟨entries, entries', hfits, hmoves, htable, htable'⟩ :=
    (rewrites_annotatedType name hm pool).table hmoved
  have hbody : body = be16 n ++ s.rest := rest_of_word name hn
  rw [List.length_eq_zero_iff.1 hz, List.append_nil, ← hbody] at htable
  rw [htable, htable']
  exact movesTable_of_entries (fun _ _ => AnnotatedType.Moves.length_eq)
    (fun _ _ => AnnotatedType.Moves.fits) hfits hmoves

end TypeAnnotations

end Relocation

end ClassWeaver
