import ClassWeaver.Proofs.Code.EffectEquivariance
import ClassWeaver.Proofs.Code.ConsistentStacks

namespace ClassWeaver

open Function

lemma agrees_rename_iff {f : Nat → Nat} (hf : Injective f) {declared : List StackType} {s : Stack} :
    Agrees (declared.map (StackType.rename f)) (s.map (StackType.rename f)) ↔
      Agrees declared s := by
  have hslot : ∀ d t : StackType,
      (d.rename f = .top ∨ d.rename f = t.rename f) ↔ d = .top ∨ d = t := by
    intro d t
    rw [StackType.rename_eq_top_iff, (StackType.rename_injective hf).eq_iff]
  unfold Agrees
  rw [← List.map_reverse, List.forall₂_map_left_iff, List.forall₂_map_right_iff]
  simp only [hslot]

section Types

variable {f : Nat → Nat} {g : Nat → Except CodeFault Nat}

lemma FrameType.mapOffset_spec (hg : ∀ old new, g old = .ok new → new = f old)
    {t t' : FrameType} (h : t.mapOffset g = .ok t') :
    List.replicate t'.width t'.stackType =
      (List.replicate t.width t.stackType).map (StackType.rename f) := by
  cases t with
  | uninitialized old =>
    obtain ⟨new, hn, rfl⟩ := map_eq_ok_iff.1 h
    rw [hg old new hn]
    rfl
  | _ =>
    cases h
    rfl

lemma mapOffset_all_spec (hg : ∀ old new, g old = .ok new → new = f old)
    {ts ts' : List FrameType} (h : ts.mapM (FrameType.mapOffset g) = .ok ts') :
    (ts'.flatMap fun t => List.replicate t.width t.stackType) =
      (ts.flatMap fun t => List.replicate t.width t.stackType).map (StackType.rename f) := by
  have hall := mapM_eq_ok_iff.1 h
  clear h
  induction hall with
  | nil => rfl
  | cons ht _ ih =>
    rw [List.flatMap_cons, List.flatMap_cons, List.map_append, ih, FrameType.mapOffset_spec hg ht]

lemma FrameKind.declaredStack_mapOffset (hg : ∀ old new, g old = .ok new → new = f old)
    {k k' : FrameKind} (h : k.mapOffset g = .ok k') :
    k'.declaredStack = k.declaredStack.map (StackType.rename f) := by
  cases k with
  | same =>
    cases h
    rfl
  | chop count =>
    cases h
    rfl
  | sameLocals1 t =>
    obtain ⟨t', ht, rfl⟩ := map_eq_ok_iff.1 h
    have hs := FrameType.mapOffset_spec hg ht
    simpa [declaredStack] using hs
  | append locals =>
    obtain ⟨locals', -, rfl⟩ := map_eq_ok_iff.1 h
    rfl
  | full locals stack =>
    obtain ⟨locals', -, h⟩ := bind_eq_ok_iff.1 h
    obtain ⟨stack', hs, h⟩ := bind_eq_ok_iff.1 h
    cases h
    exact mapOffset_all_spec hg hs

end Types

namespace Frame

lemma deltaAfter_lt {p offset delta : Nat} (h : deltaAfter (some p) offset = .ok delta) :
    p < offset := by
  rw [deltaAfter] at h
  split at h
  · assumption
  · cases h

lemma encodeFrom_sorted {previous : Option Nat} {frames : List Frame} {done : List Bytes}
    {bs : Bytes} (h : encodeFrom previous frames done = .ok bs) :
    (∀ p, previous = some p → ∀ frame ∈ frames, p < frame.offset) ∧
      (frames.map (·.offset)).Pairwise (· < ·) := by
  induction frames generalizing previous done with
  | nil => exact ⟨nofun, .nil⟩
  | cons frame frames ih =>
    rw [encodeFrom] at h
    cases hd : deltaAfter previous frame.offset with
    | error fault =>
      rw [hd] at h
      cases h
    | ok delta =>
      rw [hd] at h
      dsimp only at h
      split at h
      · cases h
      · obtain ⟨hfirst, hsorted⟩ := ih h
        have hlater := hfirst frame.offset rfl
        refine ⟨?_, ?_⟩
        · rintro p rfl g hg
          have hp := deltaAfter_lt hd
          rcases List.mem_cons.1 hg with rfl | hg
          · exact hp
          · exact Nat.lt_trans hp (hlater g hg)
        · rw [List.map_cons, List.pairwise_cons, List.forall_mem_map]
          exact ⟨hlater, hsorted⟩

lemma nodup_of_encode {frames : List Frame} {bs : Bytes} (h : encode frames = .ok bs) :
    (frames.map (·.offset)).Nodup := by
  obtain ⟨body, hb, -⟩ := map_eq_ok_iff.1 h
  exact (encodeFrom_sorted hb).2.imp Nat.ne_of_lt

end Frame

def lastFrames : List Attribute → List Frame → List Frame
  | [], frames => frames
  | a :: rest, frames =>
    if a.name = "StackMapTable" then
      match Frame.parse a.body with
      | .ok frames => lastFrames rest frames
      | .error _ => lastFrames rest frames
    else lastFrames rest frames

def Code.asBody (code : Code) : Body := ⟨code, lastFrames code.attributes []⟩

namespace Relocation

variable {pool : Pool} {m : Placement}

/-- What relocation does with an attribute, by its name. -/
inductive Treats (pool : Pool) (m : Placement) (moved : Moved) (a : Attribute) : Moved → Prop
  | stackMap {old frames : List Frame} {body : Bytes} (hname : a.name = "StackMapTable")
    (hold : Frame.parse a.body = .ok old) (hframes : old.mapM (moveFrame m) = .ok frames)
    (hbody : Frame.encode frames = .ok body) : Treats pool m moved a { moved.keep a body with frames }
  | lineNumbers {body : Bytes} (hname : a.name = "LineNumberTable")
    (hbody : moveTable 4 (moveLineNumber m) a.body = .ok body) :
    Treats pool m moved a (moved.keep a body)
  | localVariables {body : Bytes}
    (hname : a.name = "LocalVariableTable" ∨ a.name = "LocalVariableTypeTable")
    (hbody : moveTable 10 (moveLocalVariable m) a.body = .ok body) :
    Treats pool m moved a (moved.keep a body)
  | typeAnnotations {body : Bytes}
    (hname : a.name = "RuntimeVisibleTypeAnnotations" ∨ a.name = "RuntimeInvisibleTypeAnnotations")
    (hbody : Read.runAt 0 a.body (moveTypeAnnotations a.name m pool) = .ok body) :
    Treats pool m moved a (moved.keep a body)
  | dropped (hstack : a.name ≠ "StackMapTable") (hlines : a.name ≠ "LineNumberTable")
    (hvariables : ¬ (a.name = "LocalVariableTable" ∨ a.name = "LocalVariableTypeTable"))
    (htypes : ¬ (a.name = "RuntimeVisibleTypeAnnotations" ∨
      a.name = "RuntimeInvisibleTypeAnnotations")) : Treats pool m moved a moved

section Names

variable {a : Attribute} (moved : Moved)

lemma moveAttribute_of_lineNumbers (hname : a.name = "LineNumberTable") :
    moveAttribute pool m moved a =
      (moveTable 4 (moveLineNumber m) a.body).map (moved.keep a) := by
  have hstack : a.name ≠ "StackMapTable" := by simp [hname]
  rw [moveAttribute, if_neg hstack, if_pos hname]

lemma moveAttribute_of_localVariables
    (hname : a.name = "LocalVariableTable" ∨ a.name = "LocalVariableTypeTable") :
    moveAttribute pool m moved a =
      (moveTable 10 (moveLocalVariable m) a.body).map (moved.keep a) := by
  have hstack : a.name ≠ "StackMapTable" := by rcases hname with h | h <;> simp [h]
  have hlines : a.name ≠ "LineNumberTable" := by rcases hname with h | h <;> simp [h]
  rw [moveAttribute, if_neg hstack, if_neg hlines, if_pos hname]

lemma moveAttribute_of_typeAnnotations
    (hname : a.name = "RuntimeVisibleTypeAnnotations" ∨
      a.name = "RuntimeInvisibleTypeAnnotations") :
    moveAttribute pool m moved a =
      (Read.runAt 0 a.body (moveTypeAnnotations a.name m pool)).map (moved.keep a) := by
  have hstack : a.name ≠ "StackMapTable" := by rcases hname with h | h <;> simp [h]
  have hlines : a.name ≠ "LineNumberTable" := by rcases hname with h | h <;> simp [h]
  have hvariables : ¬ (a.name = "LocalVariableTable" ∨ a.name = "LocalVariableTypeTable") := by
    rcases hname with h | h <;> simp [h]
  rw [moveAttribute, if_neg hstack, if_neg hlines, if_neg hvariables, if_pos hname]

end Names

lemma moveAttribute_eq_ok_iff {a : Attribute} {moved moved' : Moved} :
    moveAttribute pool m moved a = .ok moved' ↔ Treats pool m moved a moved' := by
  constructor
  · intro h
    unfold moveAttribute at h
    split at h
    · next hname =>
      obtain ⟨old, hold, h⟩ := bind_eq_ok_iff.1 h
      obtain ⟨frames, hframes, h⟩ := bind_eq_ok_iff.1 h
      obtain ⟨body, hbody, h⟩ := bind_eq_ok_iff.1 h
      cases h
      exact .stackMap hname (mapError_eq_ok_iff.1 hold) hframes (mapError_eq_ok_iff.1 hbody)
    next hstack =>
    split at h
    · next hname =>
      obtain ⟨body, hbody, rfl⟩ := map_eq_ok_iff.1 h
      exact .lineNumbers hname hbody
    next hlines =>
    split at h
    · next hname =>
      obtain ⟨body, hbody, rfl⟩ := map_eq_ok_iff.1 h
      exact .localVariables hname hbody
    next hvariables =>
    split at h
    · next hname =>
      obtain ⟨body, hbody, rfl⟩ := map_eq_ok_iff.1 h
      exact .typeAnnotations hname hbody
    · next htypes =>
      cases h
      exact .dropped hstack hlines hvariables htypes
  · intro h
    cases h with
    | stackMap hname hold hframes hbody =>
      rw [moveAttribute, if_pos hname]
      exact bind_eq_ok_iff.2 ⟨_, mapError_eq_ok_iff.2 hold, bind_eq_ok_iff.2 ⟨_, hframes,
        bind_eq_ok_iff.2 ⟨_, mapError_eq_ok_iff.2 hbody, rfl⟩⟩⟩
    | lineNumbers hname hbody =>
      rw [moveAttribute_of_lineNumbers moved hname]
      exact map_eq_ok_iff.2 ⟨_, hbody, rfl⟩
    | localVariables hname hbody =>
      rw [moveAttribute_of_localVariables moved hname]
      exact map_eq_ok_iff.2 ⟨_, hbody, rfl⟩
    | typeAnnotations hname hbody =>
      rw [moveAttribute_of_typeAnnotations moved hname]
      exact map_eq_ok_iff.2 ⟨_, hbody, rfl⟩
    | dropped hstack hlines hvariables htypes =>
      rw [moveAttribute, if_neg hstack, if_neg hlines, if_neg hvariables, if_neg htypes]

lemma moveAttributes_cons_iff {a : Attribute} {as : List Attribute} {moved moved' : Moved} :
    moveAttributes pool m (a :: as) moved = .ok moved' ↔
      ∃ next, moveAttribute pool m moved a = .ok next ∧
        moveAttributes pool m as next = .ok moved' := by
  rw [moveAttributes]
  cases moveAttribute pool m moved a <;> simp

def Carried (m : Placement) (frames frames' : List Frame) : Prop :=
  List.Forall₂ (fun frame frame' => moveFrame m frame = .ok frame') frames frames' ∧
    (frames'.map (·.offset)).Nodup

lemma moveAttribute_frames {a : Attribute} {moved moved' : Moved} {frames : List Frame}
    (hc : Carried m frames moved.frames) (h : moveAttribute pool m moved a = .ok moved') :
    Carried m (lastFrames [a] frames) moved'.frames := by
  have hother (hname : a.name ≠ "StackMapTable") : Carried m (lastFrames [a] frames) moved.frames := by
    rwa [lastFrames, if_neg hname]
  cases moveAttribute_eq_ok_iff.1 h with
  | stackMap hname hold hframes hbody =>
    rw [lastFrames, if_pos hname, hold]
    exact ⟨mapM_eq_ok_iff.1 hframes, Frame.nodup_of_encode hbody⟩
  | lineNumbers hname => exact hother (by simp [hname])
  | localVariables hname => exact hother (by rcases hname with h | h <;> simp [h])
  | typeAnnotations hname => exact hother (by rcases hname with h | h <;> simp [h])
  | dropped hstack => exact hother hstack

lemma lastFrames_cons (a : Attribute) (as : List Attribute) (frames : List Frame) :
    lastFrames (a :: as) frames = lastFrames as (lastFrames [a] frames) := by
  simp only [lastFrames]
  split
  · split <;> rfl
  · rfl

lemma moveAttributes_frames {as : List Attribute} {moved moved' : Moved} {frames : List Frame}
    (hc : Carried m frames moved.frames) (h : moveAttributes pool m as moved = .ok moved') :
    Carried m (lastFrames as frames) moved'.frames := by
  induction as generalizing moved frames with
  | nil =>
    cases h
    exact hc
  | cons a as ih =>
    obtain ⟨next, hnext, h⟩ := moveAttributes_cons_iff.1 h
    rw [lastFrames_cons]
    exact ih (moveAttribute_frames hc hnext) h

end Relocation

lemma Relocates.frames_carried {pool : Pool} {code : Code} {ins : Insertion} {body : Body}
    {placed : List (Instruction × Place)} {stop : Nat}
    (h : Relocates pool code ins body placed stop) :
    Relocation.Carried (Placement.of placed stop) code.asBody.frames body.frames := by
  obtain ⟨moved, hm, -, hf⟩ := h.attributes
  have hempty : Relocation.Carried (Placement.of placed stop) []
      (Relocation.Moved.mk [] []).frames := ⟨.nil, List.nodup_nil⟩
  rw [hf]
  exact Relocation.moveAttributes_frames hempty hm

end ClassWeaver
