import ClassWeaver.Proofs.ClassFile.Contents
import ClassWeaver.Proofs.Code.PlacementComposition
import ClassWeaver.Proofs.Code.LengthBounds
import ClassWeaver.Proofs.Code.StackMapRoundTrip

namespace ClassWeaver

open Read

lemma Read.Carries.spelled_spec {ε α : Type} {item item' : ReadOr ε α} (h : Carries item item')
    {r r' : Reader} {bs : Bytes} (hr : spelled item r = .ok (bs, r')) :
    r.rest = bs ++ r'.rest ∧ ∃ a, Accepts item' bs a := by
  obtain ⟨⟨a, s⟩, ha, he⟩ := map_eq_ok_iff.1 hr
  cases he
  obtain ⟨front, hf, ho, haccepts⟩ := h _ _ _ ha
  rw [ho, hf, Nat.add_sub_cancel_left, List.take_left]
  exact ⟨rfl, a, haccepts⟩

lemma Read.Carries.accepts_spelled {ε α : Type} {item item' : ReadOr ε α} (h : Carries item item')
    {r r' : Reader} {bs : Bytes} (hr : spelled item r = .ok (bs, r')) :
    Accepts (spelled item') bs bs := by
  obtain ⟨-, a, haccepts⟩ := h.spelled_spec hr
  intro pos rest
  refine map_eq_ok_iff.2 ⟨_, haccepts pos rest, ?_⟩
  simp

lemma Read.bind_both {ε α β : Type} {item : ReadOr ε α} {next next' : α → ReadOr ε β} {r : Reader}
    {x x' : β × Reader} (h : (item >>= next) r = .ok x) (h' : (item >>= next') r = .ok x') :
    ∃ a s, item r = .ok (a, s) ∧ next a s = .ok x ∧ next' a s = .ok x' := by
  obtain ⟨a, s, ha, hx⟩ := Read.bind_eq_ok_iff.1 h
  obtain ⟨a', s', ha', hx'⟩ := Read.bind_eq_ok_iff.1 h'
  rw [ha] at ha'
  cases ha'
  exact ⟨a, s, ha, hx, hx'⟩

namespace Relocation

/-- Of the same bytes `item₁` and `item` take as many, and what `item₁` makes of them is read by
`item₂` as what `item` makes of them. -/
def Rereads (item₁ item₂ item : ReadOr CodeFault Bytes) : Prop :=
  ∀ r bs₁ r₁ bs r', item₁ r = .ok (bs₁, r₁) → item r = .ok (bs, r') →
    r' = r₁ ∧ Accepts item₂ bs₁ bs

lemma Rereads.timesFrom {item₁ item₂ item : ReadOr CodeFault Bytes} (h : Rereads item₁ item₂ item)
    {n : Nat} {r r₁ r' : Reader} {done₁ done bss₁ bss : List Bytes}
    (h₁ : timesFrom item₁ n done₁ r = .ok (bss₁, r₁))
    (h' : timesFrom item n done r = .ok (bss, r')) :
    r' = r₁ ∧ ∃ tail₁ tail, bss₁ = done₁.reverse ++ tail₁ ∧ bss = done.reverse ++ tail ∧
      tail.length = n ∧ List.Forall₂ (Accepts item₂) tail₁ tail := by
  induction n generalizing r done₁ done with
  | zero =>
    cases h₁
    cases h'
    exact ⟨rfl, [], [], by simp, by simp, rfl, .nil⟩
  | succ n ih =>
    rw [timesFrom_succ] at h₁ h'
    obtain ⟨b₁, s₁, hb₁, h₁⟩ := Read.bind_eq_ok_iff.1 h₁
    obtain ⟨b, s, hb, h'⟩ := Read.bind_eq_ok_iff.1 h'
    obtain ⟨rfl, hfirst⟩ := h _ _ _ _ _ hb₁ hb
    obtain ⟨hr, tail₁, tail, rfl, rfl, hlen, hall⟩ := ih h₁ h'
    exact ⟨hr, b₁ :: tail₁, b :: tail, by simp, by simp, by simp [hlen], .cons hfirst hall⟩

lemma Rereads.times {item₁ item₂ item : ReadOr CodeFault Bytes} (h : Rereads item₁ item₂ item)
    {n : Nat} {r r₁ r' : Reader} {bss₁ bss : List Bytes}
    (h₁ : times n item₁ r = .ok (bss₁, r₁)) (h' : times n item r = .ok (bss, r')) :
    r' = r₁ ∧ Accepts (times n item₂) bss₁.flatten bss := by
  obtain ⟨hr, tail₁, tail, rfl, rfl, hlen, hall⟩ := h.timesFrom h₁ h'
  exact ⟨hr, Accepts.times hall hlen⟩

variable {m₁ m₂ m : Placement} {pool pool₁ : Pool} (name : String)

lemma accepts_word (context : String) (w : UInt16) :
    Accepts (reading name (u16 context)) (be16 w) w := (accepts_u16 context w).mapFault _

lemma accepts_byte (context : String) (b : UInt8) :
    Accepts (reading name (u8 context)) [b] b := (accepts_u8 context b).mapFault _

lemma rereads_variableRange (h : m₁.Composes m₂ m) : Rereads (moveVariableRange name m₁)
    (moveVariableRange name m₂) (moveVariableRange name m) := by
  intro r bs₁ r₁ bs r' h₁ h'
  obtain ⟨start, s, -, h₁, h'⟩ := Read.bind_both h₁ h'
  obtain ⟨length, s, -, h₁, h'⟩ := Read.bind_both h₁ h'
  obtain ⟨index, ⟨pos, rest⟩, -, h₁, h'⟩ := Read.bind_both h₁ h'
  obtain ⟨range₁, hrange₁, h₁⟩ := lift_then_iff.1 h₁
  obtain ⟨range, hrange, h'⟩ := lift_then_iff.1 h'
  obtain ⟨rfl, rfl⟩ := pure_eq_ok_iff.1 h₁
  obtain ⟨rfl, rfl⟩ := pure_eq_ok_iff.1 h'
  obtain ⟨start₁, length₁, rfl, hagain⟩ := moveRange_again h hrange₁ hrange
  refine ⟨rfl, ?_⟩
  rw [List.append_assoc]
  refine (accepts_word name _ start₁).bind ((accepts_word name _ length₁).bind ?_)
  exact (accepts_word name _ index).bind_nil ((accepts_lift hagain).then_pure _)

lemma offsetTarget_again (h : m₁.Composes m₂ m) {tag : UInt8} {old : UInt16} {argument bs₁ bs : Bytes}
    {s r₁ r' : Reader}
    (h₁ : (match m₁.instruction? old.toNat with
      | some new => pure (tag :: (count16 new ++ argument))
      | none => Read.fail (annotationFault name (.unplaced old.toNat)) :
        ReadOr CodeFault Bytes) s = .ok (bs₁, r₁))
    (h' : (match m.instruction? old.toNat with
      | some new => pure (tag :: (count16 new ++ argument))
      | none => Read.fail (annotationFault name (.unplaced old.toNat)) :
        ReadOr CodeFault Bytes) s = .ok (bs, r')) :
    r' = r₁ ∧ ∃ (w : UInt16) (new : Nat), bs₁ = tag :: (be16 w ++ argument) ∧
      bs = tag :: (count16 new ++ argument) ∧ m₂.instruction? w.toNat = some new := by
  cases hi₁ : m₁.instruction? old.toNat with
  | none =>
    rw [hi₁] at h₁
    cases h₁
  | some new₁ =>
    cases hi : m.instruction? old.toNat with
    | none =>
      rw [hi] at h'
      cases h'
    | some new =>
      rw [hi₁] at h₁
      rw [hi] at h'
      obtain ⟨rfl, rfl⟩ := pure_eq_ok_iff.1 h₁
      obtain ⟨rfl, rfl⟩ := pure_eq_ok_iff.1 h'
      obtain ⟨hagain, hle⟩ := h.instruction hi₁ hi
      rw [Code.maxLength] at hle
      exact ⟨rfl, UInt16.ofNat new₁, new, rfl, rfl, by rw [toNat_count16 (by omega), hagain]⟩

lemma rereads_target (h : m₁.Composes m₂ m) : Rereads (moveTarget name m₁) (moveTarget name m₂)
    (moveTarget name m) := by
  intro r bs₁ r₁ bs r' h₁ h'
  obtain ⟨tag, s, -, h₁, h'⟩ := Read.bind_both h₁ h'
  -- both readers have read the same tag, so that they take the same branch
  split at h₁
  · next htag =>
    rw [if_pos htag] at h'
    obtain ⟨n, s, -, h₁, h'⟩ := Read.bind_both h₁ h'
    obtain ⟨ranges₁, s₁, hranges₁, h₁⟩ := Read.bind_eq_ok_iff.1 h₁
    obtain ⟨ranges, s', hranges, h'⟩ := Read.bind_eq_ok_iff.1 h'
    obtain ⟨rfl, rfl⟩ := pure_eq_ok_iff.1 h₁
    obtain ⟨rfl, rfl⟩ := pure_eq_ok_iff.1 h'
    obtain ⟨rfl, haccepts⟩ := (rereads_variableRange name h).times hranges₁ hranges
    refine ⟨rfl, (accepts_byte name _ tag).bind ?_⟩
    rw [if_pos htag]
    exact (accepts_word name _ n).bind (haccepts.then_pure _)
  next hvariable =>
    rw [if_neg hvariable] at h'
    split at h₁
    · next htag =>
      rw [if_pos htag] at h'
      obtain ⟨handler, s, -, h₁, h'⟩ := Read.bind_both h₁ h'
      obtain ⟨rfl, rfl⟩ := pure_eq_ok_iff.1 h₁
      obtain ⟨rfl, rfl⟩ := pure_eq_ok_iff.1 h'
      refine ⟨rfl, (accepts_byte name _ tag).bind ?_⟩
      rw [if_neg hvariable, if_pos htag]
      exact (accepts_word name _ handler).then_pure _
    next hhandler =>
      rw [if_neg hhandler] at h'
      split at h₁
      · next htag =>
        rw [if_pos htag] at h'
        obtain ⟨old, s, -, h₁, h'⟩ := Read.bind_both h₁ h'
        dsimp only at h₁ h'
        split at h₁
        · next hargument =>
          rw [if_pos hargument] at h'
          obtain ⟨argument, s, hread, h₁, h'⟩ := Read.bind_both h₁ h'
          rw [map_eq_pure_bind] at hread
          obtain ⟨b, s', -, hb⟩ := Read.bind_eq_ok_iff.1 hread
          obtain ⟨rfl, rfl⟩ := pure_eq_ok_iff.1 hb
          obtain ⟨rfl, w, new, rfl, rfl, hnew⟩ := offsetTarget_again name h h₁ h'
          refine ⟨rfl, (accepts_byte name _ tag).bind ?_⟩
          rw [if_neg hvariable, if_neg hhandler, if_pos htag]
          refine (accepts_word name _ w).bind ?_
          rw [if_pos hargument, hnew]
          exact ((accepts_byte name _ b).then_pure fun b => [b]).then_pure _
        · next hargument =>
          rw [if_neg hargument] at h'
          obtain ⟨rfl, w, new, rfl, rfl, hnew⟩ := offsetTarget_again name h h₁ h'
          refine ⟨rfl, (accepts_byte name _ tag).bind ?_⟩
          rw [if_neg hvariable, if_neg hhandler, if_pos htag, List.append_nil]
          refine (accepts_word name _ w).bind_nil ?_
          rw [if_neg hargument, hnew]
          exact (accepts_pure _).then_pure _
      · cases h₁

lemma rereads_annotatedType (h : m₁.Composes m₂ m) (hp : pool.Extends pool₁) :
    Rereads (moveAnnotatedType name m₁ pool) (moveAnnotatedType name m₂ pool₁)
      (moveAnnotatedType name m pool) := by
  intro r bs₁ r₁ bs r' h₁ h'
  obtain ⟨target₁, s₁, htarget₁, h₁⟩ := Read.bind_eq_ok_iff.1 h₁
  obtain ⟨target, s', htarget, h'⟩ := Read.bind_eq_ok_iff.1 h'
  obtain ⟨rfl, haccepts⟩ := rereads_target name h _ _ _ _ _ htarget₁ htarget
  obtain ⟨rest, s, hrest, h₁, h'⟩ := Read.bind_both h₁ h'
  obtain ⟨rfl, rfl⟩ := pure_eq_ok_iff.1 h₁
  obtain ⟨rfl, rfl⟩ := pure_eq_ok_iff.1 h'
  have hspelled := (carries_readPathAndType hp).accepts_spelled (mapError_eq_ok_iff.1 hrest)
  exact ⟨rfl, haccepts.bind ((hspelled.mapFault _).then_pure _)⟩

lemma composed_moveTypeAnnotations (h : m₁.Composes m₂ m) (hp : pool.Extends pool₁) :
    Composed (fun body => Read.runAt 0 body (moveTypeAnnotations name m₁ pool))
      (fun body => Read.runAt 0 body (moveTypeAnnotations name m₂ pool₁))
      (fun body => Read.runAt 0 body (moveTypeAnnotations name m pool)) := by
  intro body new new' hnew hnew'
  obtain ⟨r₁, h₁⟩ := runAt_eq_ok_iff.1 hnew
  obtain ⟨r', h'⟩ := runAt_eq_ok_iff.1 hnew'
  obtain ⟨n, s, -, h₁, h'⟩ := Read.bind_both h₁ h'
  obtain ⟨moved₁, ⟨pos, rest⟩, hmoved₁, h₁⟩ := Read.bind_eq_ok_iff.1 h₁
  obtain ⟨moved, s', hmoved, h'⟩ := Read.bind_eq_ok_iff.1 h'
  obtain ⟨rfl, haccepts⟩ := (rereads_annotatedType name h hp).times hmoved₁ hmoved
  obtain ⟨hz, h₁⟩ := else_fail_iff.1 (remaining_then_iff.1 h₁)
  obtain ⟨-, h'⟩ := else_fail_iff.1 (remaining_then_iff.1 h')
  obtain ⟨rfl, rfl⟩ := pure_eq_ok_iff.1 h₁
  obtain ⟨rfl, rfl⟩ := pure_eq_ok_iff.1 h'
  have hword := accepts_word name "type annotations" n 0 moved₁.flatten
  have htimes := haccepts (0 + (be16 n).length) []
  rw [List.append_nil] at htimes
  exact runAt_eq_ok_iff.2 ⟨_, Read.bind_eq_ok_iff.2 ⟨n, _, hword,
    Read.bind_eq_ok_iff.2 ⟨moved, _, htimes, rfl⟩⟩⟩

lemma moveStackMap_again (h : m₁.Composes m₂ m) {body new : Bytes} {old frames frames' : List Frame}
    (hold : Frame.parse body = .ok old) (hframes : old.mapM (moveFrame m₁) = .ok frames)
    (hnew : Frame.encode frames = .ok new) (hframes' : old.mapM (moveFrame m) = .ok frames') :
    Frame.parse new = .ok frames ∧ frames.mapM (moveFrame m₂) = .ok frames' := by
  have hbound (i j : Nat) (hj : moveNew m₁ i = .ok j) : j < 65536 := by
    rw [moveNew_eq_ok_iff] at hj
    obtain ⟨p, hp, rfl⟩ := Option.map_eq_some_iff.1 hj
    exact Nat.lt_succ_of_le (h.bounded hp).2
  have hfit := (Frame.allFit_of_parse hold).mapOffsets hbound hframes
  exact ⟨Frame.parse_encode hfit hnew, (composed_moveFrame h).mapM _ _ _ hframes hframes'⟩

lemma keep_again {f₁ f₂ f : Bytes → Except CodeFault Bytes} (hf : Composed f₁ f₂ f) {a : Attribute}
    {moved₁ moved₁' moved moved' : Moved} (h₁ : (f₁ a.body).map (moved₁.keep a) = .ok moved₁')
    (h' : (f a.body).map (moved.keep a) = .ok moved') :
    ∃ body : Bytes, moved₁'.attributes = { a with body } :: moved₁.attributes ∧
      (f₂ body).map (moved.keep { a with body }) = .ok moved' := by
  obtain ⟨body₁, hbody₁, rfl⟩ := map_eq_ok_iff.1 h₁
  obtain ⟨body, hbody, rfl⟩ := map_eq_ok_iff.1 h'
  exact ⟨body₁, rfl, map_eq_ok_iff.2 ⟨body, hf _ _ _ hbody₁ hbody, rfl⟩⟩

lemma moveAttribute_again (h : m₁.Composes m₂ m) (hp : pool.Extends pool₁) {a : Attribute}
    {moved₁ moved₁' moved moved' : Moved}
    (h₁ : moveAttribute pool m₁ moved₁ a = .ok moved₁')
    (h' : moveAttribute pool m moved a = .ok moved') :
    (moved₁'.attributes = moved₁.attributes ∧ moved' = moved) ∨
      ∃ body : Bytes, moved₁'.attributes = { a with body } :: moved₁.attributes ∧
        moveAttribute pool₁ m₂ moved { a with body } = .ok moved' := by
  cases moveAttribute_eq_ok_iff.1 h₁ with
  | @stackMap old frames₁ body hname hold hframes₁ hbody =>
    rw [moveAttribute, if_pos hname] at h'
    obtain ⟨old', hold', h'⟩ := bind_eq_ok_iff.1 h'
    obtain rfl := Except.ok.inj (hold.symm.trans (mapError_eq_ok_iff.1 hold'))
    obtain ⟨frames, hframes, h'⟩ := bind_eq_ok_iff.1 h'
    obtain ⟨hparse, hmove⟩ := moveStackMap_again h hold hframes₁ hbody hframes
    refine .inr ⟨body, rfl, ?_⟩
    rw [moveAttribute, if_pos hname]
    exact bind_eq_ok_iff.2 ⟨frames₁, mapError_eq_ok_iff.2 hparse,
      bind_eq_ok_iff.2 ⟨frames, hmove, h'⟩⟩
  | lineNumbers hname =>
    rw [moveAttribute_of_lineNumbers _ hname] at h₁ h'
    obtain ⟨body, hkeep, hagain⟩ := keep_again (composed_moveTable (composed_moveLineNumber h)
      fun _ _ => length_moveLineNumber) h₁ h'
    exact .inr ⟨body, hkeep,
      (moveAttribute_of_lineNumbers (a := { a with body }) moved hname).trans hagain⟩
  | localVariables hname =>
    rw [moveAttribute_of_localVariables _ hname] at h₁ h'
    obtain ⟨body, hkeep, hagain⟩ := keep_again (composed_moveTable (composed_moveLocalVariable h)
      fun _ _ => length_moveLocalVariable) h₁ h'
    exact .inr ⟨body, hkeep,
      (moveAttribute_of_localVariables (a := { a with body }) moved hname).trans hagain⟩
  | typeAnnotations hname =>
    rw [moveAttribute_of_typeAnnotations _ hname] at h₁ h'
    obtain ⟨body, hkeep, hagain⟩ := keep_again (composed_moveTypeAnnotations a.name h hp) h₁ h'
    exact .inr ⟨body, hkeep,
      (moveAttribute_of_typeAnnotations (a := { a with body }) moved hname).trans hagain⟩
  | dropped hstack hlines hvariables htypes =>
    have hkeep : moveAttribute pool m moved a = .ok moved :=
      moveAttribute_eq_ok_iff.2 (.dropped hstack hlines hvariables htypes)
    exact .inl ⟨rfl, Except.ok.inj (h'.symm.trans hkeep)⟩

lemma moveAttributes_again (h : m₁.Composes m₂ m) (hp : pool.Extends pool₁) {as : List Attribute}
    {moved₁ moved₁' moved moved' : Moved}
    (h₁ : moveAttributes pool m₁ as moved₁ = .ok moved₁')
    (h' : moveAttributes pool m as moved = .ok moved') :
    ∃ bs, moved₁'.attributes = bs.reverse ++ moved₁.attributes ∧
      moveAttributes pool₁ m₂ bs moved = .ok moved' := by
  induction as generalizing moved₁ moved with
  | nil =>
    cases h₁
    cases h'
    exact ⟨[], rfl, rfl⟩
  | cons a as ih =>
    obtain ⟨next₁, hnext₁, h₁⟩ := moveAttributes_cons_iff.1 h₁
    obtain ⟨next', hnext', h'⟩ := moveAttributes_cons_iff.1 h'
    obtain ⟨bs, hbs, hmove⟩ := ih h₁ h'
    rcases moveAttribute_again h hp hnext₁ hnext' with ⟨hsame, rfl⟩ | ⟨body, hb, hagain⟩
    · exact ⟨bs, by rw [hbs, hsame], hmove⟩
    · exact ⟨{ a with body } :: bs, by rw [hbs, hb]; simp,
        moveAttributes_cons_iff.2 ⟨next', hagain, hmove⟩⟩

end Relocation

end ClassWeaver
