import ClassWeaver.Proofs.ClassFile.RoundTrip

/-! What is read ends where it ends and nowhere else. A reader that is given less than it has taken
finds the bytes truncated, and one that reads a whole class finds every byte behind it. -/

namespace ClassWeaver

namespace Read

variable {α β : Type}

def Cuts (item : Read α) : Prop :=
  ∀ r a r' front more, item r = .ok (a, r') → r.rest = front ++ (more ++ r'.rest) → more ≠ [] →
    ∃ context pos, item ⟨r.offset, front⟩ = .error (.truncated context pos)

/-- Reads the same whatever follows, and needs all of what it has read. -/
structure Delimits (item : Read α) : Prop where
  carries : Carries item item
  cuts : Cuts item

lemma cuts_of_rest {item : Read α} (h : ∀ r a r', item r = .ok (a, r') → r'.rest = r.rest) :
    Cuts item := by
  intro r a r' front more hr hrest hmore
  have hlen := congrArg List.length hrest
  rw [h _ _ _ hr, List.length_append, List.length_append] at hlen
  exact absurd (List.length_eq_zero_iff.1 (by omega)) hmore

lemma Reads.cuts {item : Read α} {fits : α → Prop} {enc : α → Bytes} (h : Reads item fits enc)
    (hshort : ∀ a, fits a → ∀ pos front more, enc a = front ++ more → more ≠ [] →
      ∃ context pos', item ⟨pos, front⟩ = .error (.truncated context pos')) : Cuts item := by
  intro r a r' front more hr hrest hmore
  obtain ⟨ha, hbytes, -⟩ := (h _ _ _).1 hr
  rw [hbytes, ← List.append_assoc] at hrest
  exact hshort a ha _ front more (List.append_cancel_right hrest) hmore

lemma delimits_u8 (context : String) : Delimits (u8 context : Read UInt8) := by
  refine ⟨(reads_u8 context).carries, (reads_u8 context).cuts ?_⟩
  intro b _ pos front more hb hmore
  cases front with
  | nil => exact ⟨context, pos, rfl⟩
  | cons c front =>
    obtain ⟨-, hnil⟩ := List.cons.inj hb
    exact absurd (List.append_eq_nil_iff.1 hnil.symm).2 hmore

lemma delimits_u16 (context : String) : Delimits (u16 context : Read UInt16) := by
  refine ⟨(reads_u16 context).carries, (reads_u16 context).cuts ?_⟩
  intro w _ pos front more hw hmore
  have hlen := congrArg List.length hw
  have hpos := List.length_pos_iff.2 hmore
  rw [length_be16, List.length_append] at hlen
  match front, hlen with
  | [], _ => exact ⟨context, pos, rfl⟩
  | [_], _ => exact ⟨context, pos, rfl⟩
  | _ :: _ :: _, hlen => exact absurd hlen (by simp only [List.length_cons]; omega)

lemma delimits_u32 (context : String) : Delimits (u32 context : Read UInt32) := by
  refine ⟨(reads_u32 context).carries, (reads_u32 context).cuts ?_⟩
  intro w _ pos front more hw hmore
  have hlen := congrArg List.length hw
  have hpos := List.length_pos_iff.2 hmore
  rw [length_be32, List.length_append] at hlen
  match front, hlen with
  | [], _ => exact ⟨context, pos, rfl⟩
  | [_], _ => exact ⟨context, pos, rfl⟩
  | [_, _], _ => exact ⟨context, pos, rfl⟩
  | [_, _, _], _ => exact ⟨context, pos, rfl⟩
  | _ :: _ :: _ :: _ :: _, hlen => exact absurd hlen (by simp only [List.length_cons]; omega)

lemma delimits_bytes (n : Nat) (context : String) : Delimits (bytes n context : Read Bytes) := by
  refine ⟨(reads_bytes context n).carries, (reads_bytes context n).cuts ?_⟩
  rintro bs rfl pos front more hbs hmore
  have hlen := congrArg List.length hbs
  have hpos := List.length_pos_iff.2 hmore
  rw [id, List.length_append] at hlen
  have hnone : takeExact? bs.length front = none := by
    rw [takeExact?, if_neg]
    rw [List.length_take]
    omega
  exact ⟨context, pos, by simp only [bytes, hnone]; rfl⟩

lemma delimits_pure (a : α) : Delimits (pure a : Read α) := by
  refine ⟨carries_pure a, cuts_of_rest fun r b r' h => ?_⟩
  rw [(pure_eq_ok_iff.1 h).2]

lemma delimits_lift (result : Except ClassFault α) : Delimits (lift result) := by
  refine ⟨carries_lift fun _ h => h, cuts_of_rest fun r b r' h => ?_⟩
  rw [(lift_eq_ok_iff.1 h).2]

lemma delimits_fail (fault : ClassFault) : Delimits (fail fault : Read α) :=
  ⟨carries_fail fault fault, fun _ _ _ _ _ h => nomatch h⟩

lemma Delimits.cuts_bind {item : Read α} {next : α → Read β} (h : Delimits item)
    (hn : ∀ a, Cuts (next a)) : Cuts (item >>= next) := by
  intro r b r' front more hr hrest hmore
  obtain ⟨a, s, ha, hb⟩ := Read.bind_eq_ok_iff.1 hr
  obtain ⟨bs, hbs, ho, hagain⟩ := h.carries _ _ _ ha
  rcases List.append_eq_append_iff.1 (hbs.symm.trans hrest) with
    ⟨front', rfl, hnext⟩ | ⟨tail, hbytes, htail⟩
  · rw [bind_of_ok (hagain r.offset front'), ← ho]
    exact hn a s b r' front' more hb hnext hmore
  · by_cases hnil : tail = []
    · rw [hnil, List.append_nil] at hbytes
      rw [hnil, List.nil_append] at htail
      have hfirst := hagain r.offset []
      rw [List.append_nil] at hfirst
      rw [← hbytes, bind_of_ok hfirst, ← ho]
      exact hn a s b r' [] more hb htail.symm hmore
    · rw [hbytes, List.append_assoc] at hbs
      obtain ⟨context, pos, hfault⟩ := h.cuts _ _ _ front tail ha hbs hnil
      exact ⟨context, pos, bind_of_error hfault⟩

lemma Delimits.bind {item : Read α} {next : α → Read β} (h : Delimits item)
    (hn : ∀ a, Delimits (next a)) : Delimits (item >>= next) :=
  ⟨h.carries.bind fun a => (hn a).carries, h.cuts_bind fun a => (hn a).cuts⟩

lemma Delimits.map {item : Read α} (h : Delimits item) (f : α → β) : Delimits (f <$> item) := by
  rw [map_eq_pure_bind]
  exact h.bind fun _ => delimits_pure _

lemma Delimits.timesFrom {item : Read α} (h : Delimits item) (n : Nat) (done : List α) :
    Delimits (timesFrom item n done) := by
  induction n generalizing done with
  | zero => exact delimits_pure done.reverse
  | succ n ih =>
    rw [timesFrom_succ]
    exact h.bind fun a => ih (a :: done)

lemma Delimits.counted {item : Read α} (h : Delimits item) (context : String) :
    Delimits (counted context item) :=
  (delimits_u16 context).bind fun n => h.timesFrom n.toNat []

lemma cuts_offset_then {next : Nat → Read β} (hn : ∀ n, Cuts (next n)) :
    Cuts (offset >>= next) := fun r b r' => hn r.offset r b r'

structure Ends (item : Read α) : Prop where
  all : ∀ r a r', item r = .ok (a, r') → r'.rest = []
  cuts : Cuts item
  overruns : ∀ r a r' more, item r = .ok (a, r') → more ≠ [] →
    item ⟨r.offset, r.rest ++ more⟩ = .error (.trailingBytes more.length)

lemma Ends.of_delimits {item : Read α} {next : α → Read β} (h : Delimits item)
    (hn : ∀ a, Ends (next a)) : Ends (item >>= next) := by
  refine ⟨fun r b r' hr => ?_, h.cuts_bind fun a => (hn a).cuts, fun r b r' more hr hmore => ?_⟩
  · obtain ⟨a, s, -, hb⟩ := Read.bind_eq_ok_iff.1 hr
    exact (hn a).all _ _ _ hb
  · obtain ⟨a, s, ha, hb⟩ := Read.bind_eq_ok_iff.1 hr
    obtain ⟨bs, hbs, ho, hagain⟩ := h.carries _ _ _ ha
    rw [hbs, List.append_assoc, bind_of_ok (hagain r.offset _), ← ho]
    exact (hn a).overruns _ _ _ more hb hmore

lemma ends_offset_then {next : Nat → Read β} (hn : ∀ n, Ends (next n)) :
    Ends (offset >>= next) :=
  ⟨fun r => (hn r.offset).all r, fun r => (hn r.offset).cuts r,
    fun r => (hn r.offset).overruns r⟩

lemma ends_remaining_then {item : Read α} (h : ∀ r a r', item r = .ok (a, r') → r'.rest = r.rest) :
    Ends (remaining >>= fun left =>
      if left = 0 then item else fail (.trailingBytes left)) := by
  refine ⟨fun r a r' hr => ?_, cuts_of_rest fun r a r' hr => ?_, fun r a r' more hr hmore => ?_⟩
  · obtain ⟨hleft, hr⟩ := else_fail_iff.1 (remaining_then_iff.1 hr)
    rw [h _ _ _ hr]
    exact List.length_eq_zero_iff.1 hleft
  · exact h _ _ _ (else_fail_iff.1 (remaining_then_iff.1 hr)).2
  · obtain ⟨hleft, -⟩ := else_fail_iff.1 (remaining_then_iff.1 hr)
    rw [List.length_eq_zero_iff.1 hleft, List.nil_append]
    have hpos := List.length_pos_iff.2 hmore
    have hrun : ∀ pos, (remaining >>= fun left =>
        if left = 0 then item else fail (.trailingBytes left)) ⟨pos, more⟩ =
          (if more.length = 0 then item else fail (.trailingBytes more.length)) ⟨pos, more⟩ :=
      fun _ => rfl
    rw [hrun, if_neg (by omega)]
    rfl

end Read

open Read

lemma Constant.delimits_read (index : UInt16) : Delimits (Constant.read index) := by
  have delimits_u64 (context : String) : Delimits (u64 context : Read UInt64) :=
    (delimits_u32 _).bind fun _ => (delimits_u32 _).bind fun _ => delimits_pure _
  have one (context : String) (f : UInt16 → Constant) :
      Delimits (u16 context >>= fun i => pure (f i)) :=
    (delimits_u16 context).bind fun _ => delimits_pure _
  have two (context : String) (f : UInt16 → UInt16 → Constant) :
      Delimits (u16 context >>= fun i => u16 context >>= fun j => pure (f i j)) :=
    (delimits_u16 context).bind fun i => one context (f i)
  unfold Constant.read
  refine (delimits_u8 _).bind fun tag => ?_
  split
  case h_1 => exact (delimits_u16 _).bind fun _ => (delimits_bytes _ _).bind fun _ => delimits_pure _
  case h_2 | h_3 => exact (delimits_u32 _).bind fun _ => delimits_pure _
  case h_4 | h_5 => exact (delimits_u64 _).bind fun _ => delimits_pure _
  case h_6 | h_7 | h_13 | h_16 | h_17 => exact one _ _
  case h_8 | h_9 | h_10 | h_11 | h_14 | h_15 => exact two _ _
  case h_12 => exact (delimits_u8 _).bind fun kind => one _ _
  case h_18 => exact delimits_fail _

namespace Pool

lemma readSlotsFrom_one (slots : Array Constant) : readSlotsFrom 1 slots =
    Constant.read (UInt16.ofNat slots.size) >>= fun c =>
      if c.isWide then
        fail (.badConstantRef (UInt16.ofNat slots.size) "two-slot constant within the pool")
      else readSlotsFrom 0 (slots.push c) := by
  funext r
  simp only [readSlotsFrom, Bind.bind, StateT.bind, Except.bind]
  cases Constant.read (UInt16.ofNat slots.size) r with
  | error fault => rfl
  | ok x =>
    dsimp only
    split <;> rfl

lemma readSlotsFrom_add_two (n : Nat) (slots : Array Constant) : readSlotsFrom (n + 2) slots =
    Constant.read (UInt16.ofNat slots.size) >>= fun c =>
      if c.isWide then readSlotsFrom n ((slots.push c).push .unusable)
      else readSlotsFrom (n + 1) (slots.push c) := by
  funext r
  rw [readSlotsFrom]
  simp only [Bind.bind, StateT.bind, Except.bind]
  cases Constant.read (UInt16.ofNat slots.size) r with
  | error fault => rfl
  | ok x =>
    dsimp only
    split <;> rfl

lemma cuts_readSlotsFrom (n : Nat) (slots : Array Constant) : Cuts (readSlotsFrom n slots) := by
  induction n using Nat.strongRecOn generalizing slots with
  | _ n ih =>
    rcases n with - | - | n
    · exact (delimits_pure slots).cuts
    · rw [readSlotsFrom_one]
      refine (Constant.delimits_read _).cuts_bind fun c => ?_
      split
      · exact (delimits_fail _).cuts
      · exact ih 0 (by omega) _
    · rw [readSlotsFrom_add_two]
      refine (Constant.delimits_read _).cuts_bind fun c => ?_
      split
      · exact ih n (by omega) _
      · exact ih (n + 1) (by omega) _

lemma delimits_read : Delimits Pool.read := by
  refine ⟨?_, (delimits_u16 _).cuts_bind fun count => ?_⟩
  · rintro ⟨pos, bs⟩ p ⟨pos', rest⟩ h
    obtain ⟨n, hw, hcount, rfl, rfl⟩ := read_iff.1 h
    refine ⟨be16 n ++ p.raw, by simp, by simp [Nat.add_assoc], fun pos rest => ?_⟩
    refine read_iff.2 ⟨n, hw, hcount, by simp, ?_⟩
    rw [List.length_append, length_be16, Nat.add_assoc]
  · -- the bytes at the beginning are looked at again, but only when all slots have been read
    intro r p r' front more h hrest hmore
    obtain ⟨slots, s, hslots, h⟩ := Read.bind_eq_ok_iff.1 (get_then_iff.1 h)
    obtain ⟨⟨⟩, -, h⟩ := lift_then_iff.1 (offset_then_iff.1 h)
    obtain ⟨-, rfl⟩ := pure_eq_ok_iff.1 h
    obtain ⟨context, pos, hfault⟩ :=
      cuts_readSlotsFrom _ _ _ _ _ front more hslots hrest hmore
    have hget (s : Reader) : (get : Read Reader) s = .ok (s, s) := rfl
    exact ⟨context, pos, (bind_of_ok (hget _)).trans (bind_of_error hfault)⟩

end Pool

lemma Attribute.delimits_readAll (pool : Pool) : Delimits (Attribute.readAll pool) := by
  refine Delimits.counted ?_ _
  exact (delimits_u16 _).bind fun _ => (delimits_lift _).bind fun _ =>
    (delimits_u32 _).bind fun _ => (delimits_bytes _ _).bind fun _ => delimits_pure _

lemma Field.delimits_read (pool : Pool) : Delimits (Field.read pool) :=
  (delimits_u16 _).bind fun _ => (delimits_u16 _).bind fun _ => (delimits_u16 _).bind fun _ =>
    (delimits_lift _).bind fun _ => (delimits_lift _).bind fun _ =>
      (Attribute.delimits_readAll pool).bind fun _ => delimits_pure _

lemma Method.delimits_read (pool : Pool) : Delimits (Method.read pool) := by
  refine ⟨(Method.reads pool).carries, ?_⟩
  refine (delimits_u16 _).cuts_bind fun _ => (delimits_u16 _).cuts_bind fun _ =>
    (delimits_u16 _).cuts_bind fun _ => (delimits_lift _).cuts_bind fun _ =>
      (delimits_lift _).cuts_bind fun _ => cuts_offset_then fun _ => ?_
  exact (Attribute.delimits_readAll pool).cuts_bind fun _ =>
    (delimits_lift _).cuts_bind fun _ => (delimits_pure _).cuts

namespace ClassFile

lemma delimits_readVersion : Delimits readVersion := by
  refine (delimits_u32 _).bind fun word => ?_
  split
  · refine (delimits_u16 _).bind fun minor => (delimits_u16 _).bind fun major => ?_
    split
    · exact delimits_pure _
    · exact delimits_fail _
  · exact delimits_fail _

lemma delimits_readInterface (pool : Pool) : Delimits (readInterface pool) :=
  (delimits_u16 _).bind fun _ => (delimits_lift _).bind fun _ => delimits_pure _

lemma ends_superName_then {superClass : UInt16} {result : Except ClassFault String} {β : Type}
    {next : Option String → Read β} (hn : ∀ superName, Ends (next superName)) :
    Ends (if superClass = 0 then do
        let superName ← pure none
        next superName
      else do
        let superName ← some <$> Read.lift result
        next superName) := by
  split
  · exact .of_delimits (delimits_pure _) hn
  · exact .of_delimits ((delimits_lift _).map _) hn

lemma ends_read : Ends ClassFile.read := by
  refine .of_delimits delimits_readVersion fun version => ?_
  refine .of_delimits Pool.delimits_read fun pool => ?_
  refine .of_delimits (delimits_u16 _) fun accessFlags => ?_
  refine .of_delimits (delimits_u16 _) fun thisClass => ?_
  refine .of_delimits (delimits_lift _) fun name => ?_
  refine .of_delimits (delimits_u16 _) fun superClass => ?_
  refine ends_superName_then fun superName => ?_
  refine .of_delimits ((delimits_readInterface pool).counted _) fun interfaces => ?_
  refine .of_delimits ((Field.delimits_read pool).counted _) fun fields => ?_
  refine .of_delimits ((Method.delimits_read pool).counted _) fun methods => ?_
  refine ends_offset_then fun pos => ?_
  refine .of_delimits (Attribute.delimits_readAll pool) fun attributes => ?_
  refine ends_remaining_then fun r c r' h => ?_
  obtain ⟨x, -, h⟩ := lift_then_iff.1 h
  rw [(pure_eq_ok_iff.1 h).2]

end ClassFile

end ClassWeaver
