import ClassWeaver.Proofs.Code.StackMapRoundTrip

namespace ClassWeaver

open Read

lemma flatten_of_forall₂ {α : Type} {enc : α → Bytes} {as : List α} {fronts : List Bytes}
    (h : List.Forall₂ (fun a front => front = enc a) as fronts) :
    fronts.flatten = as.flatMap enc := by
  induction h with
  | nil => rfl
  | cons ha _ ih => rw [List.flatten_cons, List.flatMap_cons, ha, ih]

lemma length_count16 (n : Nat) : (count16 n).length = 2 := rfl

lemma FrameType.takes_read : Takes FrameType.read fun t front => front = t.encode := by
  refine (takes_u8 _).bind fun tag front htag => ?_
  subst htag
  split
  case h_8 => exact (takes_u16 _).bind fun index front hindex => takes_pure (by rw [hindex]; rfl)
  case h_9 =>
    refine (takes_u16 _).bind fun w front hw => takes_pure ?_
    rw [hw, encode, count16, UInt16.ofNat_toNat, List.append_nil]
    rfl
  case h_10 => exact takes_fail _ _
  all_goals exact takes_pure rfl

namespace FrameKind

def Spells (x : Nat × FrameKind) (bs : Bytes) : Prop :=
  bs = x.2.encode x.1 ∨ (x.2.encode x.1).length < bs.length

lemma takes_delta : Takes (UInt16.toNat <$> (u16 "stack map frame" : ReadOr FrameFault UInt16))
    fun delta front => front = count16 delta := by
  rw [map_eq_pure_bind]
  refine (takes_u16 _).bind fun w front hw => takes_pure ?_
  rw [hw, count16, UInt16.ofNat_toNat, List.append_nil]

lemma takes_types (n : Nat) : Takes (times n FrameType.read) fun types front =>
    types.length = n ∧ front = types.flatMap FrameType.encode := by
  intro r types r' hr
  obtain ⟨front, hrest, hlen, fronts, hall, rfl⟩ := FrameType.takes_read.times n r types r' hr
  exact ⟨_, hrest, hlen, flatten_of_forall₂ hall⟩

lemma takes_countedTypes : Takes (counted "stack map frame" FrameType.read)
    fun types front => front = encodeTypes types := by
  intro r types r' hr
  obtain ⟨front, hrest, fronts, hall, rfl⟩ :=
    FrameType.takes_read.counted "stack map frame" r types r' hr
  exact ⟨_, hrest, congrArg (count16 types.length ++ ·) (flatten_of_forall₂ hall)⟩

lemma length_encode_same (delta : Nat) :
    (encode delta same).length = if delta ≤ 63 then 1 else 3 := by
  rw [encode]
  split <;> simp [length_count16]

lemma length_encode_sameLocals1 (delta : Nat) (t : FrameType) :
    (encode delta (sameLocals1 t)).length = (if delta ≤ 63 then 1 else 3) + t.encode.length := by
  rw [encode]
  split <;> simp [length_count16] <;> omega

lemma spells_same {type : UInt8} {delta : Nat} (h : type = 251) :
    Spells (delta, same) (type :: count16 delta) := by
  subst h
  by_cases hle : delta ≤ 63
  · refine .inr ?_
    rw [length_encode_same, if_pos hle, List.length_cons, length_count16]
    decide
  · exact .inl (by rw [encode, if_neg hle])

lemma spells_sameLocals1 {type : UInt8} {delta : Nat} {t : FrameType} (h : type = 247) :
    Spells (delta, sameLocals1 t) (type :: (count16 delta ++ t.encode)) := by
  subst h
  by_cases hle : delta ≤ 63
  · refine .inr ?_
    rw [length_encode_sameLocals1, if_pos hle, List.length_cons, List.length_append, length_count16]
    omega
  · exact .inl (by rw [encode, if_neg hle])

lemma encode_same_of_lt {type : UInt8} (h : type < 64) : encode type.toNat same = [type] := by
  rw [UInt8.lt_iff_toNat_lt] at h
  rw [encode, if_pos (Nat.le_of_lt_succ h), UInt8.ofNat_toNat]

lemma encode_sameLocals1_of_lt {type : UInt8} (hlow : ¬ type < 64) (hhigh : type < 128)
    (t : FrameType) : encode (type.toNat - 64) (sameLocals1 t) = type :: t.encode := by
  rw [UInt8.lt_iff_toNat_lt] at hlow hhigh
  have h64 : 64 ≤ type.toNat := Nat.le_of_not_lt hlow
  have hle : type.toNat - 64 ≤ 63 := Nat.sub_le_of_le_add (Nat.le_of_lt_succ hhigh)
  rw [encode, if_pos hle, Nat.add_sub_cancel' h64, UInt8.ofNat_toNat]

lemma encode_chop_sub (delta : Nat) (type : UInt8) :
    encode delta (chop (251 - type)) = type :: count16 delta := by
  have hbyte : 251 - (251 - type) = type := by grind
  rw [encode, hbyte]

lemma encode_append_of_length {type : UInt8} {locals : List FrameType} (h : ¬ type < 251)
    (hlen : locals.length = type.toNat - 251) (delta : Nat) :
    encode delta (append locals) = type :: (count16 delta ++ locals.flatMap FrameType.encode) := by
  have htop := type.toNat_lt
  have h251 : (251 : UInt8).toNat = 251 := rfl
  have hbyte : 251 + UInt8.ofNat locals.length = type := by
    rw [UInt8.lt_iff_toNat_lt] at h
    apply UInt8.toNat.inj
    rw [hlen, UInt8.toNat_add, UInt8.toNat_ofNat', h251]
    omega
  rw [encode, hbyte]

lemma eq_full_of_not_lt {type : UInt8} (h : ¬ type < 255) : type = 255 := by
  have htop := type.toNat_lt
  have h255 : (255 : UInt8).toNat = 255 := rfl
  rw [UInt8.lt_iff_toNat_lt] at h
  apply UInt8.toNat.inj
  omega

lemma takes_read : Takes FrameKind.read Spells := by
  refine (takes_u8 _).bind fun type front htype => ?_
  subst htype
  dsimp only
  -- one case for each range of first bytes
  split
  · next hlow => exact takes_pure (.inl (encode_same_of_lt hlow).symm)
  split
  · next hlow hhigh =>
    refine FrameType.takes_read.bind fun t front ht => takes_pure (.inl ?_)
    rw [encode_sameLocals1_of_lt hlow hhigh, ht, List.append_nil]
    rfl
  split
  · exact takes_fail _ _
  split
  · next htype =>
    refine takes_delta.bind fun delta front hd => FrameType.takes_read.bind fun t front' ht =>
      takes_pure ?_
    rw [hd, ht, List.append_nil]
    exact spells_sameLocals1 htype
  split
  · refine takes_delta.bind fun delta front hd => takes_pure (.inl ?_)
    rw [encode_chop_sub, hd, List.append_nil]
    rfl
  split
  · next htype =>
    refine takes_delta.bind fun delta front hd => takes_pure ?_
    rw [hd, List.append_nil]
    exact spells_same htype
  split
  · next hlow _ _ =>
    refine takes_delta.bind fun delta front hd => (takes_types _).bind fun locals front' hl =>
      takes_pure (.inl ?_)
    rw [encode_append_of_length hlow hl.1, hd, hl.2, List.append_nil]
    rfl
  · next htype =>
    refine takes_delta.bind fun delta front hd => takes_countedTypes.bind fun locals front' hl =>
      takes_countedTypes.bind fun stack front'' hs => takes_pure (.inl ?_)
    rw [encode, eq_full_of_not_lt htype, hd, hl, hs, List.append_nil]
    rfl

end FrameKind

namespace Frame

lemma deltaAfter_offsetAfter (previous : Option Nat) (delta : Nat) :
    deltaAfter previous (offsetAfter previous delta) = .ok delta := by
  cases previous with
  | none => rfl
  | some p =>
    have hlt : p < p + delta + 1 := by omega
    rw [offsetAfter, deltaAfter, if_pos hlt]
    congr 1
    omega

lemma encodeFrom_place {previous : Option Nat} {pairs : List (Nat × FrameKind)}
    (h : ∀ x ∈ pairs, x.1 ≤ 65535) (done : List Bytes) :
    encodeFrom previous (place previous pairs []) done =
      .ok (done.reverse.flatten ++ pairs.flatMap fun x => x.2.encode x.1) := by
  induction pairs generalizing previous done with
  | nil => simp [place, encodeFrom]
  | cons x pairs ih =>
    obtain ⟨delta, kind⟩ := x
    rw [List.forall_mem_cons] at h
    rw [place, place_append, List.reverse_singleton, List.singleton_append, encodeFrom,
      deltaAfter_offsetAfter]
    dsimp only
    rw [if_neg (Nat.not_lt.2 h.1), ih h.2]
    simp

lemma flatten_or_length_lt {pairs : List (Nat × FrameKind)} {fronts : List Bytes}
    (h : List.Forall₂ FrameKind.Spells pairs fronts) :
    fronts.flatten = (pairs.flatMap fun x => x.2.encode x.1) ∨
      (pairs.flatMap fun x => x.2.encode x.1).length < fronts.flatten.length := by
  induction h with
  | nil => exact .inl rfl
  | @cons x front pairs fronts hx _ ih =>
    rw [List.flatten_cons, List.flatMap_cons, List.length_append, List.length_append]
    have hle : (x.2.encode x.1).length ≤ front.length := by
      rcases hx with rfl | hlt
      · exact Nat.le_refl _
      · exact Nat.le_of_lt hlt
    rcases ih with htail | htail
    · rcases hx with rfl | hlt
      · exact .inl (by rw [htail])
      · exact .inr (by rw [htail]; omega)
    · exact .inr (by omega)

/-- Of all tables for the same frames the one that is written is the shortest. -/
lemma eq_encode_or_length_lt {bs : Bytes} {frames : List Frame} (h : parse bs = .ok frames) :
    ∃ written, encode frames = .ok written ∧ (bs = written ∨ written.length < bs.length) := by
  obtain ⟨pairs, pos, hr, rfl⟩ := exists_pairs h
  obtain ⟨-, hall⟩ := FrameKind.yields_read.counted _ _ _ _ hr
  obtain ⟨front, hbs, fronts, hfronts, rfl⟩ := FrameKind.takes_read.counted _ _ _ _ hr
  rw [List.append_nil] at hbs
  have hlen : (place none pairs []).length = pairs.length := by
    simpa using congrArg List.length (kinds_place none pairs)
  refine ⟨_, map_eq_ok_iff.2 ⟨_, encodeFrom_place (fun x hx => (hall x hx).1) [], rfl⟩, ?_⟩
  dsimp only at hbs
  rw [hbs, hlen, List.reverse_nil, List.flatten_nil, List.nil_append, List.length_append,
    List.length_append]
  exact (flatten_or_length_lt hfronts).imp (congrArg (count16 pairs.length ++ ·))
    (Nat.add_lt_add_left · _)

lemma encode_of_parse {bs : Bytes} {frames : List Frame} (h : parse bs = .ok frames) :
    ∃ written, encode frames = .ok written ∧ written.length ≤ bs.length := by
  obtain ⟨written, hw, rfl | hlt⟩ := eq_encode_or_length_lt h
  · exact ⟨bs, hw, Nat.le_refl _⟩
  · exact ⟨written, hw, Nat.le_of_lt hlt⟩

end Frame

end ClassWeaver
