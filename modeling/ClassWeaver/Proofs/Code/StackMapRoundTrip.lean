import ClassWeaver.Proofs.ClassFile.Readers
import ClassWeaver.Proofs.Code.MovedFrames

namespace ClassWeaver

open Read

section Yields

variable {ε α β : Type}

def Read.Yields (item : ReadOr ε α) (p : α → Prop) : Prop :=
  ∀ r a r', item r = .ok (a, r') → p a

lemma Read.yields_pure {a : α} {p : α → Prop} (h : p a) : Yields (pure a : ReadOr ε α) p := by
  intro r b r' hb
  rw [(pure_eq_ok_iff.1 hb).1]
  exact h

lemma Read.yields_fail (fault : ε) (p : α → Prop) : Yields (fail fault) p := by
  intro r a r' h
  cases h

lemma Read.Yields.bind {item : ReadOr ε α} {next : α → ReadOr ε β} {p : α → Prop} {q : β → Prop}
    (h : Yields item p) (hn : ∀ a, p a → Yields (next a) q) : Yields (item >>= next) q := by
  intro r b r' hb
  obtain ⟨a, s, ha, hb⟩ := Read.bind_eq_ok_iff.1 hb
  exact hn a (h _ _ _ ha) _ _ _ hb

lemma Read.yields_u8 [Truncation ε] (context : String) :
    Yields (u8 context : ReadOr ε UInt8) fun _ => True := fun _ _ _ _ => trivial

lemma Read.yields_u16 [Truncation ε] (context : String) :
    Yields (u16 context : ReadOr ε UInt16) fun _ => True := fun _ _ _ _ => trivial

lemma Read.Yields.timesFrom {item : ReadOr ε α} {p : α → Prop} (h : Yields item p) {n : Nat}
    {done as : List α} {r r' : Reader} (hr : timesFrom item n done r = .ok (as, r'))
    (hdone : ∀ a ∈ done, p a) : as.length = done.length + n ∧ ∀ a ∈ as, p a := by
  induction n generalizing done r with
  | zero =>
    cases hr
    simpa using hdone
  | succ n ih =>
    rw [timesFrom_succ] at hr
    obtain ⟨a, s, ha, hr⟩ := Read.bind_eq_ok_iff.1 hr
    obtain ⟨hlen, hall⟩ := ih hr (by
      rintro b (- | ⟨-, hb⟩)
      · exact h _ _ _ ha
      · exact hdone b hb)
    rw [List.length_cons] at hlen
    exact ⟨by omega, hall⟩

lemma Read.Yields.times {item : ReadOr ε α} {p : α → Prop} (h : Yields item p) (n : Nat) :
    Yields (times n item) fun as => as.length = n ∧ ∀ a ∈ as, p a := by
  intro r as r' hr
  simpa using h.timesFrom hr nofun

lemma Read.Yields.counted [Truncation ε] {item : ReadOr ε α} {p : α → Prop} (h : Yields item p)
    (context : String) : Yields (counted context item) (AllFit p) := by
  refine (yields_u16 context).bind ?_
  intro n _ r as r' hr
  obtain ⟨hlen, hall⟩ := h.times n.toNat r as r' hr
  have hlt := n.toNat_lt
  exact ⟨by omega, hall⟩

end Yields

namespace FrameType

def Fits : FrameType → Prop
  | uninitialized offset => offset < 65536
  | _ => True

lemma yields_read : Yields FrameType.read Fits := by
  refine (yields_u8 _).bind ?_
  intro tag _
  split
  case h_9 =>
    refine (yields_u16 _).bind ?_
    intro w _
    exact yields_pure w.toNat_lt
  case h_8 =>
    refine (yields_u16 _).bind ?_
    exact fun _ _ => yields_pure trivial
  case h_10 => exact yields_fail _ _
  all_goals exact yields_pure trivial

lemma accepts_encode {t : FrameType} (h : t.Fits) : Accepts FrameType.read t.encode t := by
  cases t with
  | object index => exact (accepts_u8 _ _).bind ((accepts_u16 _ _).then_pure _)
  | uninitialized offset =>
    have hword := (accepts_u16 (ε := FrameFault) "verification type" (UInt16.ofNat offset)).then_pure
      fun w => uninitialized w.toNat
    rw [toNat_count16 h] at hword
    exact (accepts_u8 _ _).bind hword
  | _ => exact (accepts_u8 _ _).bind (accepts_pure _)

end FrameType

namespace FrameKind

def Fits : FrameKind → Prop
  | same => True
  | sameLocals1 t => t.Fits
  | chop count => 1 ≤ count ∧ count ≤ 3
  | append locals => (1 ≤ locals.length ∧ locals.length ≤ 3) ∧ ∀ t ∈ locals, t.Fits
  | full locals stack => AllFit FrameType.Fits locals ∧ AllFit FrameType.Fits stack

lemma yields_read : Yields FrameKind.read fun x => x.1 ≤ 65535 ∧ x.2.Fits := by
  have yields_delta : Yields (UInt16.toNat <$> (u16 "stack map frame" : ReadOr FrameFault UInt16))
      (· ≤ 65535) := by
    rw [map_eq_pure_bind]
    exact (yields_u16 _).bind fun w _ => yields_pure (Nat.le_of_lt_succ w.toNat_lt)
  refine (yields_u8 _).bind ?_
  intro type _
  have htype := type.toNat_lt
  dsimp only
  -- one case for each range of first bytes
  split
  · exact yields_pure ⟨by dsimp only; omega, trivial⟩
  split
  · exact FrameType.yields_read.bind fun _ ht => yields_pure ⟨by dsimp only; omega, ht⟩
  split
  · exact yields_fail _ _
  split
  · exact yields_delta.bind fun _ hd => FrameType.yields_read.bind fun _ ht => yields_pure ⟨hd, ht⟩
  split
  · next hlow hne hhigh =>
    refine yields_delta.bind fun delta hd => yields_pure ⟨hd, ?_⟩
    have hcount := UInt8.toNat_sub_of_le 251 type (UInt8.le_of_lt hhigh)
    rw [UInt8.lt_iff_toNat_lt] at hlow hhigh
    rw [← UInt8.toNat_inj] at hne
    have h247 : (247 : UInt8).toNat = 247 := rfl
    have h251 : (251 : UInt8).toNat = 251 := rfl
    have h1 : (1 : UInt8).toNat = 1 := rfl
    have h3 : (3 : UInt8).toNat = 3 := rfl
    refine ⟨?_, ?_⟩ <;> rw [UInt8.le_iff_toNat_le] <;> omega
  split
  · exact yields_delta.bind fun _ hd => yields_pure ⟨hd, trivial⟩
  split
  · next hlow hne hhigh =>
    refine yields_delta.bind fun delta hd => ?_
    refine (FrameType.yields_read.times _).bind ?_
    rintro locals ⟨hlen, hall⟩
    rw [UInt8.lt_iff_toNat_lt] at hlow hhigh
    rw [← UInt8.toNat_inj] at hne
    have h251 : (251 : UInt8).toNat = 251 := rfl
    have h255 : (255 : UInt8).toNat = 255 := rfl
    exact yields_pure ⟨hd, by omega, hall⟩
  · refine yields_delta.bind fun delta hd => ?_
    refine (FrameType.yields_read.counted _).bind ?_
    intro locals hlocals
    refine (FrameType.yields_read.counted _).bind ?_
    intro stack hstack
    exact yields_pure ⟨hd, hlocals, hstack⟩

lemma accepts_delta {delta : Nat} (hd : delta ≤ 65535) :
    Accepts (UInt16.toNat <$> (u16 "stack map frame" : ReadOr FrameFault UInt16)) (count16 delta)
      delta := by
  have hword := (accepts_u16 (ε := FrameFault) "stack map frame" (UInt16.ofNat delta)).then_pure
    UInt16.toNat
  rw [toNat_count16 (by omega)] at hword
  rw [map_eq_pure_bind]
  exact hword

lemma accepts_types {types : List FrameType} (h : ∀ t ∈ types, t.Fits) :
    List.Forall₂ (Accepts FrameType.read) (types.map FrameType.encode) types := by
  induction types with
  | nil => exact .nil
  | cons t types ih =>
    exact .cons (FrameType.accepts_encode (h t List.mem_cons_self))
      (ih fun u hu => h u (List.mem_cons_of_mem t hu))

lemma accepts_encodeTypes {types : List FrameType} (h : AllFit FrameType.Fits types) :
    Accepts (Read.counted "stack map frame" FrameType.read) (encodeTypes types) types := by
  have hcounted := Accepts.counted (accepts_types h.2) h.1 "stack map frame"
  rwa [← List.flatMap_def] at hcounted

lemma toNat_small {n : Nat} (hn : n < 128) : (UInt8.ofNat n).toNat = n := by
  rw [UInt8.toNat_ofNat']
  omega

lemma accepts_same {delta : Nat} (hd : delta ≤ 65535) :
    Accepts FrameKind.read (encode delta same) (delta, same) := by
  rw [FrameKind.encode]
  split
  · next hle =>
    have hn : (UInt8.ofNat delta).toNat = delta := toNat_small (by omega)
    have hsmall : UInt8.ofNat delta < 64 := by
      rw [UInt8.lt_iff_toNat_lt, hn]
      exact Nat.lt_succ_of_le hle
    refine (accepts_u8 _ _).bind ?_
    dsimp only
    rw [if_pos hsmall, hn]
    exact accepts_pure _
  · exact (accepts_u8 _ _).bind ((accepts_delta hd).then_pure _)

lemma accepts_sameLocals1 {delta : Nat} {t : FrameType} (ht : t.Fits) (hd : delta ≤ 65535) :
    Accepts FrameKind.read (encode delta (sameLocals1 t)) (delta, sameLocals1 t) := by
  have htype := FrameType.accepts_encode ht
  rw [FrameKind.encode]
  split
  · next hle =>
    have hn : (UInt8.ofNat (64 + delta)).toNat = 64 + delta := toNat_small (by omega)
    have hlow : ¬ UInt8.ofNat (64 + delta) < 64 := by
      rw [UInt8.lt_iff_toNat_lt, hn]
      exact Nat.not_lt.2 (Nat.le_add_right 64 delta)
    have hhigh : UInt8.ofNat (64 + delta) < 128 := by
      rw [UInt8.lt_iff_toNat_lt, hn]
      exact Nat.add_lt_add_left (Nat.lt_succ_of_le hle) 64
    refine (accepts_u8 _ _).bind ?_
    dsimp only
    rw [if_neg hlow, if_pos hhigh, hn, Nat.add_sub_cancel_left]
    exact htype.then_pure _
  · exact (accepts_u8 _ _).bind ((accepts_delta hd).bind (htype.then_pure _))

lemma accepts_chop {delta : Nat} {count : UInt8} (h : 1 ≤ count ∧ count ≤ 3) (hd : delta ≤ 65535) :
    Accepts FrameKind.read (encode delta (chop count)) (delta, chop count) := by
  have hcases : count = 1 ∨ count = 2 ∨ count = 3 := by
    obtain ⟨h1, h3⟩ := h
    simp only [UInt8.le_iff_toNat_le, ← UInt8.toNat_inj] at h1 h3 ⊢
    change 1 ≤ count.toNat at h1
    change count.toNat ≤ 3 at h3
    change count.toNat = 1 ∨ count.toNat = 2 ∨ count.toNat = 3
    omega
  rcases hcases with rfl | rfl | rfl <;>
    exact (accepts_u8 _ _).bind ((accepts_delta hd).then_pure _)

lemma accepts_append {delta : Nat} {locals : List FrameType}
    (hlen : 1 ≤ locals.length ∧ locals.length ≤ 3) (hall : ∀ t ∈ locals, t.Fits)
    (hd : delta ≤ 65535) :
    Accepts FrameKind.read (encode delta (append locals)) (delta, append locals) := by
  have htypes := accepts_types hall
  have hcases : locals.length = 1 ∨ locals.length = 2 ∨ locals.length = 3 := by omega
  rw [FrameKind.encode]
  -- the first byte is one of three, and only then is it known how it is read
  rcases hcases with hn | hn | hn
  all_goals
    have hlocals := Accepts.times htypes hn
    rw [← List.flatMap_def] at hlocals
    rw [hn]
    exact (accepts_u8 _ _).bind ((accepts_delta hd).bind (hlocals.then_pure _))

lemma accepts_full {delta : Nat} {locals stack : List FrameType}
    (hl : AllFit FrameType.Fits locals) (hs : AllFit FrameType.Fits stack) (hd : delta ≤ 65535) :
    Accepts FrameKind.read (encode delta (full locals stack)) (delta, full locals stack) := by
  refine (accepts_u8 _ _).bind ((accepts_delta hd).bind ?_)
  exact (accepts_encodeTypes hl).bind ((accepts_encodeTypes hs).then_pure _)

lemma accepts_encode {delta : Nat} {k : FrameKind} (hk : k.Fits) (hd : delta ≤ 65535) :
    Accepts FrameKind.read (k.encode delta) (delta, k) := by
  cases k with
  | same => exact accepts_same hd
  | sameLocals1 t => exact accepts_sameLocals1 hk hd
  | chop count => exact accepts_chop hk hd
  | append locals => exact accepts_append hk.1 hk.2 hd
  | full locals stack => exact accepts_full hk.1 hk.2 hd

lemma Fits.mapOffset {f : Nat → Except CodeFault Nat} (hf : ∀ old new, f old = .ok new → new < 65536)
    {k k' : FrameKind} (hk : k.Fits) (h : k.mapOffset f = .ok k') : k'.Fits := by
  have htype {t t' : FrameType} (ht : t.Fits) (h : t.mapOffset f = .ok t') : t'.Fits := by
    cases t with
    | uninitialized old =>
      obtain ⟨new, hn, rfl⟩ := map_eq_ok_iff.1 h
      exact hf old new hn
    | _ =>
      cases h
      exact ht
  have htypes {ts ts' : List FrameType} (ht : ∀ t ∈ ts, t.Fits)
      (h : ts.mapM (FrameType.mapOffset f) = .ok ts') :
      ts'.length = ts.length ∧ ∀ t ∈ ts', t.Fits := by
    have hall := mapM_eq_ok_iff.1 h
    refine ⟨hall.length_eq.symm, fun t' ht' => ?_⟩
    obtain ⟨t, hmem, hmove⟩ := exists_of_forall₂ hall.flip ht'
    exact htype (ht t hmem) hmove
  cases k with
  | same =>
    cases h
    trivial
  | chop count =>
    cases h
    exact hk
  | sameLocals1 t =>
    obtain ⟨t', ht, rfl⟩ := map_eq_ok_iff.1 h
    exact htype hk ht
  | append locals =>
    obtain ⟨locals', hl, rfl⟩ := map_eq_ok_iff.1 h
    obtain ⟨hlen, hall⟩ := htypes hk.2 hl
    exact ⟨hlen ▸ hk.1, hall⟩
  | full locals stack =>
    obtain ⟨locals', hl, h⟩ := bind_eq_ok_iff.1 h
    obtain ⟨stack', hs, h⟩ := bind_eq_ok_iff.1 h
    cases h
    obtain ⟨hlen, hall⟩ := htypes hk.1.2 hl
    obtain ⟨hlen', hall'⟩ := htypes hk.2.2 hs
    exact ⟨⟨hlen ▸ hk.1.1, hall⟩, hlen' ▸ hk.2.1, hall'⟩

end FrameKind

namespace Frame

lemma place_append (previous : Option Nat) (pairs : List (Nat × FrameKind)) (done : List Frame) :
    place previous pairs done = done.reverse ++ place previous pairs [] := by
  induction pairs generalizing previous done with
  | nil => simp [place]
  | cons pair pairs ih =>
    obtain ⟨delta, kind⟩ := pair
    simp only [place]
    rw [ih, ih _ [_]]
    simp

lemma kinds_place (previous : Option Nat) (pairs : List (Nat × FrameKind)) :
    (place previous pairs []).map (·.kind) = pairs.map (·.2) := by
  induction pairs generalizing previous with
  | nil => rfl
  | cons pair pairs ih =>
    obtain ⟨delta, kind⟩ := pair
    rw [place, place_append]
    simp [ih]

def AllFit (frames : List Frame) : Prop := Read.AllFit (fun frame => frame.kind.Fits) frames

lemma allFit_place {previous : Option Nat} {pairs : List (Nat × FrameKind)} :
    AllFit (place previous pairs []) ↔ Read.AllFit (fun x => x.2.Fits) pairs := by
  have hkinds := kinds_place previous pairs
  have hlen : (place previous pairs []).length = pairs.length := by
    simpa using congrArg List.length hkinds
  unfold AllFit Read.AllFit
  rw [hlen, ← List.forall_mem_map, hkinds, List.forall_mem_map]

lemma exists_pairs {bs : Bytes} {frames : List Frame} (h : parse bs = .ok frames) :
    ∃ pairs pos, counted "stack map frame" FrameKind.read ⟨0, bs⟩ = .ok (pairs, ⟨pos, []⟩) ∧
      place none pairs [] = frames := by
  obtain ⟨r', hr⟩ := runAt_eq_ok_iff.1 h
  obtain ⟨pairs, ⟨pos, rest⟩, hpairs, hr⟩ := Read.bind_eq_ok_iff.1 hr
  obtain ⟨hnone, hr⟩ := else_fail_iff.1 (remaining_then_iff.1 hr)
  obtain rfl := List.length_eq_zero_iff.1 hnone
  exact ⟨pairs, pos, hpairs, (pure_eq_ok_iff.1 hr).1.symm⟩

lemma allFit_of_parse {bs : Bytes} {frames : List Frame} (h : parse bs = .ok frames) :
    AllFit frames := by
  obtain ⟨pairs, pos, hr, rfl⟩ := exists_pairs h
  obtain ⟨hlen, hall⟩ := FrameKind.yields_read.counted _ _ _ _ hr
  exact allFit_place.2 ⟨hlen, fun x hx => (hall x hx).2⟩

lemma AllFit.mapOffsets {f g : Nat → Except CodeFault Nat} (hg : ∀ old new, g old = .ok new →
    new < 65536) {frames frames' : List Frame} (hfit : AllFit frames)
    (h : frames.mapM (Frame.mapOffsets f g) = .ok frames') : AllFit frames' := by
  have hmoves := mapM_eq_ok_iff.1 h
  refine ⟨hmoves.length_eq ▸ hfit.1, ?_⟩
  intro frame' hframe'
  obtain ⟨frame, hframe, hmove⟩ := exists_of_forall₂ hmoves.flip hframe'
  obtain ⟨offset, -, hmove⟩ := bind_eq_ok_iff.1 hmove
  obtain ⟨kind, hkind, hmove⟩ := bind_eq_ok_iff.1 hmove
  cases hmove
  exact (hfit.2 frame hframe).mapOffset hg hkind

lemma deltaAfter_eq {previous : Option Nat} {offset delta : Nat}
    (h : deltaAfter previous offset = .ok delta) : offsetAfter previous delta = offset := by
  unfold deltaAfter at h
  unfold offsetAfter
  split at h
  · cases h
    rfl
  · split at h
    · cases h
      omega
    · cases h

lemma encodeFrom_spec {previous : Option Nat} {frames : List Frame} {done : List Bytes} {bs : Bytes}
    (h : encodeFrom previous frames done = .ok bs) :
    ∃ pairs : List (Nat × FrameKind), bs = done.reverse.flatten ++
        (pairs.map fun x => x.2.encode x.1).flatten ∧
      place previous pairs [] = frames ∧ ∀ x ∈ pairs, x.1 ≤ 65535 := by
  induction frames generalizing previous done with
  | nil =>
    cases h
    exact ⟨[], by simp, rfl, nofun⟩
  | cons frame frames ih =>
    rw [encodeFrom] at h
    split at h
    · cases h
    next delta hdelta =>
      split at h
      · cases h
      · next hle =>
        obtain ⟨pairs, rfl, hplace, hall⟩ := ih h
        refine ⟨(delta, frame.kind) :: pairs, by simp, ?_, ?_⟩
        · rw [place, deltaAfter_eq hdelta, place_append, hplace]
          rfl
        · rintro x (- | ⟨-, hx⟩)
          · exact Nat.le_of_not_lt hle
          · exact hall x hx

theorem parse_encode {frames : List Frame} {bs : Bytes} (hfit : AllFit frames)
    (h : encode frames = .ok bs) : parse bs = .ok frames := by
  obtain ⟨body, hbody, rfl⟩ := map_eq_ok_iff.1 h
  obtain ⟨pairs, rfl, rfl, hall⟩ := encodeFrom_spec hbody
  obtain ⟨hlen, hkinds⟩ := allFit_place.1 hfit
  have hpairs : List.Forall₂ (Accepts FrameKind.read) (pairs.map fun x => x.2.encode x.1) pairs := by
    rw [List.forall₂_map_left_iff, List.forall₂_same]
    exact fun x hx => FrameKind.accepts_encode (hkinds x hx) (hall x hx)
  have hcount : (place none pairs []).length = pairs.length := by
    simpa using congrArg List.length (kinds_place none pairs)
  have hread := Accepts.counted hpairs hlen "stack map frame" 0 []
  rw [List.append_nil] at hread
  rw [hcount]
  exact runAt_eq_ok_iff.2 ⟨_, Read.bind_eq_ok_iff.2 ⟨pairs, _, hread, rfl⟩⟩

end Frame

end ClassWeaver
