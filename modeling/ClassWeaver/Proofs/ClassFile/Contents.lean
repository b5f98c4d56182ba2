import ClassWeaver.Proofs.ClassFile.Members
import ClassWeaver.Proofs.Pool.Extension

namespace ClassWeaver

open Read

section Extension

variable {p q : Pool}

lemma Attribute.Fits.mono {a : Attribute} (h : a.Fits p) (hq : p.Extends q) : a.Fits q :=
  ⟨hq.utf8 h.1, h.2⟩

lemma Read.AllFit.mono {α : Type} {fits fits' : α → Prop} {as : List α} (h : AllFit fits as)
    (hf : ∀ a ∈ as, fits a → fits' a) : AllFit fits' as :=
  ⟨h.1, fun a ha => hf a ha (h.2 a ha)⟩

lemma Handler.Known.mono {h : Handler} (hk : h.Known p) (hq : p.Extends q) : h.Known q := by
  intro hz
  obtain ⟨name, hname⟩ := hk hz
  exact ⟨name, hq.className hname⟩

lemma Code.Fits.mono {c : Code} (h : c.Fits p) (hq : p.Extends q) : c.Fits q :=
  ⟨h.nonempty, h.length_le, h.handlers.mono fun _ _ hh => ⟨hh.1, hh.2.mono hq⟩,
    h.attributes.mono fun _ _ ha => ha.mono hq⟩

lemma Field.Fits.mono {f : Field} (h : f.Fits p) (hq : p.Extends q) : f.Fits q := by
  obtain ⟨⟨name, hn⟩, ⟨descriptor, hd⟩, ha⟩ := h
  exact ⟨⟨name, hq.utf8 hn⟩, ⟨descriptor, hq.utf8 hd⟩, ha.mono fun _ _ ha => ha.mono hq⟩

end Extension

namespace Annotations

variable {p q : Pool}

lemma skip_nil (p : Pool) : skip p [] = pure () := by
  funext r
  rw [skip]
  rfl

lemma skip_values_zero (p : Pool) (rest : List Pending) :
    skip p (.values 0 :: rest) = skip p rest := by
  funext r
  rw [skip]

lemma skip_pairs_zero (p : Pool) (rest : List Pending) :
    skip p (.pairs 0 :: rest) = skip p rest := by
  funext r
  rw [skip]

lemma skip_pairs_succ (p : Pool) (n : Nat) (rest : List Pending) :
    skip p (.pairs (n + 1) :: rest) =
      Read.u16 "annotation element" >>= fun _ => skip p (.values 1 :: .pairs n :: rest) := by
  funext r
  rw [skip]
  split
  · next hf => rw [bind_of_error hf]
  · next hs => rw [bind_of_ok hs]

lemma skip_values_succ (p : Pool) (n : Nat) (rest : List Pending) :
    skip p (.values (n + 1) :: rest) =
      readValue p >>= fun inner => skip p (inner ++ .values n :: rest) := by
  funext r
  rw [skip]
  split
  · next hf => rw [bind_of_error hf]
  · next hs => rw [bind_of_ok hs]

lemma carries_readHead (h : p.Extends q) : Carries (readHead p) (readHead q) :=
  (reads_u16 _).carries.bind fun _ =>
    (carries_lift fun _ => h.utf8).bind fun _ =>
      (reads_u16 _).carries.bind fun _ => carries_pure _

lemma carries_readValue (h : p.Extends q) : Carries (readValue p) (readValue q) := by
  refine (reads_u8 _).carries.bind fun tag => ?_
  cases valueShape? tag with
  | none =>
    intro r a r' hr
    cases hr
  | some shape =>
    cases shape with
    | constant => exact (reads_u16 _).carries.bind fun _ => carries_pure _
    | enumeration =>
      exact (reads_u16 _).carries.bind fun _ => (reads_u16 _).carries.bind fun _ => carries_pure _
    | nested => exact (carries_readHead h).bind fun _ => carries_pure _
    | array => exact (reads_u16 _).carries.bind fun _ => carries_pure _

lemma carries_skip (h : p.Extends q) (pending : List Pending) :
    Carries (skip p pending) (skip q pending) := by
  intro r a r' hr
  induction pending, r using skip.induct p with
  | case1 r =>
    rw [skip_nil] at hr ⊢
    exact carries_pure () r a r' hr
  | case2 rest r ih =>
    rw [skip_values_zero] at hr ⊢
    exact ih hr
  | case3 rest r ih =>
    rw [skip_pairs_zero] at hr ⊢
    exact ih hr
  | case4 n rest r fault hf =>
    rw [skip_pairs_succ, bind_of_error hf] at hr
    cases hr
  | case5 n rest r w s hs _ ih =>
    rw [skip_pairs_succ, bind_of_ok hs] at hr
    rw [skip_pairs_succ]
    exact (reads_u16 _).carries.followed hs (ih hr)
  | case6 n rest r fault hf =>
    rw [skip_values_succ, bind_of_error hf] at hr
    cases hr
  | case7 n rest r inner s hs _ ih =>
    rw [skip_values_succ, bind_of_ok hs] at hr
    rw [skip_values_succ]
    exact (carries_readValue h).followed hs (ih hr)

lemma carries_read (h : p.Extends q) : Carries (Annotations.read p) (Annotations.read q) :=
  (carries_readHead h).bind fun _ => (carries_skip h _).bind fun _ => carries_pure _

lemma carries_readTypes (h : p.Extends q) : Carries (readTypes p) (readTypes q) :=
  (carries_read h).counted _

end Annotations

lemma Attribute.placeFrom_map_snd (pos : Nat) (as : List Attribute)
    (done : List (Nat × Attribute)) :
    (placeFrom pos as done).map (·.2) = done.reverse.map (·.2) ++ as := by
  induction as generalizing pos done with
  | nil => simp [placeFrom]
  | cons a as ih => simp [placeFrom, ih]

lemma Attribute.place_map_snd (pos : Nat) (as : List Attribute) :
    (place pos as).map (·.2) = as := by
  simp [place, placeFrom_map_snd]

namespace Method

namespace Content

variable {p q : Pool} {signature : String}

lemma include_code_iff {c c' : Content} {index pos : Nat} {a : Attribute} (ha : a.name = "Code") :
    c.include p signature index (pos, a) = .ok c' ↔
      ∃ code : Code, code.Fits p ∧ a.body = code.encode ∧
        c' = { c with code := some (index, code) } := by
  unfold «include»
  dsimp only
  rw [if_pos ha, bind_eq_ok_iff]
  constructor
  · rintro ⟨code, hcode, he⟩
    cases he
    obtain ⟨hf, hb⟩ := Code.read_iff.1 hcode
    exact ⟨code, hf, hb, rfl⟩
  · rintro ⟨code, hf, hb, rfl⟩
    exact ⟨code, Code.read_iff.2 ⟨hf, hb⟩, rfl⟩

lemma include_other_iff {c c' : Content} {index pos : Nat} {a : Attribute} (ha : a.name ≠ "Code") :
    c.include p signature index (pos, a) = .ok c' ↔
      if Annotations.arePresent a.name then
        ∃ types, a.readBody pos (Annotations.readTypes p) = .ok types ∧
          c' = { c with annotations := types :: c.annotations }
      else c' = c := by
  unfold «include»
  dsimp only
  rw [if_neg ha]
  split
  · rw [bind_eq_ok_iff]
    simp [pure, Except.pure, eq_comm]
  · simp [pure, Except.pure, eq_comm]

lemma include_mono (h : p.Extends q) {c c' : Content} {index pos : Nat} {a : Attribute}
    (hc : c.include p signature index (pos, a) = .ok c') (pos' : Nat) :
    c.include q signature index (pos', a) = .ok c' := by
  by_cases ha : a.name = "Code"
  · obtain ⟨code, hf, hb, he⟩ := (include_code_iff ha).1 hc
    exact (include_code_iff ha).2 ⟨code, hf.mono h, hb, he⟩
  · rw [include_other_iff ha] at hc ⊢
    split at hc
    · obtain ⟨types, ht, he⟩ := hc
      rw [if_pos ‹_›]
      exact ⟨types, (Annotations.carries_readTypes h).runAt ht _, he⟩
    · rwa [if_neg ‹_›]

lemma include_code {c c' : Content} {index pos : Nat} {a : Attribute} (ha : a.name ≠ "Code")
    (hc : c.include p signature index (pos, a) = .ok c') (x : Option (Nat × Code)) :
    c'.code = c.code ∧
      Content.include p signature { c with code := x } index (pos, a) =
        .ok { c' with code := x } := by
  rw [include_other_iff ha] at hc ⊢
  split at hc
  · obtain ⟨types, ht, rfl⟩ := hc
    rw [if_pos ‹_›]
    exact ⟨rfl, types, ht, rfl⟩
  · rw [if_neg ‹_›, hc]
    exact ⟨rfl, rfl⟩

lemma ofAttributes_cons_iff {index : Nat} {placed : Nat × Attribute}
    {rest : List (Nat × Attribute)} {c c' : Content} :
    ofAttributes p signature index (placed :: rest) c = .ok c' ↔
      ∃ mid, c.include p signature index placed = .ok mid ∧
        ofAttributes p signature (index + 1) rest mid = .ok c' := by
  rw [ofAttributes]
  split
  · next hf => simp [hf]
  · next hs => simp [hs]

lemma ofAttributes_append_iff {index : Nat} {as bs : List (Nat × Attribute)} {c c' : Content} :
    ofAttributes p signature index (as ++ bs) c = .ok c' ↔
      ∃ mid, ofAttributes p signature index as c = .ok mid ∧
        ofAttributes p signature (index + as.length) bs mid = .ok c' := by
  induction as generalizing index c with
  | nil => simp [ofAttributes]
  | cons a as ih =>
    simp only [List.cons_append, ofAttributes_cons_iff, ih, List.length_cons]
    constructor
    · rintro ⟨x, hx, y, hy, hc⟩
      exact ⟨y, ⟨x, hx, hy⟩, by rwa [← Nat.add_assoc, Nat.add_right_comm]⟩
    · rintro ⟨y, ⟨x, hx, hy⟩, hc⟩
      exact ⟨x, hx, y, hy, by rwa [← Nat.add_assoc, Nat.add_right_comm] at hc⟩

lemma ofAttributes_mono (h : p.Extends q) {index : Nat} {as bs : List (Nat × Attribute)}
    {c c' : Content} (hc : ofAttributes p signature index as c = .ok c')
    (he : as.map (·.2) = bs.map (·.2)) : ofAttributes q signature index bs c = .ok c' := by
  induction as generalizing index bs c with
  | nil =>
    rw [List.map_nil, eq_comm, List.map_eq_nil_iff] at he
    rw [he]
    exact hc
  | cons a as ih =>
    obtain ⟨b, bs, rfl, hab, hrest⟩ := List.map_eq_cons_iff.1 he.symm
    obtain ⟨mid, hm, htail⟩ := ofAttributes_cons_iff.1 hc
    obtain ⟨pos, a⟩ := a
    obtain ⟨pos', b⟩ := b
    obtain rfl : b = a := hab
    exact ofAttributes_cons_iff.2 ⟨mid, include_mono h hm pos', ih htail hrest.symm⟩

lemma ofAttributes_code {index : Nat} {as : List (Nat × Attribute)} {c c' : Content}
    (hc : ofAttributes p signature index as c = .ok c') (ha : ∀ a ∈ as, a.2.name ≠ "Code")
    (x : Option (Nat × Code)) :
    c'.code = c.code ∧
      ofAttributes p signature index as { c with code := x } = .ok { c' with code := x } := by
  induction as generalizing index c with
  | nil =>
    cases hc
    exact ⟨rfl, rfl⟩
  | cons a as ih =>
    obtain ⟨mid, hm, hc⟩ := ofAttributes_cons_iff.1 hc
    obtain ⟨h1, h2⟩ := include_code (ha a List.mem_cons_self) hm x
    obtain ⟨h3, h4⟩ := ih hc fun b hb => ha b (List.mem_cons_of_mem a hb)
    exact ⟨h3.trans h1, ofAttributes_cons_iff.2 ⟨_, h2, h4⟩⟩

lemma exists_code {index i : Nat} {as : List (Nat × Attribute)} {c c' : Content} {code : Code}
    (hc : ofAttributes p signature index as c = .ok c') (hcode : c'.code = some (i, code)) :
    (c.code = some (i, code) ∧ ∀ a ∈ as, a.2.name ≠ "Code") ∨
      ∃ before pos a after, as = before ++ (pos, a) :: after ∧ i = index + before.length ∧
        a.name = "Code" ∧ (∀ b ∈ after, b.2.name ≠ "Code") ∧ code.Fits p ∧
        a.body = code.encode := by
  induction as generalizing index c with
  | nil =>
    cases hc
    exact .inl ⟨hcode, nofun⟩
  | cons a as ih =>
    obtain ⟨mid, hm, htail⟩ := ofAttributes_cons_iff.1 hc
    obtain ⟨pos, a⟩ := a
    rcases ih htail with ⟨hmid, hnone⟩ | ⟨before, pos', b, after, rfl, rfl, hb⟩
    · by_cases ha : a.name = "Code"
      · obtain ⟨code', hf, hbody, rfl⟩ := (include_code_iff ha).1 hm
        cases hmid
        exact .inr ⟨[], pos, a, as, rfl, rfl, ha, hnone, hf, hbody⟩
      · refine .inl ⟨(include_code ha hm none).1.symm.trans hmid, ?_⟩
        intro b hb
        rcases List.mem_cons.1 hb with rfl | hb'
        · exact ha
        · exact hnone b hb'
    · exact .inr ⟨(pos, a) :: before, pos', b, after, rfl, by
        rw [List.length_cons]
        omega, hb⟩

end Content

structure Fits (pool : Pool) (m : Method) : Prop where
  name : pool.utf8 m.nameIndex = .ok m.name
  descriptor : pool.utf8 m.descriptorIndex = .ok m.descriptor
  attributes : AllFit (Attribute.Fits pool) m.attributes
  content : ∃ types, m.annotations = types.reverse.flatten ∧
    Content.ofAttributes pool m.signature 0 (Attribute.place 0 m.attributes) ⟨none, []⟩ =
      .ok ⟨m.code, types⟩

lemma length_encode (m : Method) : m.encode.length = m.size := by
  simp only [encode, List.length_append, length_be16, Attribute.length_encodeAll, size]
  omega

lemma reads (pool : Pool) : Reads (Method.read pool) (Fits pool) encode := by
  rintro ⟨pos, bs⟩ m ⟨pos', rest⟩
  have moved {a b : Nat} {as : List Attribute} {signature : String} {c : Content}
      (h : Content.ofAttributes pool signature 0 (Attribute.place a as) ⟨none, []⟩ = .ok c) :
      Content.ofAttributes pool signature 0 (Attribute.place b as) ⟨none, []⟩ = .ok c :=
    Content.ofAttributes_mono (Pool.Extends.refl pool) h
      (by rw [Attribute.place_map_snd, Attribute.place_map_snd])
  simp only [Method.read, u16_then_iff, lift_then_iff, offset_then_iff,
    (Attribute.reads_all pool).then_iff, pure_eq_ok_iff, Reader.mk.injEq]
  constructor
  · rintro ⟨accessFlags, _, rfl, nameIndex, _, rfl, descriptorIndex, _, rfl, name, hn, descriptor,
      hd, attributes, _, ha, rfl, content, hc, rfl, rfl, rfl⟩
    refine ⟨⟨hn, hd, ha, content.annotations, rfl, moved hc⟩, ?_, ?_⟩
    · simp only [encode, List.append_assoc]
    · simp only [encode, List.length_append, length_be16]
      omega
  · rintro ⟨⟨hn, hd, ha, types, ht, hc⟩, rfl, rfl⟩
    refine ⟨m.accessFlags, _, List.append_assoc .., m.nameIndex, _, List.append_assoc ..,
      m.descriptorIndex, _, List.append_assoc .., m.name, hn, m.descriptor, hd, m.attributes, rest,
      ha, rfl, ⟨m.code, types⟩, moved hc, ?_, ?_, rfl⟩
    · rw [← ht]
    · simp only [encode, List.length_append, length_be16]
      omega

lemma Fits.mono {p q : Pool} {m : Method} (h : m.Fits p) (hq : p.Extends q) : m.Fits q := by
  obtain ⟨hn, hd, ha, types, ht, hc⟩ := h
  exact ⟨hq.utf8 hn, hq.utf8 hd, ha.mono fun _ _ ha => ha.mono hq, types, ht,
    Content.ofAttributes_mono hq hc rfl⟩

lemma Fits.exists_code {pool : Pool} {m : Method} (h : m.Fits pool) {index : Nat} {code : Code}
    (hm : m.code = some (index, code)) :
    ∃ before a after, m.attributes = before ++ a :: after ∧ index = before.length ∧
      a.name = "Code" ∧ (∀ b ∈ after, b.name ≠ "Code") ∧ code.Fits pool ∧
      a.body = code.encode := by
  obtain ⟨-, -, -, types, -, hc⟩ := h
  rcases Content.exists_code hc hm with
    ⟨hnone, -⟩ | ⟨before, pos, a, after, he, hi, ha, hb, hf, hbody⟩
  · cases hnone
  · refine ⟨before.map (·.2), a, after.map (·.2), ?_, ?_, ha, ?_, hf, hbody⟩
    · rw [← Attribute.place_map_snd 0 m.attributes, he]
      simp
    · rw [hi, List.length_map, Nat.zero_add]
    · intro b hb'
      obtain ⟨x, hx, rfl⟩ := List.mem_map.1 hb'
      exact hb x hx

end Method

end ClassWeaver
