import ClassWeaver.Instrumentation
import ClassWeaver.Proofs.ClassFile.RoundTrip
import ClassWeaver.Proofs.Pool.GrowthSteps

namespace ClassWeaver

open Read

namespace Read

variable {ε α β : Type}

lemma timesFrom_forall₂ {item : ReadOr ε α} {enc : β → Bytes} {as : List α} {bs : List β}
    (h : List.Forall₂ (fun a b => ∀ pos rest,
      item ⟨pos, enc b ++ rest⟩ = .ok (a, ⟨pos + (enc b).length, rest⟩)) as bs)
    (done : List α) (pos : Nat) (rest : Bytes) :
    timesFrom item bs.length done ⟨pos, bs.flatMap enc ++ rest⟩ =
      .ok (done.reverse ++ as, ⟨pos + (bs.flatMap enc).length, rest⟩) := by
  induction h generalizing done pos with
  | nil =>
    rw [List.append_nil]
    rfl
  | @cons a b as bs hab _ ih =>
    rw [List.flatMap_cons, List.append_assoc, List.length_cons, Read.timesFrom, hab]
    dsimp only
    rw [ih, List.length_append, Nat.add_assoc, List.reverse_cons, List.append_assoc]
    rfl

end Read

namespace ClassFile

structure Marks (pool : Pool) (a : Attribute) (rules : List String) : Prop where
  nameIndex : pool.utf8 a.nameIndex = .ok markerName
  name : a.name = markerName
  body : ∃ ids, a.body = count16 ids.length ++ ids.flatMap be16 ∧
    List.Forall₂ (fun text i => pool.utf8 i = .ok text) rules ids

variable {p q : Pool} {a : Attribute} {rules : List String}

lemma yields_marker (hp : p.count ≤ Pool.maxSlots)
    (h : Growth.Yields (Instrumentation.marker rules) p a q) : p.Grown q ∧ Marks q a rules := by
  obtain ⟨i, q1, hi, h⟩ := Growth.yields_bind.1 h
  obtain ⟨ids, q2, hids, h⟩ := Growth.yields_bind.1 h
  obtain ⟨rfl, rfl⟩ := Growth.yields_pure.1 h
  obtain ⟨g1, hi⟩ := (Pool.leads_addUtf8 hp trivial).grown hi
  obtain ⟨g2, hids⟩ := Pool.yields_mapM (fun q text i => q.utf8 i = .ok text)
    (fun hp h => ((Pool.leads_addUtf8 hp trivial).grown h).imp_right Pool.utf8_eq_ok_iff.2)
    (fun hq h => hq.utf8 h) (g1.count_le hp) hids
  exact ⟨g1.trans g2, g2.extends.utf8 (Pool.utf8_eq_ok_iff.2 hi), rfl, ids, rfl, hids⟩

lemma Marks.mono (h : Marks p a rules) (hq : p.Extends q) : Marks q a rules := by
  obtain ⟨hi, hname, ids, hbody, hids⟩ := h
  exact ⟨hq.utf8 hi, hname, ids, hbody, hids.imp fun _ _ => hq.utf8⟩

lemma Marks.fits (h : Marks p a rules) (hlen : rules.length < 65536) : a.Fits p := by
  obtain ⟨hi, hname, ids, hbody, hids⟩ := h
  refine ⟨hname ▸ hi, ?_⟩
  have hflat : (ids.flatMap be16).length = ids.length * 2 := by simp [List.length_flatMap]
  rw [hbody, List.length_append, count16, length_be16, hflat, ← hids.length_eq]
  omega

lemma Marks.readBody (h : Marks p a rules) (hlen : rules.length < 65536) (pos : Nat) :
    a.readBody pos (readMarker p) = .ok rules := by
  obtain ⟨-, -, ids, hbody, hids⟩ := h
  have hitem : List.Forall₂ (fun text i => ∀ pos rest,
      (u16 "marker attribute" >>= fun i => lift (p.utf8 i)) ⟨pos, be16 i ++ rest⟩ =
        .ok (text, ⟨pos + (be16 i).length, rest⟩)) rules ids := by
    apply hids.imp
    intro text i hi pos rest
    exact u16_then_iff.2 ⟨i, rest, rfl, lift_eq_ok_iff.2 ⟨hi, rfl⟩⟩
  have hread := timesFrom_forall₂ hitem [] (pos + Attribute.headerSize + 2) []
  have hcount : (UInt16.ofNat ids.length).toNat = ids.length :=
    toNat_count16 (hids.length_eq ▸ hlen)
  rw [List.append_nil] at hread
  rw [Attribute.readBody, hbody, runAt_eq_ok_iff]
  refine ⟨⟨pos + Attribute.headerSize + 2 + (ids.flatMap be16).length, []⟩, ?_⟩
  apply u16_then_iff.2
  refine ⟨UInt16.ofNat ids.length, _, rfl, ?_⟩
  rw [hcount]
  exact hread

lemma readClassAttributes_filter (h : p.Extends q) {as bs : List (Nat × Attribute)}
    {annotations applied : List (List String)} {x : List String × List String}
    (hx : readClassAttributes p as annotations applied = .ok x)
    (hb : bs.map (·.2) = (as.map (·.2)).filter (·.name != markerName)) :
    ∃ types, x.1 = types.reverse.flatten ∧ ∀ tail applied',
      readClassAttributes q (bs ++ tail) annotations applied' =
        readClassAttributes q tail types applied' := by
  induction as generalizing bs annotations applied with
  | nil =>
    cases hx
    obtain rfl : bs = [] := List.map_eq_nil_iff.1 hb
    exact ⟨annotations, rfl, fun _ _ => rfl⟩
  | cons a as ih =>
    obtain ⟨pos, a⟩ := a
    rw [readClassAttributes] at hx
    by_cases hm : a.name = markerName
    · have hnone : ¬ Annotations.arePresent a.name = true := by
        rw [hm]
        decide
      rw [if_neg hnone, if_pos hm] at hx
      rw [List.map_cons, List.filter_cons_of_neg (by simpa using hm)] at hb
      split at hx
      · cases hx
      · exact ih hx hb
    · rw [List.map_cons, List.filter_cons_of_pos (by simpa using hm)] at hb
      obtain ⟨⟨pos', b⟩, bs, rfl, hab, hrest⟩ := List.map_eq_cons_iff.1 hb
      obtain rfl : b = a := hab
      by_cases ha : Annotations.arePresent b.name = true
      · rw [if_pos ha] at hx
        split at hx
        · cases hx
        next types ht =>
          obtain ⟨all, hall, htail⟩ := ih hx hrest
          refine ⟨all, hall, fun tail applied' => ?_⟩
          have ht' : b.readBody pos' (Annotations.readTypes q) = .ok types :=
            (Annotations.carries_readTypes h).runAt ht _
          rw [List.cons_append, readClassAttributes, if_pos ha, ht']
          exact htail tail applied'
      · rw [if_neg ha, if_neg hm] at hx
        obtain ⟨all, hall, htail⟩ := ih hx hrest
        refine ⟨all, hall, fun tail applied' => ?_⟩
        rw [List.cons_append, readClassAttributes, if_neg ha, if_neg hm]
        exact htail tail applied'

lemma readClassAttributes_marked (h : p.Extends q) {as : List Attribute}
    {x : List String × List String}
    (hx : readClassAttributes p (Attribute.place 0 as) [] [] = .ok x) (ha : Marks q a rules)
    (hlen : rules.length < 65536) :
    readClassAttributes q (Attribute.place 0 (as.filter (·.name != markerName) ++ [a])) [] [] =
      .ok (x.1, rules) := by
  obtain ⟨bs, last, hsplit, hbs, hlast⟩ :=
    List.map_eq_append_iff.1 (Attribute.place_map_snd 0 (as.filter (·.name != markerName) ++ [a]))
  obtain ⟨⟨pos, b⟩, tail, rfl, hb, htail⟩ := List.map_eq_cons_iff.1 hlast
  obtain rfl : b = a := hb
  obtain rfl : tail = [] := List.map_eq_nil_iff.1 htail
  rw [← Attribute.place_map_snd 0 as] at hbs
  obtain ⟨types, htypes, hrest⟩ := readClassAttributes_filter h hx hbs
  have hnone : ¬ Annotations.arePresent b.name = true := by
    rw [ha.name]
    decide
  rw [hsplit, hrest, readClassAttributes, if_neg hnone, if_pos ha.name, ha.readBody hlen, htypes]
  simp only [readClassAttributes, List.reverse_singleton, List.flatten_singleton]

end ClassFile

end ClassWeaver
