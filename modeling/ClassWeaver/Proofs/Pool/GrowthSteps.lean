import ClassWeaver.Proofs.Pool.Extension

namespace ClassWeaver

def Constant.Links (p : Pool) (c : Constant) : Prop :=
  ∃ refs, c.references? = some refs ∧ ∀ r ∈ refs, p.plays r.1 r.2 = true

lemma Constant.Links.mono {p q : Pool} {c : Constant} (h : c.Links p) (hq : p.Extends q) :
    c.Links q := by
  obtain ⟨refs, hr, hp⟩ := h
  exact ⟨refs, hr, fun r hmem => hq.plays (hp r hmem)⟩

namespace Pool

inductive Grown (p : Pool) : Pool → Prop
  | refl : Grown p p
  | push {q : Pool} {c : Constant} (h : Grown p q) (room : q.count < maxSlots)
    (narrow : c.isWide = false) (usable : c ≠ .unusable) (links : c.Links q) :
    Grown p { q with slots := q.slots.push c }

variable {p q r : Pool}

lemma Grown.trans (h : p.Grown q) (h' : q.Grown r) : p.Grown r := by
  induction h' with
  | refl => exact h
  | push _ room narrow usable links ih => exact ih.push room narrow usable links

lemma extends_push (p : Pool) (c : Constant) : p.Extends { p with slots := p.slots.push c } := by
  unfold Extends
  rw [Array.toList_push]
  exact List.prefix_append _ _

lemma Grown.extends (h : p.Grown q) : p.Extends q := by
  induction h with
  | refl => exact Extends.refl p
  | push _ _ _ _ _ ih => exact ih.trans (extends_push _ _)

lemma Grown.count_le (h : p.Grown q) (hp : p.count ≤ maxSlots) : q.count ≤ maxSlots := by
  induction h with
  | refl => exact hp
  | push _ room _ _ _ _ =>
    rw [count, Array.size_push]
    exact room

lemma Grown.raw_eq (h : p.Grown q) : q.raw = p.raw ∧ q.readSlots = p.readSlots := by
  induction h with
  | refl => exact ⟨rfl, rfl⟩
  | push _ _ _ _ _ ih => exact ih

lemma get?_of_slot {c : Constant} {n : Nat} (hn : n < 65536) (hc : c ≠ .unusable)
    (h : p.slots[n]? = some c) : p.get? (UInt16.ofNat n) = some c := by
  have ht : (UInt16.ofNat n).toNat = n := by
    rw [UInt16.toNat_ofNat']
    omega
  rw [get?_eq_some_iff, ht]
  exact ⟨h, hc⟩

lemma Extends.slot_eq (h : p.Extends q) {i : Nat} (hi : i < p.count) :
    q.slots[i]? = p.slots[i]? := by
  obtain ⟨more, hm⟩ := h
  rw [← Array.getElem?_toList, ← hm, List.getElem?_append_left hi, Array.getElem?_toList]

/-- Additions lead from `p` to `q`: no entry of theirs stood anywhere before it, and their texts
satisfy `T`. -/
structure Enlarged (T : String → Prop) (p q : Pool) : Prop where
  grown : p.Grown q
  new : ∀ i j, i < j → p.count ≤ j → j < q.count → q.slots[i]? ≠ q.slots[j]?
  texts : ∀ j text, p.count ≤ j → q.slots[j]? = some (.utf8 text) → T text

section Enlarging

variable {T : String → Prop}

lemma Enlarged.refl (T : String → Prop) (p : Pool) : p.Enlarged T p where
  grown := .refl
  new _ _ _ hj hlt := absurd hlt (Nat.not_lt.2 hj)
  texts j text hj h := by
    rw [Array.getElem?_eq_none hj] at h
    cases h

lemma Enlarged.trans (h : p.Enlarged T q) (h' : q.Enlarged T r) : p.Enlarged T r where
  grown := h.grown.trans h'.grown
  new i j hij hj hlt := by
    by_cases hq : j < q.count
    · rw [h'.grown.extends.slot_eq hq, h'.grown.extends.slot_eq (Nat.lt_trans hij hq)]
      exact h.new i j hij hj hq
    · exact h'.new i j hij (Nat.le_of_not_lt hq) hlt
  texts j text hj ht := by
    by_cases hq : j < q.count
    · rw [h'.grown.extends.slot_eq hq] at ht
      exact h.texts j text hj ht
    · exact h'.texts j text (Nat.le_of_not_lt hq) ht

lemma Enlarged.push {c : Constant} (room : p.count < maxSlots) (new : c ∉ p.slots)
    (narrow : c.isWide = false) (usable : c ≠ .unusable) (links : c.Links p)
    (texts : ∀ text, c = .utf8 text → T text) :
    p.Enlarged T { p with slots := p.slots.push c } where
  grown := Grown.refl.push room narrow usable links
  new i j hij hj hlt he := by
    rw [count, Array.size_push] at hlt
    obtain rfl : j = p.slots.size := Nat.le_antisymm (Nat.le_of_lt_succ hlt) hj
    rw [Array.getElem?_push_size, Array.getElem?_push, if_neg (Nat.ne_of_lt hij)] at he
    exact new (Array.mem_of_getElem? he)
  texts j text hj h := by
    rw [Array.getElem?_push] at h
    split at h
    · exact texts text (Option.some.inj h)
    · rw [Array.getElem?_eq_none hj] at h
      cases h

lemma addConstant_cases {c : Constant} (hp : p.count ≤ maxSlots) (narrow : c.isWide = false)
    (usable : c ≠ .unusable) :
    (∃ i, p.addConstant c = (some i, p) ∧ p.get? i = some c) ∨
    (p.count < maxSlots ∧ c ∉ p.slots ∧
      p.addConstant c = (some (UInt16.ofNat p.count), { p with slots := p.slots.push c })) ∨
    (p.count = maxSlots ∧ p.addConstant c = (none, p)) := by
  unfold addConstant
  split
  · next n hn =>
    rw [Array.idxOf?_eq_map_finIdxOf?_val, Option.map_eq_some_iff] at hn
    obtain ⟨k, hk, rfl⟩ := hn
    refine .inl ⟨_, rfl, get?_of_slot ?_ usable ?_⟩
    · exact Nat.lt_of_lt_of_le k.isLt (Nat.le_succ_of_le hp)
    · rw [Array.getElem?_eq_getElem k.isLt]
      exact congrArg some (Array.finIdxOf?_eq_some_iff.1 hk).1
  · next hn =>
    simp only [Constant.width, narrow, Bool.false_eq_true, if_false]
    split
    · next hfull => exact .inr (.inr ⟨Nat.le_antisymm hp (Nat.le_of_lt_succ hfull), rfl⟩)
    · next hroom =>
      exact .inr (.inl ⟨Nat.lt_of_not_le fun h => hroom (Nat.lt_succ_of_le h),
        Array.idxOf?_eq_none_iff.1 hn, rfl⟩)

/-- What a growth does to `p`, also when it fails half-way: it adds texts with `T` only, and what it
yields is as `post` says. -/
structure Leads {α : Type} (T : String → Prop) (g : Growth α) (p : Pool)
    (post : Pool → α → Prop) : Prop where
  enlarged : p.Enlarged T (g.run p).2
  yields : ∀ a q, Growth.Yields g p a q → post q a

open Growth

variable {α β : Type} {g : Growth α} {post : Pool → α → Prop} {a : α}

lemma Leads.of_yields (h : Leads T g p post) (ha : Yields g p a q) : p.Enlarged T q ∧ post q a := by
  have hq : (g.run p).2 = q := congrArg Prod.snd ha
  exact ⟨hq ▸ h.enlarged, h.yields a q ha⟩

lemma Leads.imp {post' : Pool → α → Prop} (h : Leads T g p post)
    (himp : ∀ {q a}, p.Enlarged T q → post q a → post' q a) : Leads T g p post' where
  enlarged := h.enlarged
  yields a q ha := himp (h.of_yields ha).1 (h.yields a q ha)

lemma Leads.bind {k : α → Growth β} {post' : Pool → β → Prop} (h : Leads T g p post)
    (hk : ∀ {q a}, p.Enlarged T q → post q a → Leads T (k a) q post') :
    Leads T (g >>= k) p post' where
  enlarged := by
    have hg := h.enlarged
    have hy := h.yields
    rw [run_bind]
    unfold Yields at hy
    cases hrun : (g.run p : Option α × Pool) with
    | mk o q =>
      rw [hrun] at hg hy
      cases o with
      | none => exact hg
      | some a => exact hg.trans (hk hg (hy a q rfl)).enlarged
  yields b r hb := by
    obtain ⟨a, q, ha, hb⟩ := yields_bind.1 hb
    obtain ⟨hq, hpost⟩ := h.of_yields ha
    exact (hk hq hpost).yields b r hb

lemma leads_add {c : Constant} (hp : p.count ≤ maxSlots) (links : c.Links p)
    (narrow : c.isWide = false) (usable : c ≠ .unusable)
    (texts : ∀ text, c = .utf8 text → T text) :
    Leads T (add c) p fun q i => q.get? i = some c := by
  have hrun : ((add c).run p : Option UInt16 × Pool) = p.addConstant c := rfl
  -- only the second case changes the pool, and the third yields nothing
  obtain ⟨i, h, hi⟩ | ⟨room, new, h⟩ | ⟨-, h⟩ := addConstant_cases hp narrow usable
  · refine ⟨?_, fun a q ha => ?_⟩
    · rw [hrun, h]
      exact .refl T p
    · cases (hrun.trans h).symm.trans ha
      exact hi
  · refine ⟨?_, fun a q ha => ?_⟩
    · rw [hrun, h]
      exact .push room new narrow usable links texts
    · cases (hrun.trans h).symm.trans ha
      exact get?_of_slot (Nat.lt_succ_of_lt room) usable Array.getElem?_push_size
  · refine ⟨?_, fun a q ha => ?_⟩
    · rw [hrun, h]
      exact .refl T p
    · cases (hrun.trans h).symm.trans ha

lemma plays_of_get? {i : UInt16} {c : Constant} {role : Constant.Role} (h : p.get? i = some c)
    (hr : c.plays role = true) : p.plays i role = true := by
  rwa [plays, h]

lemma className_plays {i : UInt16} {name : String} (h : p.className i = .ok name) :
    p.plays i .classRef = true := by
  obtain ⟨j, hj, -⟩ := className_eq_ok_iff.1 h
  exact plays_of_get? hj rfl

lemma leads_addUtf8 {text : String} (hp : p.count ≤ maxSlots) (ht : T text) :
    Leads T (addUtf8 text) p fun q i => q.get? i = some (.utf8 text) :=
  leads_add hp ⟨[], rfl, nofun⟩ rfl nofun fun _ he => Constant.utf8.inj he ▸ ht

lemma leads_addClass {name : String} (hp : p.count ≤ maxSlots) (ht : T name) :
    Leads T (addClass name) p fun q i => q.className i = .ok name := by
  refine (leads_addUtf8 hp ht).bind fun {q j} hq hj => ?_
  have links : (Constant.classRef j).Links q :=
    ⟨[(j, .utf8)], rfl, by simpa using plays_of_get? hj rfl⟩
  refine (leads_add (hq.grown.count_le hp) links rfl nofun nofun).imp fun hr hi => ?_
  exact className_eq_ok_iff.2 ⟨j, hi, utf8_eq_ok_iff.2 (hr.grown.extends.get? hj)⟩

lemma leads_addString {text : String} (hp : p.count ≤ maxSlots) (ht : T text) :
    Leads T (addString text) p fun q i =>
      ∃ j, q.get? i = some (.string j) ∧ q.get? j = some (.utf8 text) := by
  refine (leads_addUtf8 hp ht).bind fun {q j} hq hj => ?_
  have links : (Constant.string j).Links q :=
    ⟨[(j, .utf8)], rfl, by simpa using plays_of_get? hj rfl⟩
  refine (leads_add (hq.grown.count_le hp) links rfl nofun nofun).imp fun hr hi => ?_
  exact ⟨j, hi, hr.grown.extends.get? hj⟩

def RefersTo (p : Pool) (i : UInt16) (owner name descriptor : String) : Prop :=
  (∃ o m, p.get? i = some (.methodRef o m) ∧ p.className o = .ok owner) ∧
    p.referenceName? i = some name ∧ p.referenceDescriptor? i = some descriptor

lemma refersTo_of_get? {owner name descriptor : String} {i o m n d : UInt16}
    (hi : p.get? i = some (.methodRef o m)) (ho : p.className o = .ok owner)
    (hm : p.get? m = some (.nameAndType n d)) (hn : p.get? n = some (.utf8 name))
    (hd : p.get? d = some (.utf8 descriptor)) : p.RefersTo i owner name descriptor := by
  have hmember : p.member? i = some (n, d) := by
    unfold member?
    rw [hi]
    simp only [hm]
  exact ⟨⟨o, m, hi, ho⟩, by rw [referenceName?, hmember]; exact utf8?_eq_some_iff.2 hn,
    by rw [referenceDescriptor?, hmember]; exact utf8?_eq_some_iff.2 hd⟩

lemma leads_addMethodRef {owner name descriptor : String} (hp : p.count ≤ maxSlots)
    (howner : T owner) (hname : T name) (hdescriptor : T descriptor) :
    Leads T (addMethodRef owner name descriptor) p fun q i =>
      q.RefersTo i owner name descriptor := by
  refine (leads_addClass hp howner).bind fun {q1 o} h1 ho => ?_
  have hp1 := h1.grown.count_le hp
  refine (leads_addUtf8 hp1 hname).bind fun {q2 n} h2 hn => ?_
  have hp2 := h2.grown.count_le hp1
  refine (leads_addUtf8 hp2 hdescriptor).bind fun {q3 d} h3 hd => ?_
  have hp3 := h3.grown.count_le hp2
  have hn := h3.grown.extends.get? hn
  have links : (Constant.nameAndType n d).Links q3 := ⟨[(n, .utf8), (d, .utf8)], rfl, by
    simpa using And.intro (plays_of_get? hn rfl) (plays_of_get? hd rfl)⟩
  refine (leads_add hp3 links rfl nofun nofun).bind fun {q4 m} h4 hm => ?_
  have ho := ((h2.trans h3).trans h4).grown.extends.className ho
  have links : (Constant.methodRef o m).Links q4 :=
    ⟨[(o, .classRef), (m, .nameAndType)], rfl, by
      simpa using And.intro (className_plays ho) (plays_of_get? hm rfl)⟩
  refine (leads_add (h4.grown.count_le hp3) links rfl nofun nofun).imp fun h5 hi => ?_
  have hext := (h4.trans h5).grown.extends
  have hlast := h5.grown.extends
  exact refersTo_of_get? hi (hlast.className ho) (hlast.get? hm) (hext.get? hn) (hext.get? hd)

lemma Leads.grown (h : Leads (fun _ => True) g p post) (ha : Yields g p a q) :
    p.Grown q ∧ post q a :=
  (h.of_yields ha).imp_left Enlarged.grown

end Enlarging

open Growth

lemma yields_mapM {α β : Type} {g : α → Growth β} (post : Pool → α → β → Prop)
    (step : ∀ {p q : Pool} {a : α} {b : β}, p.count ≤ maxSlots → Yields (g a) p b q →
      p.Grown q ∧ post q a b)
    (mono : ∀ {p q : Pool} {a : α} {b : β}, p.Extends q → post p a b → post q a b)
    {as : List α} {bs : List β} (hp : p.count ≤ maxSlots) (h : Yields (as.mapM g) p bs q) :
    p.Grown q ∧ List.Forall₂ (post q) as bs := by
  induction as generalizing p bs with
  | nil =>
    rw [List.mapM_nil] at h
    obtain ⟨rfl, rfl⟩ := yields_pure.1 h
    exact ⟨.refl, .nil⟩
  | cons a as ih =>
    rw [List.mapM_cons] at h
    obtain ⟨b, q1, hb, h⟩ := yields_bind.1 h
    obtain ⟨cs, q2, hcs, h⟩ := yields_bind.1 h
    obtain ⟨rfl, rfl⟩ := yields_pure.1 h
    obtain ⟨g1, pb⟩ := step hp hb
    obtain ⟨g2, pcs⟩ := ih (g1.count_le hp) hcs
    exact ⟨g1.trans g2, .cons (mono g2.extends pb) pcs⟩

end Pool

end ClassWeaver
