import ClassWeaver.Instrumentation
import ClassWeaver.Proofs.ClassFile.Contents

namespace ClassWeaver

open Read

namespace Method

/-- The two methods are written alike but for the body of the last Code attribute. -/
structure Recoded (m m' : Method) : Prop where
  accessFlags : m'.accessFlags = m.accessFlags
  nameIndex : m'.nameIndex = m.nameIndex
  descriptorIndex : m'.descriptorIndex = m.descriptorIndex
  attributes : ∃ before a body after, m.attributes = before ++ a :: after ∧ a.name = "Code" ∧
    (∀ b ∈ after, b.name ≠ "Code") ∧ m'.attributes = before ++ { a with body } :: after

lemma modify_append {α : Type} (as bs : List α) (a : α) (f : α → α) :
    (as ++ a :: bs).modify as.length f = as ++ f a :: bs := by
  induction as with
  | nil => rfl
  | cons b as ih =>
    rw [List.cons_append, List.length_cons, List.modify_succ_cons, ih, List.cons_append]

variable {p q : Pool} {m : Method} {index : Nat} {code code' : Code}

lemma Fits.recoded (h : m.Fits p) (hm : m.code = some (index, code)) (code' : Code) :
    m.Recoded (Instrumentation.withCode m index code') := by
  obtain ⟨before, a, after, he, rfl, ha, hafter, -, -⟩ := h.exists_code hm
  refine ⟨rfl, rfl, rfl, before, a, code'.encode, after, he, ha, hafter, ?_⟩
  rw [Instrumentation.withCode, he]
  exact modify_append before after a _

lemma Content.ofAttributes_recoded {signature : String} {as bs : List (Nat × Attribute)}
    {pos : Nat} (pos' : Nat) {a : Attribute} {types : List (List String)} {x : Option (Nat × Code)}
    (h : Content.ofAttributes q signature 0 (as ++ (pos, a) :: bs) ⟨none, []⟩ = .ok ⟨x, types⟩)
    (ha : a.name = "Code") (hbs : ∀ b ∈ bs, b.2.name ≠ "Code") (hc : code'.Fits q) :
    Content.ofAttributes q signature 0 (as ++ (pos', { a with body := code'.encode }) :: bs)
      ⟨none, []⟩ = .ok ⟨some (as.length, code'), types⟩ := by
  obtain ⟨first, hfirst, hrest⟩ := Content.ofAttributes_append_iff.1 h
  obtain ⟨mid, hmid, hlast⟩ := Content.ofAttributes_cons_iff.1 hrest
  obtain ⟨old, -, -, rfl⟩ := (Content.include_code_iff ha).1 hmid
  have hlast' := (Content.ofAttributes_code hlast hbs (some (0 + as.length, code'))).2
  apply Content.ofAttributes_append_iff.2
  refine ⟨first, hfirst, Content.ofAttributes_cons_iff.2
    ⟨{ first with code := some (0 + as.length, code') }, ?_, ?_⟩⟩
  · have ha' : ({ a with body := code'.encode } : Attribute).name = "Code" := ha
    exact (Content.include_code_iff ha').2 ⟨code', hc, rfl, rfl⟩
  · rw [Nat.zero_add] at hlast' ⊢
    exact hlast'

lemma Fits.withCode (h : m.Fits p) (hq : p.Extends q) (hm : m.code = some (index, code))
    (hc : code'.Fits q) (hshort : code'.encode.length < 4294967296) :
    (Instrumentation.withCode m index code').Fits q := by
  obtain ⟨before, a, after, he, rfl, ha, hafter, -, -⟩ := h.exists_code hm
  obtain ⟨hn, hd, hall, types, ht, hcontent⟩ := h.mono hq
  have hmodified : (Instrumentation.withCode m before.length code').attributes =
      before ++ { a with body := code'.encode } :: after := by
    rw [Instrumentation.withCode, he]
    exact modify_append before after a _
  refine ⟨hn, hd, ?_, types, ht, ?_⟩
  · rw [hmodified]
    rw [he] at hall
    refine ⟨by simpa using hall.1, fun b hb => ?_⟩
    rcases List.mem_append.1 hb with hb | hb
    · exact hall.2 b (List.mem_append_left _ hb)
    rcases List.mem_cons.1 hb with rfl | hb
    · exact ⟨(hall.2 a (by simp)).1, hshort⟩
    · exact hall.2 b (List.mem_append_right _ (List.mem_cons_of_mem a hb))
  · have hplaced := Attribute.place_map_snd 0 m.attributes
    rw [he, List.map_eq_append_iff] at hplaced
    obtain ⟨as, tail, hsplit, hbefore, htail⟩ := hplaced
    obtain ⟨⟨pos, b⟩, bs, rfl, hb, hrest⟩ := List.map_eq_cons_iff.1 htail
    obtain rfl : b = a := hb
    rw [← he] at hsplit
    rw [hsplit] at hcontent
    have hbs : ∀ c ∈ bs, c.2.name ≠ "Code" := by
      intro c hc
      apply hafter
      rw [← hrest]
      exact List.mem_map_of_mem hc
    have hnew := Content.ofAttributes_recoded 0 hcontent ha hbs hc
    have hlen : as.length = before.length := by rw [← hbefore, List.length_map]
    rw [hlen] at hnew
    apply Content.ofAttributes_mono (Pool.Extends.refl q) hnew
    rw [Attribute.place_map_snd, hmodified]
    simp [hbefore, hrest]

end Method

end ClassWeaver
