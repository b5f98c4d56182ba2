import ClassWeaver.Proofs.Pool.GrownPool

/-! Any sequence of additions to a pool that was read, those included that find no room: no index
changes its meaning, no entry is added twice, the pool could be written and read at every moment,
and an index that was given out leads to the texts it was asked for. -/

namespace ClassWeaver

open Read

namespace Pool

variable {p q : Pool} {pos : Nat} {i : UInt16}

inductive Addition where
  | utf8 (text : String)
  | classRef (name : String)
  | string (text : String)
  | methodRef (owner name descriptor : String)

namespace Addition

def growth : Addition → Growth UInt16
  | utf8 text => addUtf8 text
  | classRef name => addClass name
  | string text => addString text
  | methodRef owner name descriptor => addMethodRef owner name descriptor

def texts : Addition → List String
  | utf8 text | classRef text | string text => [text]
  | methodRef owner name descriptor => [owner, name, descriptor]

def IsShort (a : Addition) : Prop := ∀ text ∈ a.texts, (ModifiedUtf8.encode text).length ≤ 65535

instance (a : Addition) : Decidable a.IsShort := List.decidableBAll _ _

def FoundAt (p : Pool) (i : UInt16) : Addition → Prop
  | utf8 text => p.utf8 i = .ok text
  | classRef name => p.className i = .ok name
  | string text => ∃ j, p.get? i = some (.string j) ∧ p.utf8 j = .ok text
  | methodRef owner name descriptor => p.RefersTo i owner name descriptor

lemma FoundAt.mono {a : Addition} (h : a.FoundAt p i) (hq : p.Extends q) : a.FoundAt q i := by
  cases a with
  | utf8 text => exact hq.utf8 h
  | classRef name => exact hq.className h
  | string text =>
    obtain ⟨j, hi, hj⟩ := h
    exact ⟨j, hq.get? hi, hq.utf8 hj⟩
  | methodRef owner name descriptor =>
    obtain ⟨⟨o, m, hi, ho⟩, hn, hd⟩ := h
    exact ⟨⟨o, m, hq.get? hi, hq.className ho⟩, hq.referenceName? hn, hq.referenceDescriptor? hd⟩

lemma FoundAt.exists_constant {a : Addition} (h : a.FoundAt p i) : ∃ c, p.get? i = some c := by
  cases a with
  | utf8 text => exact ⟨_, utf8_eq_ok_iff.1 h⟩
  | classRef name =>
    obtain ⟨j, hi, -⟩ := className_eq_ok_iff.1 h
    exact ⟨_, hi⟩
  | string text =>
    obtain ⟨j, hi, -⟩ := h
    exact ⟨_, hi⟩
  | methodRef owner name descriptor =>
    obtain ⟨⟨o, m, hi, -⟩, -⟩ := h
    exact ⟨_, hi⟩

lemma leads_growth {T : String → Prop} {a : Addition} (hp : p.count ≤ maxSlots)
    (ht : ∀ text ∈ a.texts, T text) : Leads T a.growth p fun q i => a.FoundAt q i := by
  cases a with
  | utf8 text =>
    rw [texts, List.forall_mem_singleton] at ht
    exact (leads_addUtf8 hp ht).imp fun _ h => utf8_eq_ok_iff.2 h
  | classRef name =>
    rw [texts, List.forall_mem_singleton] at ht
    exact leads_addClass hp ht
  | string text =>
    rw [texts, List.forall_mem_singleton] at ht
    refine (leads_addString hp ht).imp fun _ h => ?_
    obtain ⟨j, hi, hj⟩ := h
    exact ⟨j, hi, utf8_eq_ok_iff.2 hj⟩
  | methodRef owner name descriptor =>
    rw [texts, List.forall_mem_cons, List.forall_mem_cons, List.forall_mem_singleton] at ht
    exact leads_addMethodRef hp ht.1 ht.2.1 ht.2.2

end Addition

def addAll : List Addition → Pool → List (Option UInt16) × Pool
  | [], p => ([], p)
  | a :: additions, p =>
    let (result, q) := (a.growth.run p : Option UInt16 × Pool)
    let (results, r) := addAll additions q
    (result :: results, r)

lemma addAll_leads {T : String → Prop} {additions : List Addition} (hp : p.count ≤ maxSlots)
    (ht : ∀ a ∈ additions, ∀ text ∈ a.texts, T text) :
    p.Enlarged T (addAll additions p).2 ∧
      List.Forall₂ (fun a result => ∀ i, result = some i → a.FoundAt (addAll additions p).2 i)
        additions (addAll additions p).1 := by
  induction additions generalizing p with
  | nil => exact ⟨.refl T p, .nil⟩
  | cons a additions ih =>
    rw [List.forall_mem_cons] at ht
    have hstep := Addition.leads_growth hp ht.1
    have hq := hstep.enlarged
    obtain ⟨hr, hfound⟩ := ih (hq.grown.count_le hp) ht.2
    refine ⟨hq.trans hr, .cons (fun i hi => ?_) hfound⟩
    exact (hstep.yields i _ (Prod.ext hi rfl)).mono hr.grown.extends

lemma Enlarged.isShort (hp : p.Whole)
    (h : p.Enlarged (fun text => (ModifiedUtf8.encode text).length ≤ 65535) q) :
    ∀ c ∈ q.appended, c.IsShort := by
  rintro c hc text rfl
  obtain ⟨k, hk⟩ := List.mem_iff_getElem?.1 hc
  rw [appended, List.getElem?_drop, Array.getElem?_toList] at hk
  refine h.texts _ text ?_ hk
  rw [h.grown.raw_eq.2, hp.readSlots]
  exact Nat.le_add_right _ _

/-- Additions to a pool that was read, of texts that can be written. Where one finds no room, what
it added before stays, and all of this holds as well. -/
theorem addAll_keeps_valid {bs : Bytes} {r : Reader} {additions : List Addition}
    {results : List (Option UInt16)} (hread : Pool.read ⟨pos, bs⟩ = .ok (p, r))
    (short : ∀ a ∈ additions, a.IsShort) (h : addAll additions p = (results, q)) :
    (∀ i < p.count, q.slots[i]? = p.slots[i]?) ∧
    (∀ i j, i < j → p.count ≤ j → j < q.count → q.slots[i]? ≠ q.slots[j]?) ∧
    q.count ≤ 65535 ∧
    (∀ c ∈ q.slots.toList, c.Links q) ∧
    (∀ pos rest, ∃ s, Pool.read ⟨pos, q.encode ++ rest⟩ =
      .ok (s, ⟨pos + q.encode.length, rest⟩) ∧ s.slots = q.slots) ∧
    List.Forall₂ (fun a result => ∀ i, result = some i → i ≠ 0 ∧ a.FoundAt q i)
      additions results := by
  obtain ⟨pos', rest⟩ := r
  obtain ⟨-, hw, -⟩ := read_iff.1 hread
  obtain ⟨hq, hfound⟩ := addAll_leads hw.count_le short
  rw [h] at hq hfound
  have hsettled := hw.settle hq.grown (hq.isShort hw)
  refine ⟨fun i hi => hq.grown.extends.slot_eq hi, hq.new, hsettled.count_le, hsettled.links,
    fun pos rest => ?_, hfound.imp fun a result ha i hi => ⟨?_, ha i hi⟩⟩
  · have hback := hsettled.read_encode pos rest
    rw [encode_settle] at hback
    exact ⟨q.settle, hback, rfl⟩
  · obtain ⟨c, hc⟩ := ((ha i hi).mono (extends_settle q)).exists_constant
    exact hsettled.ne_zero hc

namespace Sample

def wide : Pool :=
  ⟨#[.unusable, .long 5, .unusable, .utf8 "A"], 4, [5, 0, 0, 0, 0, 0, 0, 0, 5, 1, 0, 1, 65]⟩

def additions : List Addition := [.classRef "A", .methodRef "A" "f" "()V", .string "f"]

def widened : Pool :=
  ⟨#[.unusable, .long 5, .unusable, .utf8 "A", .classRef 3, .utf8 "f", .utf8 "()V",
    .nameAndType 5 6, .methodRef 4 7, .string 5], 4, wide.raw⟩

end Sample

theorem addAll_keeps_valid_sample :
    Pool.read ⟨0, Sample.wide.encode⟩ = .ok (Sample.wide, ⟨15, []⟩) ∧
    (∀ a ∈ Sample.additions, a.IsShort) ∧
    addAll Sample.additions Sample.wide = ([some 4, some 8, some 9], Sample.widened) ∧
    ∃ s, Pool.read ⟨0, Sample.widened.encode ++ []⟩ =
      .ok (s, ⟨0 + Sample.widened.encode.length, []⟩) ∧ s.slots = Sample.widened.slots := by
  have hread : Pool.read ⟨0, Sample.wide.encode⟩ = .ok (Sample.wide, ⟨15, []⟩) := by
    decide +kernel
  have short : ∀ a ∈ Sample.additions, a.IsShort := by decide +kernel
  have h : addAll Sample.additions Sample.wide = ([some 4, some 8, some 9], Sample.widened) := by
    decide +kernel
  exact ⟨hread, short, h, (addAll_keeps_valid hread short h).2.2.2.2.1 0 []⟩

end Pool

end ClassWeaver
