import ClassWeaver.Proofs.Pool.GrownPool
import ClassWeaver.Proofs.Text.Truncation

namespace ClassWeaver

open Read

namespace Constant

variable {c c' : Constant} {b b' x y : Bytes}

lemma SpelledBy.unique (h : c.SpelledBy b) (h' : c'.SpelledBy b') (e : b ++ x = b' ++ y) :
    c = c' ∧ b = b' ∧ x = y := by
  have hread := h 0 0 x
  rw [e, h' 0 0 y] at hread
  obtain ⟨rfl, hrest⟩ := Prod.mk.inj (Except.ok.inj hread)
  obtain rfl : y = x := congrArg Reader.rest hrest
  exact ⟨rfl, List.append_cancel_right e, rfl⟩

lemma SpelledBy.isShort (h : c.SpelledBy b) (e : b ++ x = c.encode ++ y) : c.IsShort := by
  rintro text rfl
  by_contra hlong
  have hbytes : b ++ x = 1 :: (count16 (ModifiedUtf8.encode text).length ++
      (ModifiedUtf8.encode text ++ y)) := e.trans (congrArg (1 :: ·) (List.append_assoc ..))
  have hread := h 0 0 x
  rw [hbytes] at hread
  obtain ⟨tag, rest, htag, hread⟩ := u8_then_iff.1 hread
  cases htag
  obtain ⟨n, rest, hn, hread⟩ := u16_then_iff.1 hread
  obtain ⟨hcount, rfl⟩ := be16_append_inj hn
  obtain ⟨taken, more, hlen, htaken, hread⟩ := bytes_then_iff.1 hread
  have hsame : ModifiedUtf8.decode taken = text :=
    Constant.utf8.inj (Prod.mk.inj (Except.ok.inj hread)).1
  rw [← hcount, UInt16.toNat_ofNat'] at hlen
  have hcut : (ModifiedUtf8.encode text).take taken.length = taken := by
    have hle : taken.length ≤ (ModifiedUtf8.encode text).length := by omega
    calc (ModifiedUtf8.encode text).take taken.length
        = (ModifiedUtf8.encode text ++ y).take taken.length :=
          (List.take_append_of_le_length hle).symm
      _ = (taken ++ more).take taken.length := by rw [htaken]
      _ = taken := List.take_left
  rw [← hcut] at hsame
  exact ModifiedUtf8.decode_take_ne (by omega) hsame

end Constant

namespace Pool

variable {p q r : Pool} {c : Constant} {cs ds : List Constant} {bs bs' x y : Bytes}

lemma Spells.of_narrow (h : Spells (c :: cs) bs) (narrow : c.isWide = false) :
    ∃ b more, bs = b ++ more ∧ c.SpelledBy b ∧ Spells cs more := by
  cases h with
  | narrow _ hb h => exact ⟨_, _, rfl, hb, h⟩
  | wide hc _ _ =>
    rw [narrow] at hc
    cases hc

lemma Spells.of_wide (h : Spells (c :: .unusable :: cs) bs) (wide : c.isWide = true) :
    ∃ b more, bs = b ++ more ∧ c.SpelledBy b ∧ Spells cs more := by
  cases h with
  | narrow hc _ _ =>
    rw [wide] at hc
    cases hc
  | wide _ hb h => exact ⟨_, _, rfl, hb, h⟩

lemma Spells.split (h' : Spells cs bs') (h : Spells (cs ++ ds) bs) (e : bs ++ x = bs' ++ y) :
    ∃ more, bs = bs' ++ more ∧ Spells ds more := by
  induction h' generalizing bs with
  | nil => exact ⟨bs, rfl, h⟩
  | @narrow c b bs' cs hc hb _ ih =>
    obtain ⟨b', rest, rfl, hb', hrest⟩ := Spells.of_narrow h hc
    rw [List.append_assoc, List.append_assoc] at e
    obtain ⟨-, rfl, -⟩ := hb'.unique hb e
    obtain ⟨more, rfl, hmore⟩ := ih hrest (List.append_cancel_left e)
    exact ⟨more, (List.append_assoc ..).symm, hmore⟩
  | @wide c b bs' cs hc hb _ ih =>
    obtain ⟨b', rest, rfl, hb', hrest⟩ := Spells.of_wide h hc
    rw [List.append_assoc, List.append_assoc] at e
    obtain ⟨-, rfl, -⟩ := hb'.unique hb e
    obtain ⟨more, rfl, hmore⟩ := ih hrest (List.append_cancel_left e)
    exact ⟨more, (List.append_assoc ..).symm, hmore⟩

lemma Spells.isShort (h : Spells cs bs) (hcs : ∀ c ∈ cs, c.isWide = false ∧ c ≠ .unusable)
    (e : bs ++ x = cs.flatMap Constant.encode ++ y) : ∀ c ∈ cs, c.IsShort := by
  induction cs generalizing bs with
  | nil => exact List.forall_mem_nil _
  | cons c cs ih =>
    rw [List.forall_mem_cons] at hcs ⊢
    obtain ⟨b, more, rfl, hb, hmore⟩ := h.of_narrow hcs.1.1
    rw [List.flatMap_cons, List.append_assoc, List.append_assoc] at e
    have hshort := hb.isShort e
    obtain ⟨-, -, e⟩ := hb.unique (Constant.spelledBy_encode hcs.1.1 hcs.1.2 hshort) e
    exact ⟨hshort, ih hmore hcs.2 e⟩

theorem Whole.isShort (hp : p.Whole) (h : p.Grown q) (hr : r.Whole) (hslots : r.slots = q.slots)
    (e : r.encode ++ x = q.encode ++ y) : ∀ c ∈ q.appended, c.IsShort := by
  obtain ⟨cs, hcs, hall⟩ := h.exists_more
  obtain ⟨ds, hds, hsp⟩ := hp.spelled
  obtain ⟨all, hall', hsp'⟩ := hr.spelled
  have hsplit : all = ds ++ cs := by
    rw [hslots, hcs, hds, List.cons_append] at hall'
    exact (List.cons.inj hall').2.symm
  have happended := hp.appended_eq h hcs
  rw [hr.encode_eq, encode, happended, count, count, hslots, h.raw_eq.1] at e
  simp only [List.append_assoc] at e
  have e := List.append_cancel_left e
  rw [hsplit] at hsp'
  obtain ⟨more, hmore, hspells⟩ := hsp.split hsp' e
  rw [hmore, List.append_assoc] at e
  rw [happended]
  exact hspells.isShort (fun c hc => ⟨(hall c hc).1, (hall c hc).2.1⟩) (List.append_cancel_left e)

end Pool

end ClassWeaver
