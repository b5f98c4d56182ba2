import ClassWeaver.Proofs.Code.StackMapRoundTrip
import ClassWeaver.Proofs.Pool.OverlongTexts
import ClassWeaver.Proofs.Rewriting.ChangedClass
import ClassWeaver.Proofs.Rewriting.Overflow

/-! The counts and lengths of sixteen bits that are written for a class with its edits. A pool that is
full is a fault, and one attribute too many ends the run. Nothing keeps the lengths of texts and the
count of rules within their bounds, and the class reads back just when they are. -/

namespace ClassWeaver

open Read

def IsTold (n : Nat) : Prop := (UInt16.ofNat n).toNat = n

instance (n : Nat) : Decidable (IsTold n) := inferInstanceAs (Decidable (_ = _))

lemma isTold_iff {n : Nat} : IsTold n ↔ n ≤ 65535 := by
  rw [IsTold, UInt16.toNat_ofNat']
  omega

namespace ClassFile

variable {pool : Pool} {a : Attribute}

structure Tells (c : ClassFile) : Prop where
  texts : ∀ text, .utf8 text ∈ c.pool.appended → IsTold (ModifiedUtf8.encode text).length
  rules : IsTold c.appliedRules.length

def ReadsBack (c : ClassFile) : Prop :=
  ∃ d, parse c.encode = .ok d ∧ d.pool.slots = c.pool.slots ∧ d.attributes = c.attributes ∧
    d.appliedRules = c.appliedRules

lemma isTold_of_readBody {pos : Nat} {rules : List String}
    (h : a.readBody pos (readMarker pool) = .ok rules) : IsTold rules.length := by
  have hitem : Read.Yields (do Read.lift (pool.utf8 (← Read.u16 "marker attribute")))
      fun _ => True := fun _ _ _ _ => trivial
  obtain ⟨r, hr⟩ := runAt_eq_ok_iff.1 h
  exact isTold_iff.2 (Nat.le_of_lt_succ (hitem.counted _ _ _ _ hr).1)

lemma rules_of_last {bs : List (Nat × Attribute)} {pos : Nat}
    {annotations : List (List String)} {x : List String × List String}
    (hx : readClassAttributes pool (bs ++ [(pos, a)]) annotations [] = .ok x)
    (hbs : ∀ b ∈ bs, b.2.name ≠ markerName) (ha : a.name = markerName) :
    a.readBody pos (readMarker pool) = .ok x.2 := by
  induction bs generalizing annotations with
  | nil =>
    have hnone : ¬ Annotations.arePresent a.name = true := by
      rw [ha]
      decide
    rw [List.nil_append, readClassAttributes, if_neg hnone, if_pos ha] at hx
    split at hx
    · cases hx
    · next rules hrules =>
      cases hx
      simpa using hrules
  | cons b bs ih =>
    rw [List.forall_mem_cons] at hbs
    rw [List.cons_append, readClassAttributes] at hx
    split at hx
    · split at hx
      · cases hx
      · exact ih hx hbs.2
    · rw [if_neg hbs.1] at hx
      exact ih hx hbs.2

lemma Fits.isTold_rules {d : ClassFile} (h : d.Fits) {as : List Attribute}
    (hattributes : d.attributes = as.filter (·.name != markerName) ++ [a])
    (ha : a.name = markerName) : IsTold d.appliedRules.length := by
  have hcontent := h.content
  obtain ⟨bs, last, hsplit, hbs, hlast⟩ :=
    List.map_eq_append_iff.1 ((Attribute.place_map_snd 0 d.attributes).trans hattributes)
  obtain ⟨⟨pos, b⟩, tail, rfl, hb, htail⟩ := List.map_eq_cons_iff.1 hlast
  obtain rfl : b = a := hb
  obtain rfl : tail = [] := List.map_eq_nil_iff.1 htail
  rw [hsplit] at hcontent
  refine isTold_of_readBody (rules_of_last hcontent (fun c hc => ?_) ha)
  have hmem : c.2 ∈ as.filter (·.name != markerName) := hbs ▸ List.mem_map_of_mem hc
  simpa using (List.mem_filter.1 hmem).2

end ClassFile

variable {bytes : Bytes} {p : Plan} {file out : ClassFile}

lemma ClassFile.Tells.settles (h : out.Tells) (parsed : ClassFile.parse bytes = .ok file)
    (planned : Planned file p) (edited : p.hasEdits = true) (done : p.carryOut = .ok out)
    (codes : ∀ m ∈ out.methods, m.IsShort) : out.ReadsBack := by
  refine ⟨_, Plan.carryOut_settles parsed planned edited done ?_ (isTold_iff.1 h.rules) codes,
    rfl, rfl, rfl⟩
  rintro c hc text rfl
  exact isTold_iff.1 (h.texts text hc)

lemma Plan.carryOut_tells (parsed : ClassFile.parse bytes = .ok file)
    (planned : Planned file p) (edited : p.hasEdits = true) (done : p.carryOut = .ok out)
    (h : out.ReadsBack) : out.Tells := by
  obtain ⟨hw, fits, -⟩ := ClassFile.parse_iff.1 parsed
  obtain ⟨rfl, -⟩ := planned.spec
  obtain ⟨ms, marker, pool, grown, -, marks, -, rfl⟩ := carryOut_spec hw fits edited done
  obtain ⟨d, hparse, hslots, hattributes, hrules⟩ := h
  obtain ⟨hd, hfits, hbytes⟩ := ClassFile.parse_iff.1 hparse
  have hpools := (List.append_inj hbytes.symm (by
    simp only [ClassFile.encodeHead, List.length_append, length_be16, length_be32])).2
  have short := hw.isShort grown hd hslots hpools
  exact {
    texts := fun text hmem => isTold_iff.2 (short _ hmem text rfl)
    rules := hrules ▸ hfits.isTold_rules hattributes marks.name }

/-- The run ends where a number overflows, which a 65536th attribute does. Otherwise a class never has
more constants or attributes after its edits than can be told, and its last attribute is the only
marker. It reads back just when the lengths of its new texts and the count of its rules can be told;
they are written either way. -/
theorem Plan.carryOut_readsBack_iff (parsed : ClassFile.parse bytes = .ok file)
    (planned : Planned file p) (edited : p.hasEdits = true) :
    (p.carryOut = .error .overflow ↔ p.Overflows) ∧
      ∀ out, p.carryOut = .ok out →
        IsTold out.pool.count ∧ IsTold out.attributes.length ∧
        (∃ (marker : Attribute) (ids : List UInt16),
          out.attributes = file.attributes.filter (·.name != ClassFile.markerName) ++ [marker] ∧
            marker.body = count16 ids.length ++ ids.flatMap be16 ∧
              ids.length = out.appliedRules.length) ∧
        out.appliedRules = file.appliedRules ++ p.newlyApplied ∧
        (out.ReadsBack → out.Tells) ∧
        ((∀ m ∈ out.methods, m.IsShort) → out.Tells → out.ReadsBack) := by
  obtain ⟨hw, fits, -⟩ := ClassFile.parse_iff.1 parsed
  obtain ⟨rfl, -⟩ := planned.spec
  refine ⟨carryOut_eq_overflow_iff fits.attributes.1, fun out done => ?_⟩
  have back := carryOut_tells parsed planned edited done
  have forth := fun codes (h : out.Tells) => h.settles parsed planned edited done codes
  obtain ⟨ms, marker, pool, grown, -, marks, room, rfl⟩ := carryOut_spec hw fits edited done
  obtain ⟨ids, hbody, hids⟩ := marks.body
  refine ⟨isTold_iff.2 (grown.count_le hw.count_le), isTold_iff.2 ?_,
    ⟨marker, ids, rfl, hbody, hids.length_eq.symm⟩, rfl, back, forth⟩
  rw [List.length_append, List.length_singleton]
  exact room

theorem Plan.carryOut_readsBack_iff_sample :
    Sample.changed.ReadsBack ∧ IsTold Sample.changed.attributes.length ∧
      Sample.changed.appliedRules = ["in", "out"] := by
  have codes := Plan.carryOut_isShort Sample.parse_file Sample.planned rfl Sample.carryOut_plan
    (by decide +kernel)
  have texts : ∀ c ∈ Sample.changed.pool.appended, c.IsShort := by decide +kernel
  have tells : Sample.changed.Tells := {
    texts := fun text hmem => isTold_iff.2 (texts _ hmem text rfl)
    rules := by decide }
  obtain ⟨-, attributes, -, rules, -, reads⟩ :=
    (Plan.carryOut_readsBack_iff Sample.parse_file Sample.planned rfl).2 _ Sample.carryOut_plan
  exact ⟨reads codes tells, attributes, rules⟩

theorem Plan.readsBack_iff_of_length_le (parsed : ClassFile.parse bytes = .ok file)
    (planned : Planned file p) (edited : p.hasEdits = true) (done : p.carryOut = .ok out)
    (small : bytes.length ≤ 1073741824) : out.ReadsBack ↔ out.Tells := by
  have codes := carryOut_isShort parsed planned edited done small
  exact ⟨carryOut_tells parsed planned edited done,
    fun h => h.settles parsed planned edited done codes⟩

end ClassWeaver
