import ClassWeaver.Proofs.ClassFile.RoundTrip

namespace ClassWeaver

open Read

namespace Read

variable {ε α : Type}

lemma Reads.cancel {item : ReadOr ε α} {fits : α → Prop} {enc : α → Bytes}
    (h : Reads item fits enc) {a b : α} (ha : fits a) (hb : fits b) {x y : Bytes}
    (he : enc a ++ x = enc b ++ y) : a = b ∧ x = y := by
  have hread := h.accepts ha 0 x
  rw [he, h.accepts hb 0 y] at hread
  cases hread
  exact ⟨rfl, rfl⟩

end Read

namespace Pool

variable {p q : Pool}

lemma Whole.cancel (hp : p.Whole) (hq : q.Whole) {x y : Bytes}
    (h : p.encode ++ x = q.encode ++ y) : p = q ∧ x = y := by
  have hread := hp.read_encode 0 x
  rw [h, hq.read_encode 0 y] at hread
  cases hread
  exact ⟨rfl, rfl⟩

end Pool

namespace ClassFile

variable {c d : ClassFile}

structure FitsInFront (c : ClassFile) : Prop where
  whole : c.pool.Whole
  interfaces : c.interfaces.length < 65536
  fields : AllFit (Field.Fits c.pool) c.fields
  methods : AllFit (Method.Fits c.pool) c.methods

lemma Fits.inFront (h : c.Fits) (hw : c.pool.Whole) : c.FitsInFront := by
  obtain ⟨pairs, hpairs, hinterfaces, -⟩ := h.interfaces
  refine ⟨hw, ?_, h.fields, h.methods⟩
  rw [hinterfaces, List.length_map]
  exact hpairs.1

/-- Two class files with the same bytes can only differ in their attributes. -/
lemma FitsInFront.cancel (hc : c.FitsInFront) (hd : d.FitsInFront) (h : c.encode = d.encode) :
    c.pool = d.pool ∧ c.fields = d.fields ∧ c.methods = d.methods := by
  have hhead : c.encodeHead.length = d.encodeHead.length := rfl
  obtain ⟨hpool, h⟩ := hc.whole.cancel hd.whole (List.append_inj h hhead).2
  simp only [encodeRelations, encodeFields, encodeMethods, List.append_assoc] at h
  have h := (List.append_inj h rfl).2
  have h := (List.append_inj h rfl).2
  have h := (List.append_inj h rfl).2
  have interfaces := (reads_u16 (ε := ClassFault) "interfaces").counted "interfaces"
  rw [← List.append_assoc, ← List.append_assoc (count16 d.interfaces.length)] at h
  obtain ⟨-, h⟩ := interfaces.cancel ⟨hc.interfaces, fun _ _ => trivial⟩
    ⟨hd.interfaces, fun _ _ => trivial⟩ h
  have fields := (Field.reads c.pool).counted "fields"
  rw [← List.append_assoc, ← List.append_assoc (count16 d.fields.length)] at h
  obtain ⟨hfields, h⟩ := fields.cancel hc.fields (hpool ▸ hd.fields) h
  have methods := (Method.reads c.pool).counted "methods"
  rw [← List.append_assoc, ← List.append_assoc (count16 d.methods.length)] at h
  exact ⟨hpool, hfields, (methods.cancel hc.methods (hpool ▸ hd.methods) h).1⟩

end ClassFile

end ClassWeaver
