import ClassWeaver.Proofs.Text.Json

namespace ClassWeaver

lemma Json.draftItems_map {α : Type} (f : α → Json) (as : List α) :
    Json.draftItems (as.map f) = as.map fun a => (f a).draft := by
  induction as with
  | nil => rfl
  | cons a as ih => rw [List.map_cons, List.map_cons, Json.draftItems, ih]

lemma Json.fitsItems_map {α : Type} {f : α → Json} {depth : Nat} {as : List α}
    (h : ∀ a ∈ as, (f a).Fits depth) : Json.FitsItems depth (as.map f) := by
  induction as with
  | nil => simp [Json.FitsItems]
  | cons a as ih =>
    rw [List.forall_mem_cons] at h
    exact ⟨h.1, ih h.2⟩

lemma Json.fits_ofOption {α : Type} {f : α → Json} {depth : Nat} (hf : ∀ a, (f a).Fits depth)
    (a : Option α) : (Json.ofOption f a).Fits depth := by
  cases a with
  | none => simp [Json.ofOption, Json.Fits]
  | some a => exact hf a

namespace Decode

lemma list_draft {α β : Type} {f : β → Json} {g : β → α} {item : Decode α} {bs : List β}
    (h : ∀ b ∈ bs, item (f b).draft = .ok (g b)) :
    list item (Json.list (bs.map f)).draft = .ok (bs.map g) := by
  have hmap : (bs.map fun b => (f b).draft).mapM item = .ok (bs.map g) := by
    rw [mapM_eq_ok_iff, List.forall₂_map_left_iff, List.forall₂_map_right_iff, List.forall₂_same]
    exact h
  rw [Json.draft, Json.draftItems_map, list, hmap]
  rfl

lemma list_strings (texts : List String) :
    list string (Json.strings texts).draft = .ok texts := by
  have h : list string (Json.list (texts.map Json.string)).draft = .ok (texts.map id) :=
    list_draft fun _ _ => rfl
  rwa [List.map_id] at h

def Part.Fits (p : Part) (m : String × Draft) : Prop := p.name = m.1 ∧ p.check m.2 = .ok ()

variable {parts : List Part} {ms : List (String × Draft)}

lemma map_fst_of_fits (h : List.Forall₂ Part.Fits parts ms) :
    ms.map Prod.fst = parts.map Part.name := by
  induction h with
  | nil => rfl
  | cons hm _ ih => rw [List.map_cons, List.map_cons, ih, hm.1]

lemma find?_of_fits (h : List.Forall₂ Part.Fits parts ms) (hnodup : (parts.map Part.name).Nodup)
    {m : String × Draft} (hm : m ∈ ms) :
    ∃ p, parts.find? (·.name == m.1) = some p ∧ p.check m.2 = .ok () := by
  induction h with
  | nil => cases hm
  | @cons p m' parts ms hfit hrest ih =>
    rw [List.map_cons, List.nodup_cons] at hnodup
    rw [List.find?_cons]
    rcases List.mem_cons.1 hm with rfl | hm
    · exact ⟨p, by simp [hfit.1], hfit.2⟩
    · have hne : p.name ≠ m.1 := by
        intro heq
        refine hnodup.1 ?_
        rw [heq, ← map_fst_of_fits hrest]
        exact List.mem_map_of_mem hm
      rw [show (p.name == m.1) = false from beq_false_of_ne hne]
      exact ih hnodup.2 hm

lemma members_eq {done : Fields}
    (hknown : ∀ m ∈ ms, ∃ p, parts.find? (·.name == m.1) = some p ∧ p.check m.2 = .ok ())
    (hnodup : (ms.map Prod.fst).Nodup) (hdone : ∀ m ∈ ms, done.lookup m.1 = none) :
    members parts ms done = .ok (ms.reverse ++ done) := by
  induction ms generalizing done with
  | nil => rfl
  | cons m ms ih =>
    obtain ⟨name, d⟩ := m
    rw [List.forall_mem_cons] at hknown hdone
    obtain ⟨⟨part, hfind, hcheck⟩, hknown⟩ := hknown
    rw [List.map_cons, List.nodup_cons] at hnodup
    have hrest : ∀ m ∈ ms, ((name, d) :: done).lookup m.1 = none := by
      intro m hm
      have hne : m.1 ≠ name := fun h => hnodup.1 (h ▸ List.mem_map.2 ⟨m, hm, rfl⟩)
      rw [List.lookup_cons, show (m.1 == name) = false from beq_false_of_ne hne]
      exact hdone.2 m hm
    rw [members, hfind]
    dsimp only
    rw [hdone.1, hcheck]
    dsimp only
    rw [if_neg (by simp), ih hknown hnodup.2 hrest]
    simp

lemma fields_record (h : List.Forall₂ Part.Fits parts ms) (hnodup : (parts.map Part.name).Nodup) :
    fields parts (.record ms .closed) = .ok ms.reverse := by
  have hnames := map_fst_of_fits h
  have hmembers : members parts ms [] = .ok (ms.reverse ++ []) :=
    members_eq (fun m hm => find?_of_fits h hnodup hm) (hnames ▸ hnodup) fun _ _ => rfl
  rw [List.append_nil] at hmembers
  have hhas : hasAll parts ms.reverse = .ok ms.reverse := by
    rw [hasAll, if_pos]
    rw [List.all_eq_true]
    intro part hpart
    have hname : part.name ∈ ms.map Prod.fst := hnames ▸ List.mem_map_of_mem hpart
    obtain ⟨m, hm, hname⟩ := List.mem_map.1 hname
    have hlookup : (ms.reverse.lookup part.name).isSome = true := by
      rw [List.lookup_isSome_iff]
      exact ⟨m, List.mem_reverse.2 hm, by simp [hname]⟩
    rw [hlookup, Bool.or_true]
  rw [fields, hmembers]
  exact hhas

lemma openFields_record (h : List.Forall₂ Part.Fits parts ms)
    (hnodup : (parts.map Part.name).Nodup) :
    openFields parts (.record ms .closed) = .ok ms.reverse := by
  have hknown : ∀ ms', ms' ⊆ ms → known parts ms' = .ok ms' := by
    intro ms'
    induction ms' with
    | nil => exact fun _ => rfl
    | cons m ms' ih =>
      intro hsub
      obtain ⟨name, d⟩ := m
      obtain ⟨p, hfind, -⟩ := find?_of_fits h hnodup (hsub List.mem_cons_self)
      have hany : parts.any (·.name == name) = true := by
        rw [List.any_eq_true]
        exact ⟨p, List.mem_of_find?_eq_some hfind, by simpa using List.find?_some hfind⟩
      rw [known, if_pos hany, ih fun m hm => hsub (List.mem_cons_of_mem _ hm)]
      rfl
  rw [openFields, hknown ms (List.Subset.refl _)]
  exact fields_record h hnodup

lemma Fields.get_eq {α : Type} {fields : Fields} (name : String) (item : Decode α) {d : Draft}
    {a : α} (hname : fields.lookup name = some d) (hd : item d = .ok a) :
    fields.get name item = .ok a := by
  rw [Fields.get, hname]
  exact hd

lemma Fields.getD_eq {α : Type} {fields : Fields} (name : String) (item : Decode α) {d : Draft}
    {a absent : α} (hname : fields.lookup name = some d) (hd : item d = .ok a) :
    fields.getD name item absent = .ok a := by
  rw [Fields.getD, hname]
  exact hd

lemma Part.fits_of_ok {α : Type} (name : String) (required : Bool) {item : Decode α} {d : Draft}
    {a : α} (h : item d = .ok a) : Part.Fits (part name required item) (name, d) :=
  ⟨rfl, by simp [part, h, Except.map]⟩

lemma Part.fits_string (name : String) (required : Bool) (text : String) :
    Part.Fits (part name required string) (name, .string text) := fits_of_ok name required rfl

end Decode

end ClassWeaver
