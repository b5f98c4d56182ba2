import Mathlib.Data.List.Chain
import ClassWeaver.Proofs.Code.Woven
import ClassWeaver.Proofs.ClassFile.RoundTrip

/-! Relocation keeps the flow of control. A path of the new code goes through the images of a path
of the old one, with inserted instructions in between, and every path of the old code comes from
such a path. -/

namespace ClassWeaver

open Instruction

namespace Instruction

def Follows (i j : Instruction) : Prop :=
  (j.offset : Int) ∈ i.targets ∨ i.leaves = false ∧ j.offset = i.stop

structure IsPath (is path : List Instruction) : Prop where
  mem : ∀ i ∈ path, i ∈ is
  first : ∀ i ∈ path.head?, i.offset = 0
  steps : path.IsChain Follows

lemma Alike.leaves_eq {i j : Instruction} (h : i.Alike j) : i.leaves = j.leaves := by
  rw [leaves, leaves, endsFlow, endsFlow, h.1, h.2.words.1]

lemma Tiles.nodup {pos : Nat} {is : List Instruction} (h : Tiles pos is) : is.Nodup := by
  induction is generalizing pos with
  | nil => exact List.nodup_nil
  | cons i is ih =>
    obtain ⟨rfl, -, ht⟩ := h
    refine List.nodup_cons.2 ⟨fun hi => ?_, ih ht⟩
    have hle := ht.le_offset hi
    have hpos := i.size_pos
    rw [stop] at hle
    omega

lemma straight_of_mem_layAt {pos : Nat} {is : List Instruction} (h : ∀ i ∈ is, i.IsStraight)
    {i : Instruction} (hi : i ∈ layAt pos is) : i.IsStraight := by
  obtain ⟨j, hj, rfl⟩ := List.mem_map.1 hi
  exact h j hj

lemma IsStraight.follows {i j : Instruction} (h : i.IsStraight) :
    i.Follows j ↔ j.offset = i.stop := by
  rw [Follows, targets, h.1, h.2]
  simp

end Instruction

namespace Placement

variable {m : Placement} {prologue epilogue is : List Instruction}

/-- How a woven code relates to the instructions it was woven from. -/
structure Weaves (m : Placement) (prologue epilogue is : List Instruction) : Prop where
  alike : ∀ i ∈ is, i.Alike (m.image i)
  start_zero : m.start 0 = total size prologue
  offset : ∀ i ∈ is,
    (m.image i).offset = m.start i.offset + if i.isReturn then total size epilogue else 0
  targets : ∀ i ∈ is, List.Forall₂
    (fun old new : Int => ∃ j ∈ is, (j.offset : Int) = old ∧ (m.start j.offset : Int) = new)
    i.targets (m.image i).targets

def ahead (m : Placement) (epilogue : List Instruction) (i : Instruction) : List Instruction :=
  if i.isReturn then layAt (m.start i.offset) epilogue else []

lemma woven_eq (i : Instruction) : m.woven epilogue i = m.ahead epilogue i ++ [m.image i] := rfl

lemma weave_split {as bs : List Instruction} {i : Instruction} :
    m.weave prologue epilogue (as ++ i :: bs) =
      prologue ++ as.flatMap (m.woven epilogue) ++
        (m.ahead epilogue i ++ m.image i :: bs.flatMap (m.woven epilogue)) := by
  simp [weave, woven_eq]

def LeadsUpTo (m : Placement) (is code : List Instruction) (i x : Instruction) : Prop :=
  ∃ before run after rest, code = before ++ (run ++ m.image i :: after) ∧
    run ++ [m.image i] = x :: rest ∧ ∀ u ∈ run, u.IsStraight ∧ u ∉ is.map m.image

lemma LeadsUpTo.mem {code : List Instruction} {i x : Instruction} (h : m.LeadsUpTo is code i x) :
    x ∈ code := by
  obtain ⟨before, run, after, rest, rfl, hx, -⟩ := h
  have hmem : x ∈ run ++ [m.image i] := by simp [hx]
  rcases List.mem_append.1 hmem with hr | hl
  · simp [hr]
  · simp [List.mem_singleton.1 hl]

lemma leadsUpTo_of_split (as bs : List Instruction) {before run after code : List Instruction}
    {i : Instruction} (hcode : code = before ++ (run ++ m.image i :: after)) (hn : code.Nodup)
    (has : ∀ a ∈ as, m.image a ∈ before) (hbs : ∀ b ∈ bs, m.image b ∈ after)
    (hs : ∀ u ∈ run, u.IsStraight) :
    ∃ x, (∃ rest, run ++ [m.image i] = x :: rest) ∧ m.LeadsUpTo (as ++ i :: bs) code i x := by
  subst hcode
  obtain ⟨x, rest, hx⟩ := List.exists_cons_of_ne_nil (List.concat_ne_nil (m.image i) run)
  refine ⟨x, ⟨rest, hx⟩, before, run, after, rest, rfl, hx, fun u hu => ⟨hs u hu, ?_⟩⟩
  obtain ⟨-, hright, hdis⟩ := List.nodup_append.1 hn
  obtain ⟨-, -, hdis'⟩ := List.nodup_append.1 hright
  rintro himage
  obtain ⟨a, ha, rfl⟩ := List.mem_map.1 himage
  rcases List.mem_append.1 ha with ha | ha
  · exact hdis _ (has a ha) _ (List.mem_append_left _ hu) rfl
  · rcases List.mem_cons.1 ha with rfl | hb
    · exact hdis' _ hu _ List.mem_cons_self rfl
    · exact hdis' _ hu _ (List.mem_cons_of_mem _ (hbs a hb)) rfl

lemma image_mem_flatMap {as : List Instruction} {a : Instruction} (ha : a ∈ as) :
    m.image a ∈ as.flatMap (m.woven epilogue) :=
  List.mem_flatMap.2 ⟨a, ha, by simp [woven_eq]⟩

/-- What the simulation needs besides: both codes are tilings, and what is inserted is straight. -/
structure IsWoven (m : Placement) (prologue epilogue is : List Instruction) : Prop extends
    Weaves m prologue epilogue is where
  old : Tiles 0 is
  new : Tiles 0 (m.weave prologue epilogue is)
  straight_prologue : ∀ i ∈ prologue, i.IsStraight
  straight_epilogue : ∀ i ∈ epilogue, i.IsStraight
  tiles_epilogue : Tiles 0 epilogue

variable {i j x y : Instruction}

lemma IsWoven.straight_ahead (h : m.IsWoven prologue epilogue is) (i : Instruction) :
    ∀ u ∈ m.ahead epilogue i, u.IsStraight := by
  intro u hu
  unfold ahead at hu
  split at hu
  · exact straight_of_mem_layAt h.straight_epilogue hu
  · cases hu

lemma IsWoven.offset_of_block (h : m.IsWoven prologue epilogue is) (hi : i ∈ is)
    {rest : List Instruction} (hx : m.ahead epilogue i ++ [m.image i] = x :: rest) :
    x.offset = m.start i.offset := by
  have ho := h.offset i hi
  unfold ahead at hx
  split at hx
  · next hr =>
    rw [if_pos hr] at ho
    cases epilogue with
    | nil =>
      cases hx
      exact ho
    | cons e epilogue =>
      cases hx
      exact congrArg (m.start i.offset + ·) h.tiles_epilogue.1
  · next hr =>
    rw [if_neg hr] at ho
    cases hx
    exact ho

lemma IsWoven.exists_block (h : m.IsWoven prologue epilogue is) {as bs : List Instruction}
    (he : is = as ++ i :: bs) :
    ∃ x, (∃ rest, m.ahead epilogue i ++ [m.image i] = x :: rest) ∧
      m.LeadsUpTo is (m.weave prologue epilogue is) i x ∧ x.offset = m.start i.offset := by
  have hi : i ∈ is := by rw [he]; simp
  obtain ⟨x, ⟨rest, hx⟩, hl⟩ := leadsUpTo_of_split as bs (he ▸ weave_split) h.new.nodup
    (fun a ha => List.mem_append_right _ (image_mem_flatMap ha))
    (fun b hb => image_mem_flatMap hb) (h.straight_ahead i)
  exact ⟨x, ⟨rest, hx⟩, he ▸ hl, h.offset_of_block hi hx⟩

lemma IsWoven.exists_start (h : m.IsWoven prologue epilogue is) (hi : i ∈ is) :
    ∃ x, m.LeadsUpTo is (m.weave prologue epilogue is) i x ∧ x.offset = m.start i.offset := by
  obtain ⟨as, bs, he⟩ := List.append_of_mem hi
  obtain ⟨x, -, hl, ho⟩ := h.exists_block he
  exact ⟨x, hl, ho⟩

lemma IsWoven.exists_first (h : m.IsWoven prologue epilogue is) (hne : is ≠ []) :
    ∃ i ∈ is, i.offset = 0 ∧
      ∃ x, m.LeadsUpTo is (m.weave prologue epilogue is) i x ∧ x.offset = 0 := by
  obtain ⟨i, bs, rfl⟩ := List.exists_cons_of_ne_nil hne
  have hcode : m.weave prologue epilogue (i :: bs) =
      [] ++ ((prologue ++ m.ahead epilogue i) ++ m.image i :: bs.flatMap (m.woven epilogue)) := by
    simp [weave, woven_eq]
  obtain ⟨x, ⟨rest, hx⟩, hl⟩ := leadsUpTo_of_split [] bs hcode h.new.nodup
    (fun b hb => absurd hb List.not_mem_nil) (fun b hb => image_mem_flatMap hb) (by
      intro u hu
      rcases List.mem_append.1 hu with hu | hu
      · exact h.straight_prologue u hu
      · exact h.straight_ahead i u hu)
  have hnew := h.new
  rw [hcode, List.nil_append, List.append_cons, hx] at hnew
  exact ⟨i, List.mem_cons_self, h.old.1, x, hl, hnew.1⟩

lemma IsWoven.inserted_step (h : m.IsWoven prologue epilogue is)
    (hl : m.LeadsUpTo is (m.weave prologue epilogue is) i x) (hx : x ≠ m.image i) :
    x ∉ is.map m.image ∧
      ∃ y, x.Follows y ∧ m.LeadsUpTo is (m.weave prologue epilogue is) i y ∧
        ∀ z ∈ m.weave prologue epilogue is, x.Follows z → z = y := by
  obtain ⟨before, run, after, rest, hcode, hrun, hs⟩ := hl
  cases run with
  | nil =>
    cases hrun
    exact absurd rfl hx
  | cons u run =>
    obtain ⟨rfl, hrest⟩ := List.cons.inj hrun
    obtain ⟨hstraight, himage⟩ := hs u List.mem_cons_self
    obtain ⟨y, rest', hy⟩ := List.exists_cons_of_ne_nil (List.concat_ne_nil (m.image i) run)
    have hcode' : m.weave prologue epilogue is = before ++ u :: y :: (rest' ++ after) := by
      rw [hcode, List.cons_append, ← List.cons_append (a := y), ← hy]
      simp
    have hnew := h.new
    rw [hcode'] at hnew
    refine ⟨himage, y, ?_, ⟨before ++ [u], run, after, rest', by rw [hcode]; simp, hy,
      fun v hv => hs v (List.mem_cons_of_mem _ hv)⟩, ?_⟩
    · exact hstraight.follows.2 hnew.offset_of_append_cons
    · intro z hz hf
      rw [hcode'] at hz
      obtain ⟨rest'', he⟩ := hnew.next_eq hz (hstraight.follows.1 hf)
      exact (List.cons.inj he).1.symm

lemma IsWoven.image_step (h : m.IsWoven prologue epilogue is) (hi : i ∈ is)
    (hy : y ∈ m.weave prologue epilogue is) (hf : (m.image i).Follows y) :
    ∃ j ∈ is, i.Follows j ∧ m.LeadsUpTo is (m.weave prologue epilogue is) j y := by
  rcases hf with htarget | ⟨hleaves, hnext⟩
  · obtain ⟨old, hold, j, hj, hjo, hjs⟩ := exists_of_forall₂ (h.targets i hi).flip htarget
    obtain ⟨x, hl, hx⟩ := h.exists_start hj
    have hxy : x.offset = y.offset := by omega
    obtain rfl := h.new.eq_of_offset_eq hl.mem hy hxy
    exact ⟨j, hj, .inl (hjo ▸ hold), hl⟩
  · obtain ⟨as, bs, he⟩ := List.append_of_mem hi
    have hcode : m.weave prologue epilogue is =
        (prologue ++ as.flatMap (m.woven epilogue) ++ m.ahead epilogue i) ++
          m.image i :: bs.flatMap (m.woven epilogue) := by
      rw [he, weave_split]
      simp
    have hnew := h.new
    rw [hcode] at hnew hy
    obtain ⟨rest, hrest⟩ := hnew.next_eq hy hnext
    cases bs with
    | nil => cases hrest
    | cons j bs =>
      have he' : is = (as ++ [i]) ++ j :: bs := by rw [he, List.append_cons]
      obtain ⟨x, ⟨rest', hx⟩, hl, -⟩ := h.exists_block he'
      rw [List.flatMap_cons, woven_eq, hx, List.cons_append] at hrest
      obtain ⟨rfl, -⟩ := List.cons.inj hrest
      have hold := h.old
      rw [he] at hold
      exact ⟨j, by rw [he]; simp, .inr ⟨(h.alike i hi).leaves_eq.trans hleaves,
        hold.offset_of_append_cons⟩, hl⟩

lemma IsWoven.exists_image_step (h : m.IsWoven prologue epilogue is) (hi : i ∈ is) (hj : j ∈ is)
    (hf : i.Follows j) :
    ∃ y, (m.image i).Follows y ∧ m.LeadsUpTo is (m.weave prologue epilogue is) j y := by
  rcases hf with htarget | ⟨hleaves, hnext⟩
  · obtain ⟨new, hnew, k, hk, hko, hks⟩ := exists_of_forall₂ (h.targets i hi) htarget
    obtain rfl := h.old.eq_of_offset_eq hk hj (by omega)
    obtain ⟨y, hl, hy⟩ := h.exists_start hk
    refine ⟨y, .inl ?_, hl⟩
    rwa [hy, hks]
  · obtain ⟨as, bs, he⟩ := List.append_of_mem hi
    have hold := h.old
    rw [he] at hold hj
    obtain ⟨bs, rfl⟩ := hold.next_eq hj hnext
    have he' : is = (as ++ [i]) ++ j :: bs := by rw [he, List.append_cons]
    obtain ⟨y, ⟨rest, hy⟩, hl, -⟩ := h.exists_block he'
    have hcode : m.weave prologue epilogue is =
        (prologue ++ as.flatMap (m.woven epilogue) ++ m.ahead epilogue i) ++
          m.image i :: y :: (rest ++ bs.flatMap (m.woven epilogue)) := by
      rw [he, weave_split, List.flatMap_cons, woven_eq, hy]
      simp
    have hnew := h.new
    rw [hcode] at hnew
    exact ⟨y, .inr ⟨(h.alike i hi).leaves_eq.symm.trans hleaves, hnew.offset_of_append_cons⟩, hl⟩

lemma IsWoven.exists_old_path (h : m.IsWoven prologue epilogue is) {path : List Instruction}
    (hi : i ∈ is) (hl : m.LeadsUpTo is (m.weave prologue epilogue is) i x)
    (hmem : ∀ y ∈ path, y ∈ m.weave prologue epilogue is) (hc : (x :: path).IsChain Follows) :
    ∃ old : List Instruction, (∀ j ∈ old, j ∈ is) ∧ (∀ j ∈ old.head?, j = i) ∧ old.IsChain Follows ∧
      (x :: path).filter (· ∈ is.map m.image) = old.map m.image := by
  -- along the path, the image of `i` is the next image that is met
  induction path generalizing i x with
  | nil =>
    by_cases hx : x = m.image i
    · subst hx
      refine ⟨[i], by simpa using hi, by simp, .singleton i, ?_⟩
      rw [List.filter_cons_of_pos (by simpa using List.mem_map_of_mem hi)]
      rfl
    · have hnot := (h.inserted_step hl hx).1
      exact ⟨[], nofun, nofun, .nil, List.filter_cons_of_neg (by simpa using hnot)⟩
  | cons y path ih =>
    obtain ⟨hf, hrest⟩ := List.isChain_cons_cons.1 hc
    have hy := hmem y List.mem_cons_self
    have hmem' := fun z hz => hmem z (List.mem_cons_of_mem y hz)
    by_cases hx : x = m.image i
    · subst hx
      obtain ⟨j, hj, hij, hlj⟩ := h.image_step hi hy hf
      obtain ⟨old, ho, hhead, hchain, hfilter⟩ := ih hj hlj hmem' hrest
      refine ⟨i :: old, ?_, by simp, List.isChain_cons.2 ⟨?_, hchain⟩, ?_⟩
      · simpa using ⟨hi, ho⟩
      · intro k hk
        rwa [hhead k hk]
      · rw [List.filter_cons_of_pos (by simpa using List.mem_map_of_mem hi), hfilter,
          List.map_cons]
    · obtain ⟨hnot, z, -, hlz, honly⟩ := h.inserted_step hl hx
      obtain rfl := honly y hy hf
      obtain ⟨old, ho, hhead, hchain, hfilter⟩ := ih hi hlz hmem' hrest
      exact ⟨old, ho, hhead, hchain, by
        rw [List.filter_cons_of_neg (by simpa using hnot), hfilter]⟩

lemma IsWoven.exists_run (h : m.IsWoven prologue epilogue is)
    (hl : m.LeadsUpTo is (m.weave prologue epilogue is) i x) :
    ∃ run : List Instruction, (∀ y ∈ (run ++ [m.image i]).head?, y = x) ∧
      (run ++ [m.image i]).IsChain Follows ∧ (∀ y ∈ run, y ∈ m.weave prologue epilogue is) ∧
      ∀ y ∈ run, y ∉ is.map m.image := by
  obtain ⟨before, run, after, rest, hcode, hx, hs⟩ := hl
  refine ⟨run, by simp [hx], ?_, fun y hy => by rw [hcode]; simp [hy], fun y hy => (hs y hy).2⟩
  have hnew := h.new
  rw [hcode] at hnew
  clear hcode hx
  -- what is passed joins the part in front
  induction run generalizing before with
  | nil => exact .singleton _
  | cons u run ih =>
    have hrest := ih (before ++ [u]) (fun v hv => hs v (List.mem_cons_of_mem u hv))
      (by simpa using hnew)
    refine List.isChain_cons.2 ⟨fun y hy => ?_, hrest⟩
    obtain ⟨rest, hrun⟩ := List.head?_eq_some_iff.1 hy
    have hrun' : run ++ [m.image i] = y :: rest := hrun
    have he : before ++ (u :: run ++ m.image i :: after) = before ++ u :: y :: (rest ++ after) := by
      rw [← List.cons_append (a := y), ← hrun']
      simp
    rw [he] at hnew
    exact (hs u List.mem_cons_self).1.follows.2 hnew.offset_of_append_cons

lemma IsWoven.exists_new_path (h : m.IsWoven prologue epilogue is) {old : List Instruction}
    (hl : m.LeadsUpTo is (m.weave prologue epilogue is) i x) (hmem : ∀ j ∈ i :: old, j ∈ is)
    (hc : (i :: old).IsChain Follows) :
    ∃ path : List Instruction, (∀ y ∈ path, y ∈ m.weave prologue epilogue is) ∧
      (∀ y ∈ path.head?, y = x) ∧ path.IsChain Follows ∧
      path.filter (· ∈ is.map m.image) = (i :: old).map m.image := by
  -- each old step becomes the run up to the image and the step to the next block
  induction old generalizing i x with
  | nil =>
    obtain ⟨run, hhead, hchain, hrun, hnot⟩ := h.exists_run hl
    have hi := hmem i List.mem_cons_self
    have himage : m.image i ∈ is.map m.image := List.mem_map_of_mem hi
    refine ⟨run ++ [m.image i], ?_, hhead, hchain, ?_⟩
    · intro y hy
      rcases List.mem_append.1 hy with hy | hy
      · exact hrun y hy
      · rw [List.mem_singleton.1 hy]
        exact List.mem_append_right _ (image_mem_flatMap hi)
    · rw [List.filter_append, List.filter_eq_nil_iff.2 (by simpa using hnot),
        List.filter_cons_of_pos (by simpa using himage)]
      rfl
  | cons j old ih =>
    obtain ⟨hf, hsteps⟩ := List.isChain_cons_cons.1 hc
    obtain ⟨run, hhead, hchain, hrun, hnot⟩ := h.exists_run hl
    have hi := hmem i List.mem_cons_self
    have himage : m.image i ∈ is.map m.image := List.mem_map_of_mem hi
    have hrest : ∀ k ∈ j :: old, k ∈ is := fun k hk => hmem k (List.mem_cons_of_mem i hk)
    obtain ⟨y, hfy, hly⟩ := h.exists_image_step hi (hrest j List.mem_cons_self) hf
    obtain ⟨path, hpath, hhead', hchain', hfilter⟩ := ih hly hrest hsteps
    refine ⟨run ++ m.image i :: path, ?_, ?_, ?_, ?_⟩
    · intro z hz
      rcases List.mem_append.1 hz with hz | hz
      · exact hrun z hz
      · rcases List.mem_cons.1 hz with rfl | hz
        · exact List.mem_append_right _ (image_mem_flatMap hi)
        · exact hpath z hz
    · intro z hz
      apply hhead z
      cases run with
      | nil => exact hz
      | cons u run => exact hz
    · refine List.isChain_split.2 ⟨hchain, List.isChain_cons.2 ⟨fun z hz => ?_, hchain'⟩⟩
      rwa [hhead' z hz]
    · rw [List.filter_append, List.filter_eq_nil_iff.2 (by simpa using hnot),
        List.filter_cons_of_pos (by simpa using himage), hfilter]
      rfl

end Placement

namespace Relocates

variable {pool : Pool} {code : Code} {ins : Insertion} {body : Body}
  {placed : List (Instruction × Place)} {stop : Nat} {prologue epilogue : List Instruction}

lemma exists_target (h : Relocates pool code ins body placed stop) {i : Instruction} {pos : Nat}
    {old new : Int} (hl : Relocation.Leads (Placement.of placed stop) i pos old new) :
    ∃ j ∈ placed.map Prod.fst, (j.offset : Int) = i.offset + old ∧
      ((Placement.of placed stop).start j.offset : Int) = pos + new := by
  obtain ⟨block, hb, he⟩ := hl
  unfold Placement.branch at hb
  split at hb
  · cases hb
  · next hin =>
    split at hb
    · next place hp =>
      cases hb
      rcases (Placement.place?_eq_some_iff h.tiles).1 hp with ⟨j, hj, ho⟩ | ⟨hend, -⟩
      · refine ⟨j, List.mem_map_of_mem hj, by omega, ?_⟩
        rw [h.start_eq hj, he]
      · rw [Placement.size_of] at hin
        omega
    · cases hb

lemma placed_ne_nil (h : Relocates pool code ins body placed stop) (hne : code.bytes ≠ []) :
    placed ≠ [] := by
  rintro rfl
  exact hne (decode_eq_ok_iff.1 h.decoded).2

lemma isWoven (h : Relocates pool code ins body placed stop) (hne : code.bytes ≠ [])
    (hp : decode ins.prologue = .ok prologue) (he : decode ins.epilogue = .ok epilogue)
    (sp : ∀ i ∈ prologue, i.IsStraight) (se : ∀ i ∈ epilogue, i.IsStraight) :
    (Placement.of placed stop).IsWoven prologue epilogue (placed.map Prod.fst) := by
  have hd := (decode_eq_ok_iff.1 (h.decode_weave hne hp he fun i hi => (se i hi).1)).1
  obtain ⟨-, be⟩ := decode_eq_ok_iff.1 he
  obtain ⟨-, bp⟩ := decode_eq_ok_iff.1 hp
  refine ⟨⟨?_, ?_, ?_, ?_⟩, h.tiles, hd, sp, se, (decode_eq_ok_iff.1 he).1⟩
  · intro i hi
    obtain ⟨p, hip⟩ := h.exists_place hi
    exact (h.image_fits hip).2.1
  · obtain ⟨⟨i, p⟩, tail, rfl⟩ := List.exists_cons_of_ne_nil (h.placed_ne_nil hne)
    have hstart := h.start_eq List.mem_cons_self
    have h0 : i.offset = 0 := h.tiles.1
    have hplace : p = i.placeAt ins 0 := h.places.1
    rw [h0] at hstart
    rw [hstart, hplace, placeAt, prologueOf, if_pos h0, bp, length_encodeAll, Nat.zero_add]
  · intro i hi
    obtain ⟨p, hip⟩ := h.exists_place hi
    obtain ⟨x, -, hx⟩ := h.image_eq hip
    rw [h.start_eq hip, hx]
    dsimp only
    rw [(h.places.mem_bounds hip).2.1, epilogueOf_eq be i 0, length_encodeAll]
    split <;> simp
  · intro i hi
    obtain ⟨p, hip⟩ := h.exists_place hi
    obtain ⟨x, -, hx⟩ := h.image_eq hip
    have hl := (h.image_fits hip).2.2.1
    have ho : ((Placement.of placed stop).image i).offset = p.instruction := by rw [hx]
    rw [Instruction.targets, Instruction.targets, ho, List.forall₂_map_left_iff,
      List.forall₂_map_right_iff]
    exact hl.imp fun _ _ hle => h.exists_target hle

end Relocates

/-- Deleting what was inserted turns the paths of the relocated code into those of the old one. -/
theorem Code.relocate_preserves_flow {bytes : Bytes} {file : ClassFile} {method : Method}
    {index : Nat} {code : Code} {ins : Insertion} {prologue epilogue : List Instruction}
    {body : Body} (parsed : ClassFile.parse bytes = .ok file) (hm : method ∈ file.methods)
    (hc : method.code = some (index, code)) (hp : decode ins.prologue = .ok prologue)
    (he : decode ins.epilogue = .ok epilogue) (sp : ∀ i ∈ prologue, i.IsStraight)
    (se : ∀ i ∈ epilogue, i.IsStraight) (h : code.relocate file.pool ins = .ok body) :
    ∃ (is : List Instruction) (m : Placement),
      decode code.bytes = .ok is ∧
      decode body.code.bytes = .ok (m.weave prologue epilogue is) ∧
      m.Weaves prologue epilogue is ∧
      (∀ path, IsPath (m.weave prologue epilogue is) path →
        ∃ old, IsPath is old ∧ path.filter (· ∈ is.map m.image) = old.map m.image) ∧
      ∀ old, IsPath is old →
        ∃ path, IsPath (m.weave prologue epilogue is) path ∧
          path.filter (· ∈ is.map m.image) = old.map m.image := by
  obtain ⟨-, fits, -⟩ := ClassFile.parse_iff.1 parsed
  obtain ⟨-, -, -, -, -, -, -, codeFits, -⟩ := (fits.methods.2 method hm).exists_code hc
  obtain ⟨placed, stop, hr⟩ := Code.relocates h
  have hne := codeFits.nonempty
  have hw := hr.isWoven hne hp he sp se
  obtain ⟨i, hi, h0, x, hl, hx⟩ := hw.exists_first fun hnil =>
    hr.placed_ne_nil hne (List.map_eq_nil_iff.1 hnil)
  refine ⟨placed.map Prod.fst, Placement.of placed stop, hr.decoded,
    hr.decode_weave hne hp he fun i hi => (se i hi).1, hw.toWeaves, ?_, ?_⟩
  · rintro (- | ⟨y, path⟩) ⟨hmem, hfirst, hsteps⟩
    · exact ⟨[], ⟨nofun, nofun, .nil⟩, rfl⟩
    · obtain rfl := hw.new.eq_of_offset_eq (hmem y List.mem_cons_self) hl.mem
        ((hfirst y rfl).trans hx.symm)
      obtain ⟨old, ho, hhead, hchain, hfilter⟩ := hw.exists_old_path hi hl
        (fun z hz => hmem z (List.mem_cons_of_mem _ hz)) hsteps
      exact ⟨old, ⟨ho, fun j hj => by rwa [hhead j hj], hchain⟩, hfilter⟩
  · rintro (- | ⟨j, old⟩) ⟨hmem, hfirst, hsteps⟩
    · exact ⟨[], ⟨nofun, nofun, .nil⟩, rfl⟩
    · obtain rfl := hw.old.eq_of_offset_eq (hmem j List.mem_cons_self) hi
        ((hfirst j rfl).trans h0.symm)
      obtain ⟨path, hpath, hhead, hchain, hfilter⟩ := hw.exists_new_path hl hmem hsteps
      exact ⟨path, ⟨hpath, fun y hy => by rwa [hhead y hy], hchain⟩, hfilter⟩

theorem Code.relocate_preserves_flow_sample :
    ∃ (is : List Instruction) (m : Placement),
      decode Sample.code.bytes = .ok is ∧
      decode [0x01, 0x03, 0x99, 0x00, 0x05, 0x00, 0xb1, 0x00, 0xb1] =
        .ok (m.weave [⟨0, 0x01, .plain []⟩] [⟨0, 0x00, .plain []⟩] is) ∧
      m.Weaves [⟨0, 0x01, .plain []⟩] [⟨0, 0x00, .plain []⟩] is ∧
      (∀ path, IsPath (m.weave [⟨0, 0x01, .plain []⟩] [⟨0, 0x00, .plain []⟩] is) path →
        ∃ old, IsPath is old ∧ path.filter (· ∈ is.map m.image) = old.map m.image) ∧
      ∀ old, IsPath is old →
        ∃ path, IsPath (m.weave [⟨0, 0x01, .plain []⟩] [⟨0, 0x00, .plain []⟩] is) path ∧
          path.filter (· ∈ is.map m.image) = old.map m.image := by
  have hm : Sample.method ∈ Sample.file.methods := List.mem_cons_self
  have hr : Sample.code.relocate Sample.file.pool ⟨[0x01], [0x00]⟩ =
      .ok ⟨{ Sample.code with
        bytes := [0x01, 0x03, 0x99, 0x00, 0x05, 0x00, 0xb1, 0x00, 0xb1] }, []⟩ := by decide +kernel
  exact Code.relocate_preserves_flow Sample.parse_file hm rfl (by decide +kernel) (by cbv) (by decide)
    (by decide) hr

end ClassWeaver
