import Mathlib.Data.List.Pairwise
import ClassWeaver.Proofs.Unit.Results
import ClassWeaver.Proofs.Unit.Scan

/-! What the key of a unit tells of it. A key joins the path of a directory to that of a file by an
exclamation mark and a slash, which a name can have at its end: so two files can have one key, and then
only the first of them is a unit of the run. No record of one is taken for the other all the same, since
their outputs lie in different places. -/

namespace ClassWeaver

open FileTree TreeM

lemma append_mark_eq_iff {a b c d : List Char} :
    a ++ '!' :: '/' :: b = c ++ '!' :: '/' :: d ↔ (a = c ∧ b = d) ∨
      (∃ m, c = a ++ '!' :: '/' :: m ∧ b = m ++ '!' :: '/' :: d) ∨
      ∃ m, a = c ++ '!' :: '/' :: m ∧ d = m ++ '!' :: '/' :: b := by
  have hlater : ∀ {b d m : List Char}, '!' :: '/' :: b = m ++ '!' :: '/' :: d →
      m = [] ∧ b = d ∨ ∃ n, m = '!' :: '/' :: n ∧ b = n ++ '!' :: '/' :: d := by
    intro b d m h
    match m with
    | [] => exact .inl ⟨rfl, by simpa using h⟩
    | [c] => simp at h
    | c :: c' :: n =>
      simp only [List.cons_append, List.cons.injEq] at h
      obtain ⟨rfl, rfl, rfl⟩ := h
      exact .inr ⟨n, rfl, rfl⟩
  constructor
  · intro h
    rcases List.append_eq_append_iff.1 h with ⟨m, rfl, hm⟩ | ⟨m, rfl, hm⟩
    · rcases hlater hm with ⟨rfl, rfl⟩ | ⟨n, rfl, rfl⟩
      · exact .inl ⟨by simp, rfl⟩
      · exact .inr (.inl ⟨n, rfl, rfl⟩)
    · rcases hlater hm with ⟨rfl, rfl⟩ | ⟨n, rfl, rfl⟩
      · exact .inl ⟨by simp, rfl⟩
      · exact .inr (.inr ⟨n, rfl, rfl⟩)
  · rintro (⟨rfl, rfl⟩ | ⟨m, rfl, rfl⟩ | ⟨m, rfl, rfl⟩) <;> simp

namespace InputUnit

/-- Both are files of one scope. The first lies below a directory whose name ends with an exclamation
mark, and the second in a directory of that path: what leads to the mark is the end of the path of the
one input, and in the other it leads from the input. -/
inductive Blurs : InputUnit → InputUnit → Prop
  | intro (scope : Scope) (root middle relative : String) :
      Blurs ⟨scope, root, .file (middle ++ ("!/" ++ relative))⟩
        ⟨scope, root ++ ("!/" ++ middle), .file relative⟩

variable {u v : InputUnit}

lemma Blurs.key_eq (h : u.Blurs v) : u.key = v.key := by
  cases h
  simp [key, String.append_assoc]

lemma dirName_append_eq_iff {s s' : Scope} {x y : List Char} :
    s.dirName.toList ++ ':' :: x = s'.dirName.toList ++ ':' :: y ↔ s = s' ∧ x = y := by
  cases s <;> cases s' <;> simp [Scope.dirName]

lemma toList_key_archive (scope : Scope) (root : String) :
    (key ⟨scope, root, .archive⟩).toList =
      scope.dirName.toList ++ ':' :: ("jar:".toList ++ root.toList) := by
  simp [key]

lemma toList_key_file (scope : Scope) (root relative : String) :
    (key ⟨scope, root, .file relative⟩).toList = scope.dirName.toList ++ ':' ::
      ("dir:".toList ++ (root.toList ++ '!' :: '/' :: relative.toList)) := by
  simp [key]

lemma blurs_of_append {scope : Scope} {root root' relative relative' : String} {m : List Char}
    (hroot : root'.toList = root.toList ++ '!' :: '/' :: m)
    (hrelative : relative.toList = m ++ '!' :: '/' :: relative'.toList) :
    Blurs ⟨scope, root, .file relative⟩ ⟨scope, root', .file relative'⟩ := by
  obtain rfl : root' = root ++ ("!/" ++ String.ofList m) := by
    apply String.toList_inj.1
    simp [hroot]
  obtain rfl : relative = String.ofList m ++ ("!/" ++ relative') := by
    apply String.toList_inj.1
    simp [hrelative]
  exact .intro scope root _ relative'

lemma key_eq_iff : u.key = v.key ↔ u = v ∨ u.Blurs v ∨ v.Blurs u := by
  constructor
  · intro h
    obtain ⟨scope, root, kind⟩ := u
    obtain ⟨scope', root', kind'⟩ := v
    rw [← String.toList_inj] at h
    cases kind with
    | archive =>
      cases kind' with
      | archive =>
        rw [toList_key_archive, toList_key_archive, dirName_append_eq_iff,
          List.append_cancel_left_eq, String.toList_inj] at h
        obtain ⟨rfl, rfl⟩ := h
        exact .inl rfl
      | file relative' =>
        rw [toList_key_archive, toList_key_file, dirName_append_eq_iff] at h
        exact absurd h.2 (by simp)
    | file relative =>
      cases kind' with
      | archive =>
        rw [toList_key_file, toList_key_archive, dirName_append_eq_iff] at h
        exact absurd h.2 (by simp)
      | file relative' =>
        rw [toList_key_file, toList_key_file, dirName_append_eq_iff, List.append_cancel_left_eq,
          append_mark_eq_iff] at h
        obtain ⟨rfl, ⟨hroot, hrelative⟩ | ⟨m, hroot, hrelative⟩ | ⟨m, hroot, hrelative⟩⟩ := h
        · obtain rfl := String.toList_inj.1 hroot
          obtain rfl := String.toList_inj.1 hrelative
          exact .inl rfl
        · exact .inr (.inl (blurs_of_append hroot hrelative))
        · exact .inr (.inr (blurs_of_append hroot hrelative))
  · rintro (rfl | h | h)
    · rfl
    · exact h.key_eq
    · exact h.key_eq.symm

lemma Blurs.ne (h : u.Blurs v) : u ≠ v := by
  cases h with
  | intro scope root middle relative =>
    intro heq
    have hroot := congrArg (·.root.toList.length) heq
    simp at hroot

lemma go_append_cons (units : List InputUnit) (key : String) (before seen : List String) :
    distinct.go units (before ++ key :: seen) =
      distinct.go (units.filter (·.key != key)) (before ++ seen) := by
  induction units generalizing before with
  | nil => rfl
  | cons u units ih =>
    by_cases hkey : u.key = key
    · rw [distinct.go, if_pos (by simp [hkey]), List.filter_cons_of_neg (by simp [hkey]), ih]
    · rw [List.filter_cons_of_pos (by simp [hkey]), distinct.go, distinct.go,
        ← List.cons_append, ih, ih]
      simp [hkey]

lemma distinct_cons (u : InputUnit) (units : List InputUnit) :
    distinct (u :: units) = u :: distinct (units.filter (·.key != u.key)) := by
  rw [distinct, distinct.go, if_neg (by simp)]
  exact congrArg (u :: ·) (go_append_cons units u.key [] [])

lemma distinct_eq_eraseDups (units : List InputUnit)
    (h : ∀ u ∈ units, ∀ v ∈ units, u.key = v.key → u = v) : distinct units = units.eraseDups := by
  match units with
  | [] => rfl
  | u :: rest =>
    have hfilter : rest.filter (·.key != u.key) = rest.filter fun v => !v == u := by
      refine List.filter_congr fun v hv => ?_
      have hsame : v.key = u.key ↔ v = u :=
        ⟨h v (List.mem_cons_of_mem _ hv) u List.mem_cons_self, congrArg key⟩
      simp [bne, beq_eq_decide, hsame]
    have hlength : (rest.filter fun v => !v == u).length < (u :: rest).length :=
      Nat.lt_succ_of_le (List.length_filter_le _ _)
    rw [distinct_cons, List.eraseDups_cons, hfilter, distinct_eq_eraseDups]
    intro v hv w hw
    exact h v (List.mem_cons_of_mem _ (List.mem_filter.1 hv).1) w
      (List.mem_cons_of_mem _ (List.mem_filter.1 hw).1)
termination_by units.length
decreasing_by exact hlength

lemma distinct_eq_eraseDups_iff {units : List InputUnit} :
    distinct units = units.eraseDups ↔ ∀ u ∈ units, ∀ v ∈ units, ¬ u.Blurs v := by
  constructor
  · intro h u hu v hv hblurs
    -- Both are kept, but no two units that are kept have one key.
    have hsymm : Std.Symm fun u v : InputUnit => u.key ≠ v.key := ⟨fun _ _ => Ne.symm⟩
    have hkeys := pairwise_distinct units
    rw [h] at hkeys
    exact hkeys.forall (List.mem_eraseDups.2 hu) (List.mem_eraseDups.2 hv) hblurs.ne hblurs.key_eq
  · intro h
    refine distinct_eq_eraseDups units fun u hu v hv hkey => ?_
    rcases key_eq_iff.1 hkey with heq | hblurs | hblurs
    · exact heq
    · exact absurd hblurs (h u hu v hv)
    · exact absurd hblurs (h v hv u hu)

lemma Blurs.unitLocation_ne (h : u.Blurs v) : Layout.unitLocation u ≠ Layout.unitLocation v := by
  cases h with
  | intro scope root middle relative =>
    have hpieces : ∀ root relative : String,
        (Path.pieces (Layout.unitLocation ⟨scope, root, .file relative⟩).toList).length =
          3 + (Path.pieces relative.toList).length := by
      intro root relative
      obtain ⟨part, -, hpart⟩ := Layout.pieces_directoryLocation scope root
      have hlist : (Layout.unitLocation ⟨scope, root, .file relative⟩).toList =
          (Layout.directoryLocation scope root).toList ++ '/' :: relative.toList := by
        simp [Layout.unitLocation]
      rw [hlist, Path.pieces_append, hpart, List.length_append]
      rfl
    have hmiddle : (middle ++ ("!/" ++ relative)).toList =
        (middle.toList ++ ['!']) ++ '/' :: relative.toList := by simp
    intro heq
    have hlength := congrArg (fun path : String => (Path.pieces path.toList).length) heq
    simp only [hpieces, hmiddle, Path.pieces_append (middle.toList ++ ['!']), List.length_append]
      at hlength
    have hpos := List.length_pos_of_ne_nil (Path.pieces_ne_nil (middle.toList ++ ['!']))
    omega

end InputUnit

inductive UnitRecord.IsOf (u : InputUnit) : UnitRecord → Prop
  | finished {hash : String} {lastModified resources : Nat} {classes : List ArtifactReport}
      {staged : Bool} {r : UnitRecord}
      (h : (UnitResult.finished u hash lastModified classes resources staged).record = some r) :
      IsOf u r
  | reuse {lastModified : Nat} {r r' : UnitRecord} (h : IsOf u r)
      (h' : (UnitResult.reuse r lastModified).record = some r') : IsOf u r'

lemma UnitRecord.IsOf.key_and_output {u : InputUnit} {r : UnitRecord} (h : IsOf u r) :
    r.key = u.key ∧ r.output = Layout.unitLocation u := by
  induction h with
  | finished h =>
    cases h
    exact ⟨rfl, rfl⟩
  | reuse _ h' ih =>
    cases h'
    exact ih

lemma Snapshot.key_of_reusable? {s : Snapshot} {key hash : String} {r : UnitRecord}
    (h : s.reusable? key hash = some r) : r.key = key := by
  obtain ⟨hget, -⟩ := Option.filter_eq_some_iff.1 h
  simpa using List.find?_some hget

namespace InputUnit

lemma eq_of_reusable? {run : RunContext} {u v : InputUnit} {hash : String} {r : UnitRecord}
    {t t' : FileTree} (hr : r.IsOf v) (h : (run.reusable? system u hash).run t = (some r, t')) :
    u = v := by
  obtain ⟨hprior, houtput⟩ := (RunContext.reusable?_eq h).2 r rfl
  obtain ⟨prior, -, hreusable⟩ := Option.bind_eq_some_iff.1 hprior
  obtain ⟨hkey, hplace⟩ := hr.key_and_output
  have hsame : u.key = v.key := (Snapshot.key_of_reusable? hreusable).symm.trans hkey
  rcases key_eq_iff.1 hsame with heq | hblurs | hblurs
  · exact heq
  · exact absurd (houtput.symm.trans hplace) hblurs.unitLocation_ne
  · exact absurd (hplace.symm.trans houtput) hblurs.unitLocation_ne

/-- A key is that of one unit, or of files of which one blurs the other. Every unit of a list is kept
or another one with its key, and only repeats are dropped, the first of each being kept, exactly where
no file of the list blurs another. The record of a unit is never used again for another one. -/
theorem key_identifies (u v : InputUnit) (units : List InputUnit) :
    (u.key = v.key ↔ u = v ∨ u.Blurs v ∨ v.Blurs u) ∧
    (u ∈ units → ∃ w ∈ distinct units, w = u ∨ w.Blurs u ∨ u.Blurs w) ∧
    (distinct units = units.eraseDups ↔ ∀ u ∈ units, ∀ v ∈ units, ¬ u.Blurs v) ∧
    ∀ (run : RunContext) (hash : String) (r : UnitRecord) (t t' : FileTree),
      r.IsOf v → (run.reusable? system u hash).run t = (some r, t') → u = v := by
  refine ⟨key_eq_iff, fun hu => ?_, distinct_eq_eraseDups_iff, fun _ _ _ _ _ => eq_of_reusable?⟩
  obtain ⟨w, hw, hkey⟩ := exists_mem_distinct hu
  exact ⟨w, hw, key_eq_iff.1 hkey⟩

end InputUnit

def Sample.inner : InputUnit := ⟨.project, "in", .file "x!/y"⟩

def Sample.outer : InputUnit := ⟨.project, "in!/x", .file "y"⟩

def Sample.innerRecord : UnitRecord :=
  ⟨"project:dir:in!/x!/y", "00", .unchanged, "project/dirs/in-58296753/x!/y", 0, []⟩

def Sample.leftTree : FileTree where
  nodes :=
    [(["out"], .directory), (["out", "project"], .directory),
      (["out", "project", "dirs"], .directory),
      (["out", "project", "dirs", "in-58296753"], .directory),
      (["out", "project", "dirs", "in-58296753", "x!"], .directory),
      (["out", "project", "dirs", "in-58296753", "x!", "y"], .file [1])]

def Sample.nextRun : RunContext where
  settings := ⟨true, [], [], true, true, true, 0, none, ⟨[]⟩, ⟨none, [], true⟩⟩
  layout := ⟨"out"⟩
  prior := some ⟨none, [Sample.innerRecord]⟩

theorem InputUnit.key_identifies_sample :
    Sample.inner.key = Sample.outer.key ∧
      InputUnit.distinct [Sample.inner, Sample.outer] ≠ [Sample.inner, Sample.outer].eraseDups ∧
      Sample.innerRecord.IsOf Sample.inner ∧ ¬ Sample.innerRecord.IsOf Sample.outer := by
  have hblurs : Sample.inner.Blurs Sample.outer := .intro .project "in" "x" "y"
  have hreused : (Sample.nextRun.reusable? system Sample.inner "00").run Sample.leftTree =
      (some Sample.innerRecord, Sample.leftTree) := by
    change @Eq (Option UnitRecord × FileTree) _ _
    decide +kernel
  have hrecord : (UnitResult.finished Sample.inner "00" 0 [] 1 true).record =
      some Sample.innerRecord := by decide +kernel
  obtain ⟨hkey, -, hdistinct, hrecords⟩ :=
    InputUnit.key_identifies Sample.inner Sample.outer [Sample.inner, Sample.outer]
  refine ⟨hkey.2 (.inr (.inl hblurs)), fun h => ?_, .finished hrecord,
    fun hof => hblurs.ne (hrecords _ _ _ _ _ hof hreused)⟩
  exact hdistinct.1 h _ (by simp) _ (by simp) hblurs

end ClassWeaver
