import ClassWeaver.Filter
import ClassWeaver.Proofs.Settings.Answers
import ClassWeaver.Proofs.Text.Segments

/-! A list of patterns of which none takes names out again has the names that one of its patterns has
by itself, and with a name everything below it. -/

namespace ClassWeaver

open ClassWeaver.Path

def ClassName.IsOrdinary (name : String) : Prop :=
  ∃ segments, segments ≠ [] ∧ (∀ segment ∈ segments, IsPlainSegment segment) ∧
    name = String.ofList (join segments)

open ClassName

namespace ClassName.IsOrdinary

variable {name : String}

lemma exists_eq_cons (h : IsOrdinary name) : ∃ c cs, name.toList = c :: cs ∧ c ≠ '/' ∧ c ≠ '.' := by
  obtain ⟨segments, hne, hplain, rfl⟩ := h
  rw [String.toList_ofList]
  exact exists_join_eq_cons hne hplain

lemma not_isRooted (h : IsOrdinary name) : ¬ IsRooted name := by
  obtain ⟨c, cs, hname, hslash, hdot⟩ := h.exists_eq_cons
  simp [IsRooted, hname, hslash.symm, hdot.symm]

lemma relative (h : IsOrdinary name) : GlobList.relative name = name := by
  obtain ⟨c, cs, hname, hslash, hdot⟩ := h.exists_eq_cons
  obtain rfl : name = String.ofList (c :: cs) := by rw [← hname, String.ofList_toList]
  rw [GlobList.relative, String.toList_ofList]
  split <;> simp_all

end ClassName.IsOrdinary

namespace GlobLine

/-- A pattern that would take names out of a list. -/
def TakesOut (pattern : String) : Prop := (trimBlank pattern.toList).head? = some '!'

instance (pattern : String) : Decidable (TakesOut pattern) :=
  inferInstanceAs (Decidable (_ = _))

lemma head?_normalize {pattern : String} :
    (normalize pattern).head? = some '!' ↔ TakesOut pattern := by
  rw [normalize, List.head?_map, Option.map_eq_some_iff, TakesOut]
  constructor
  · rintro ⟨c, hhead, hc⟩
    split at hc
    · exact absurd hc (by decide)
    · rw [hhead, hc]
  · exact fun h => ⟨'!', h, by decide⟩

lemma opening_allows {cs : List Char} : (opening cs).1 = true ↔ cs.head? = some '!' := by
  unfold opening
  split
  · split <;> simp
  · simp
  · simp
  · simp
  · next _ hno _ =>
    refine iff_of_false Bool.false_ne_true fun hhead => ?_
    obtain ⟨rest, hrest⟩ := List.head?_eq_some_iff.1 hhead
    exact hno rest hrest

lemma allows_of_parse? {pattern : String} {line : GlobLine} (h : parse? pattern = some (some line))
    (hkeeps : ¬ TakesOut pattern) : line.allows = false := by
  rw [← head?_normalize, ← opening_allows, Bool.not_eq_true] at hkeeps
  unfold parse? at h
  split at h
  · cases h
  · cases h
  · obtain ⟨glob, -, hline⟩ := Option.map_eq_some_iff.1 h
    cases hline
    exact hkeeps

def isFor (line : GlobLine) (path : String) (isDirectory : Bool) : Bool :=
  (isDirectory || !line.directoriesOnly) && line.glob.admits (Utf8.encode path)

/-- Whether a line is for a name with these segments or for a directory above it. -/
def Covers (line : GlobLine) (segments : List (List Char)) : Prop :=
  line.isFor (String.ofList (join segments)) false = true ∨
    ∃ front, front <+: segments.dropLast ∧ line.isFor (String.ofList (join front)) true = true

variable {line : GlobLine}

lemma isFor_directory {path : String} (h : line.isFor path false = true) :
    line.isFor path true = true := by
  simp [isFor] at h ⊢
  exact h.2

lemma Covers.append {segments more : List (List Char)} (h : line.Covers segments)
    (hmore : more ≠ []) : line.Covers (segments ++ more) := by
  have habove : segments <+: (segments ++ more).dropLast := by
    rw [List.dropLast_append_of_ne_nil hmore]
    exact List.prefix_append _ _
  rcases h with h | ⟨front, hfront, h⟩
  · exact .inr ⟨segments, habove, isFor_directory h⟩
  · exact .inr ⟨front, (hfront.trans (List.dropLast_prefix _)).trans habove, h⟩

end GlobLine

namespace GlobList

variable {lines : GlobList} {patterns : List String}

lemma isSome_verdict? {path : String} {isDirectory : Bool} :
    (lines.verdict? path isDirectory).isSome = true ↔
      ∃ line ∈ lines, line.isFor path isDirectory = true := by
  rw [verdict?, Option.isSome_map, List.find?_isSome]
  simp only [List.mem_reverse]
  rfl

lemma has_of_ordinary {name : String} (hname : IsOrdinary name) :
    ∃ found, lines.has name = .ok found := by
  cases h : lines.has name with
  | ok found => exact ⟨found, rfl⟩
  | error fault => exact absurd (has_eq_error_iff.1 h).2.1 hname.not_isRooted

lemma verdict?_ne_some_false (hlines : ∀ line ∈ lines, line.allows = false) {path : String}
    {isDirectory : Bool} : lines.verdict? path isDirectory ≠ some false := by
  intro h
  obtain ⟨line, hfind, hline⟩ := Option.map_eq_some_iff.1 h
  simp [hlines line (List.mem_reverse.1 (List.mem_of_find?_eq_some hfind))] at hline

lemma getD_eq_isSome {verdict : Option Bool} (h : verdict ≠ some false) :
    verdict.getD false = verdict.isSome := by
  cases verdict <;> simp_all

lemma has_join (hlines : ∀ line ∈ lines, line.allows = false) {segments : List (List Char)}
    (hne : segments ≠ []) (hplain : ∀ segment ∈ segments, IsPlainSegment segment) :
    lines.has (String.ofList (join segments)) = .ok true ↔
      ∃ line ∈ lines, line.Covers segments := by
  obtain ⟨front, p, rfl⟩ := List.eq_nil_or_concat' segments |>.resolve_left hne
  have hname : IsOrdinary (String.ofList (join (front ++ [p]))) := ⟨_, hne, hplain, rfl⟩
  have habsolute := mt isAbsolute_relative.1 hname.not_isRooted
  rw [has]
  split
  · next hempty =>
    rw [List.isEmpty_iff.1 hempty]
    simp
  dsimp only
  rw [if_neg habsolute, hname.relative, ancestors_join hplain]
  dsimp only
  rw [Except.ok.injEq]
  rw [getD_eq_isSome, Option.isSome_or, Bool.or_eq_true, isSome_verdict?,
    List.findSome?_isSome_iff]
  · simp only [isSome_verdict?, List.mem_reverse, List.mem_map, List.mem_inits,
      GlobLine.Covers, List.dropLast_concat]
    constructor
    · rintro (⟨line, hline, h⟩ | ⟨_, ⟨above, habove, rfl⟩, line, hline, h⟩)
      · exact ⟨line, hline, .inl h⟩
      · exact ⟨line, hline, .inr ⟨above, habove, h⟩⟩
    · rintro ⟨line, hline, h | ⟨above, habove, h⟩⟩
      · exact .inl ⟨line, hline, h⟩
      · exact .inr ⟨_, ⟨above, habove, rfl⟩, line, hline, h⟩
  -- no verdict is a refusal, so the order of the lines does not matter
  · intro h
    rcases Option.or_eq_some_iff.1 h with h | ⟨-, h⟩
    · exact verdict?_ne_some_false hlines h
    · obtain ⟨above, -, h⟩ := List.exists_of_findSome?_eq_some h
      exact verdict?_ne_some_false hlines h

lemma ofPatterns_eq_ok (h : ∀ p ∈ patterns, ∃ line, GlobLine.parse? p = some line) :
    ∃ lines, ofPatterns patterns = .ok lines := by
  induction patterns with
  | nil => exact ⟨[], rfl⟩
  | cons pattern rest ih =>
    rw [List.forall_mem_cons] at h
    obtain ⟨line, hline⟩ := h.1
    obtain ⟨others, hothers⟩ := ih h.2
    rw [ofPatterns, hline, hothers]
    exact ⟨_, rfl⟩

lemma mem_ofPatterns (h : ofPatterns patterns = .ok lines) :
    (∀ p ∈ patterns, ∃ line, GlobLine.parse? p = some line) ∧
      ∀ line, line ∈ lines ↔ ∃ p ∈ patterns, GlobLine.parse? p = some (some line) := by
  induction patterns generalizing lines with
  | nil =>
    cases h
    simp
  | cons pattern rest ih =>
    unfold ofPatterns at h
    split at h
    · cases h
    · next line hline =>
      obtain ⟨others, hothers, rfl⟩ := map_eq_ok_iff.1 h
      obtain ⟨hparse, hmem⟩ := ih hothers
      refine ⟨List.forall_mem_cons.2 ⟨⟨line, hline⟩, hparse⟩, fun line' => ?_⟩
      rw [List.mem_append, hmem, List.exists_mem_cons_iff, hline, Option.some_inj,
        Option.mem_toList]

def AnyCovers (patterns : List String) (segments : List (List Char)) : Prop :=
  ∃ p ∈ patterns, ∃ line, GlobLine.parse? p = some (some line) ∧ line.Covers segments

lemma AnyCovers.mono {others : List String} {segments : List (List Char)}
    (h : AnyCovers patterns segments) (hothers : patterns ⊆ others) :
    AnyCovers others segments := by
  obtain ⟨p, hp, h⟩ := h
  exact ⟨p, hothers hp, h⟩

lemma has_ofPatterns (hlines : ofPatterns patterns = .ok lines)
    (hkeeps : ∀ p ∈ patterns, ¬ GlobLine.TakesOut p) {segments : List (List Char)}
    (hne : segments ≠ []) (hplain : ∀ segment ∈ segments, IsPlainSegment segment) :
    lines.has (String.ofList (join segments)) = .ok true ↔ AnyCovers patterns segments := by
  have hmem := (mem_ofPatterns hlines).2
  have hallows : ∀ line ∈ lines, line.allows = false := by
    intro line hline
    obtain ⟨p, hp, hparse⟩ := (hmem line).1 hline
    exact GlobLine.allows_of_parse? hparse (hkeeps p hp)
  rw [has_join hallows hne hplain]
  constructor
  · rintro ⟨line, hline, h⟩
    obtain ⟨p, hp, hparse⟩ := (hmem line).1 hline
    exact ⟨p, hp, line, hparse, h⟩
  · rintro ⟨p, hp, line, hparse, h⟩
    exact ⟨line, (hmem line).2 ⟨p, hp, hparse⟩, h⟩

lemma has_mono {wider : List String} {lines' : GlobList} {name : String}
    (hlines : ofPatterns patterns = .ok lines) (hlines' : ofPatterns wider = .ok lines')
    (hsub : patterns ⊆ wider) (hkeeps : ∀ p ∈ wider, ¬ GlobLine.TakesOut p)
    (hname : IsOrdinary name) (h : lines.has name = .ok true) : lines'.has name = .ok true := by
  obtain ⟨segments, hne, hplain, rfl⟩ := hname
  rw [has_ofPatterns hlines (fun p hp => hkeeps p (hsub hp)) hne hplain] at h
  rw [has_ofPatterns hlines' hkeeps hne hplain]
  exact h.mono hsub

section Keeping

variable {name : String} (hlines : ofPatterns patterns = .ok lines)
  (hkeeps : ∀ p ∈ patterns, ¬ GlobLine.TakesOut p) (hname : IsOrdinary name)

include hlines hkeeps hname

lemma has_iff_alone : lines.has name = .ok true ↔
    ∃ p ∈ patterns, ∃ alone, ofPatterns [p] = .ok alone ∧ alone.has name = .ok true := by
  constructor
  · intro h
    obtain ⟨segments, hne, hplain, rfl⟩ := hname
    obtain ⟨p, hp, line, hparse, hline⟩ := (has_ofPatterns hlines hkeeps hne hplain).1 h
    obtain ⟨alone, halone⟩ := ofPatterns_eq_ok (List.forall_mem_singleton.2 ⟨_, hparse⟩)
    have hkeep : ∀ q ∈ [p], ¬ GlobLine.TakesOut q := List.forall_mem_singleton.2 (hkeeps p hp)
    refine ⟨p, hp, alone, halone, (has_ofPatterns halone hkeep hne hplain).2 ?_⟩
    exact ⟨p, List.mem_singleton_self p, line, hparse, hline⟩
  · rintro ⟨p, hp, alone, halone, h⟩
    exact has_mono halone hlines (by simpa using hp) hkeeps hname h

lemma has_eq_of_mem_iff {others : List String} (hothers : ∀ p, p ∈ others ↔ p ∈ patterns) :
    ∃ lines', ofPatterns others = .ok lines' ∧ lines'.has name = lines.has name := by
  obtain ⟨lines', hlines'⟩ :=
    ofPatterns_eq_ok fun p hp => (mem_ofPatterns hlines).1 p ((hothers p).1 hp)
  obtain ⟨found, hfound⟩ := @has_of_ordinary lines name hname
  obtain ⟨found', hfound'⟩ := @has_of_ordinary lines' name hname
  have hsame : lines'.has name = .ok true ↔ lines.has name = .ok true :=
    ⟨has_mono hlines' hlines (fun p => (hothers p).1) hkeeps hname,
      has_mono hlines hlines' (fun p => (hothers p).2) (fun p hp => hkeeps p ((hothers p).1 hp))
        hname⟩
  refine ⟨lines', hlines', ?_⟩
  rw [hfound, hfound', Except.ok.injEq, Except.ok.injEq] at hsame
  rw [hfound, hfound', Bool.eq_iff_iff.2 hsame]

lemma has_below {more : String} (hmore : IsOrdinary more) (h : lines.has name = .ok true) :
    lines.has (name ++ ("/" ++ more)) = .ok true := by
  obtain ⟨segments, hne, hplain, rfl⟩ := hname
  obtain ⟨segments', hne', hplain', rfl⟩ := hmore
  obtain ⟨p, hp, line, hparse, hline⟩ := (has_ofPatterns hlines hkeeps hne hplain).1 h
  have hjoin : String.ofList (join segments) ++ ("/" ++ String.ofList (join segments')) =
      String.ofList (join (segments ++ segments')) := by
    rw [join_append hne hne']
    simp [String.ofList_append]
  rw [hjoin, has_ofPatterns hlines hkeeps (List.append_ne_nil_of_left_ne_nil hne segments')
    (List.forall_mem_append.2 ⟨hplain, hplain'⟩)]
  exact ⟨p, hp, line, hparse, hline.append hne'⟩

end Keeping

end GlobList

namespace ClassFilter

variable {f : ClassFilter} {name : String}

lemma accepts_eq_true_iff : f.accepts name = .ok true ↔
    ¬ (f.excludeGenerated = true ∧ isGenerated name = true) ∧
      (∀ lines ∈ f.included, lines.has name = .ok true) ∧ f.excluded.has name = .ok false := by
  have hnot : ∀ answer : Except RootedName Bool,
      answer.map (!·) = .ok true ↔ answer = .ok false := by
    intro answer
    cases answer <;> simp [Except.map]
  rw [accepts, ← Bool.and_eq_true]
  split
  · next h => simp [h]
  · next h =>
    rw [and_iff_right h]
    cases f.included with
    | none => simp [hnot]
    | some lines =>
      simp only [Option.mem_some_iff, forall_eq']
      split <;> simp_all

lemma accepts_of_ordinary (hname : IsOrdinary name) : ∃ found, f.accepts name = .ok found := by
  cases h : f.accepts name with
  | ok found => exact ⟨found, rfl⟩
  | error fault => exact absurd (accepts_eq_error_iff.1 h).2.2.1 hname.not_isRooted

lemma of_eq_ok_iff {included excluded : List String} {excludeGenerated : Bool} :
    ClassFilter.of included excluded excludeGenerated = .ok f ↔ ∃ inside outside,
      GlobList.ofPatterns included = .ok inside ∧ GlobList.ofPatterns excluded = .ok outside ∧
        f = ⟨if included.isEmpty then none else some inside, outside, excludeGenerated⟩ := by
  rw [ClassFilter.of, bind_eq_ok_iff]
  simp only [bind_eq_ok_iff, mapError_eq_ok_iff]
  constructor
  · rintro ⟨inside, hinside, outside, houtside, h⟩
    exact ⟨inside, outside, hinside, houtside, (Except.ok.inj h).symm⟩
  · rintro ⟨inside, outside, hinside, houtside, rfl⟩
    exact ⟨inside, hinside, outside, houtside, rfl⟩

section Wider

variable {f' : ClassFilter} {patterns wider : List String} {excludeGenerated : Bool}

lemma accepts_of_wider_included {excluded : List String}
    (hf : ClassFilter.of patterns excluded excludeGenerated = .ok f)
    (hf' : ClassFilter.of wider excluded excludeGenerated = .ok f') (hne : patterns ≠ [])
    (hsub : patterns ⊆ wider) (hkeeps : ∀ p ∈ wider, ¬ GlobLine.TakesOut p)
    (hname : IsOrdinary name) (h : f.accepts name = .ok true) : f'.accepts name = .ok true := by
  obtain ⟨inside, outside, hinside, houtside, rfl⟩ := of_eq_ok_iff.1 hf
  obtain ⟨inside', outside', hinside', houtside', rfl⟩ := of_eq_ok_iff.1 hf'
  obtain rfl : outside = outside' := Except.ok.inj (houtside.symm.trans houtside')
  have hempty : patterns.isEmpty = false := by simpa using hne
  rw [accepts_eq_true_iff] at h ⊢
  obtain ⟨hgenerated, hin, hout⟩ := h
  refine ⟨hgenerated, fun lines hlines => ?_, hout⟩
  have hwider : wider ≠ [] := by
    rintro rfl
    exact hne (List.subset_nil.1 hsub)
  obtain rfl : inside' = lines := by simpa [hwider] using hlines
  exact GlobList.has_mono hinside hinside' hsub hkeeps hname (hin inside (by simp [hempty]))

lemma not_accepts_of_wider_excluded {included : List String}
    (hf : ClassFilter.of included patterns excludeGenerated = .ok f)
    (hf' : ClassFilter.of included wider excludeGenerated = .ok f') (hsub : patterns ⊆ wider)
    (hkeeps : ∀ p ∈ wider, ¬ GlobLine.TakesOut p) (hname : IsOrdinary name)
    (h : f.accepts name = .ok false) : f'.accepts name = .ok false := by
  obtain ⟨inside, outside, hinside, houtside, rfl⟩ := of_eq_ok_iff.1 hf
  obtain ⟨inside', outside', hinside', houtside', rfl⟩ := of_eq_ok_iff.1 hf'
  obtain rfl : inside = inside' := Except.ok.inj (hinside.symm.trans hinside')
  obtain ⟨found, hfound⟩ := accepts_of_ordinary
    (f := ⟨if included.isEmpty then none else some inside, outside', excludeGenerated⟩) hname
  cases found with
  | false => exact hfound
  | true =>
    -- What the wider list leaves in, the narrower one leaves in as well.
    obtain ⟨hgenerated, hin, hout⟩ := accepts_eq_true_iff.1 hfound
    have hleft : outside.has name = .ok false := by
      obtain ⟨found, hhas⟩ := @GlobList.has_of_ordinary outside name hname
      cases found with
      | false => exact hhas
      | true =>
        have hhas' := GlobList.has_mono houtside houtside' hsub hkeeps hname hhas
        exact absurd (hhas'.symm.trans hout) (by simp)
    exact absurd (h.symm.trans (accepts_eq_true_iff.2 ⟨hgenerated, hin, hleft⟩)) (by simp)

end Wider

end ClassFilter

/-- With patterns of which none takes names out, a list answers for every name in segments without
dots, and it has the name exactly if one of its patterns alone has it. So neither the order of the
patterns nor how often one is given matters, and with a name everything below it is in the list. One
more pattern for the classes to include does not refuse a class, unless it is the first, and one more
for those to exclude does not let one in. -/
theorem GlobList.has_unites {patterns : List String} {lines : GlobList} {name : String}
    (hlines : ofPatterns patterns = .ok lines)
    (hkeeps : ∀ p ∈ patterns, ¬ GlobLine.TakesOut p) (hname : IsOrdinary name) :
    (∃ found, lines.has name = .ok found) ∧
    (lines.has name = .ok true ↔
      ∃ p ∈ patterns, ∃ alone, ofPatterns [p] = .ok alone ∧ alone.has name = .ok true) ∧
    (∀ others : List String, (∀ p, p ∈ others ↔ p ∈ patterns) →
      ∃ lines', ofPatterns others = .ok lines' ∧ lines'.has name = lines.has name) ∧
    (∀ more, IsOrdinary more → lines.has name = .ok true →
      lines.has (name ++ ("/" ++ more)) = .ok true) ∧
    (∀ wider, patterns ⊆ wider → (∀ p ∈ wider, ¬ GlobLine.TakesOut p) →
      ∀ others excludeGenerated f f',
        (patterns ≠ [] → ClassFilter.of patterns others excludeGenerated = .ok f →
          ClassFilter.of wider others excludeGenerated = .ok f' →
          f.accepts name = .ok true → f'.accepts name = .ok true) ∧
        (ClassFilter.of others patterns excludeGenerated = .ok f →
          ClassFilter.of others wider excludeGenerated = .ok f' →
          f.accepts name = .ok false → f'.accepts name = .ok false)) := by
  refine ⟨has_of_ordinary hname, has_iff_alone hlines hkeeps hname,
    fun _ => has_eq_of_mem_iff hlines hkeeps hname, fun _ => has_below hlines hkeeps hname,
    fun wider hsub hwider others excludeGenerated f f' => ⟨?_, ?_⟩⟩
  · intro hne hf hf' h
    exact ClassFilter.accepts_of_wider_included hf hf' hne hsub hwider hname h
  · intro hf hf' h
    exact ClassFilter.not_accepts_of_wider_excluded hf hf' hsub hwider hname h

theorem GlobList.has_unites_sample : ∃ lines,
    ofPatterns ["com.example.**", "# note", " *Test"] = .ok lines ∧
      lines.has "com/example/Foo" = .ok true ∧ lines.has "com/example/Foo/a/b" = .ok true := by
  have hname : IsOrdinary "com/example/Foo" :=
    ⟨["com".toList, "example".toList, "Foo".toList], by decide, by decide, by decide⟩
  have hmore : IsOrdinary "a/b" := ⟨["a".toList, "b".toList], by decide, by decide, by decide⟩
  obtain ⟨lines, hlines⟩ : ∃ lines,
      ofPatterns ["com.example.**", "# note", " *Test"] = .ok lines := ⟨_, rfl⟩
  obtain ⟨-, hunion, -, hbelow, -⟩ := GlobList.has_unites hlines (by decide +kernel) hname
  have hhas := hunion.2 ⟨"com.example.**", List.mem_cons_self, _, rfl, by decide +kernel⟩
  exact ⟨lines, hlines, hhas, hbelow "a/b" hmore hhas⟩

end ClassWeaver
