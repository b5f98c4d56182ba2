import ClassWeaver.Proofs.Rewriting.Idempotence
import ClassWeaver.Proofs.Rewriting.SmallClasses
import ClassWeaver.Proofs.Settings.Fingerprint

/-! Which classes the stage has an answer for: all but those with an absolute name that is looked up
in a list of patterns, and those in which a number overflows when they are written. -/

namespace ClassWeaver

def ClassName.IsRooted (name : String) : Prop :=
  ['/', '/'] <+: name.toList ∨ ['.', '/', '/', '/'] <+: name.toList

open ClassName

namespace GlobLine

/-- A pattern that is neither blank nor a comment. -/
def Speaks (pattern : String) : Prop :=
  normalize pattern ≠ [] ∧ (normalize pattern).head? ≠ some '#'

lemma isSome_of_parse? {pattern : String} {line : Option GlobLine}
    (h : parse? pattern = some line) : line.isSome = true ↔ Speaks pattern := by
  unfold parse? at h
  unfold Speaks
  split at h
  · next hnil =>
    cases h
    simp [hnil]
  · next rest hcomment =>
    cases h
    simp [hcomment]
  · next hnil hcomment =>
    obtain ⟨glob, -, rfl⟩ := Option.map_eq_some_iff.1 h
    refine iff_of_true rfl ⟨hnil, fun hhead => ?_⟩
    obtain ⟨rest, hrest⟩ := List.head?_eq_some_iff.1 hhead
    exact hcomment rest hrest

end GlobLine

namespace GlobList

lemma ne_nil_of_ofPatterns {patterns : List String} {lines : GlobList}
    (h : ofPatterns patterns = .ok lines) :
    lines ≠ [] ↔ ∃ p ∈ patterns, GlobLine.Speaks p := by
  induction patterns generalizing lines with
  | nil =>
    cases h
    simp
  | cons pattern rest ih =>
    unfold ofPatterns at h
    split at h
    · cases h
    · next line hline =>
      obtain ⟨others, hothers, rfl⟩ := map_eq_ok_iff.1 h
      rw [List.exists_mem_cons_iff, ← ih hothers, ← GlobLine.isSome_of_parse? hline]
      cases line <;> simp

lemma isAbsolute_relative {name : String} :
    Path.isAbsolute (relative name) = true ↔ IsRooted name := by
  have hhead : ∀ cs : List Char, cs.head? = some '/' ↔ ['/'] <+: cs := by
    intro cs
    cases cs <;> simp [eq_comm]
  rw [Path.isAbsolute, decide_eq_true_iff, relative, IsRooted]
  split
  · next rest hrest =>
    rw [String.toList_ofList, hhead]
    split at hrest
    · next more hname =>
      subst hrest
      rw [hname]
      simp
    · next hother =>
      rw [hrest]
      simp
  · next hnone =>
    rw [String.toList_ofList, hhead]
    apply iff_of_false
    · rintro ⟨rest, hrest⟩
      exact hnone rest hrest.symm
    · rintro (⟨rest, hname⟩ | ⟨rest, hname⟩) <;> simp [← hname] at hnone

lemma has_eq_error_iff {lines : GlobList} {name : String} {fault : RootedName} :
    lines.has name = .error fault ↔ lines ≠ [] ∧ IsRooted name ∧ fault = ⟨name⟩ := by
  rw [← isAbsolute_relative, has]
  by_cases hlines : lines = []
  · simp [hlines]
  rw [if_neg (by simpa using hlines)]
  by_cases hrooted : Path.isAbsolute (relative name) = true
  · simp [hlines, hrooted, eq_comm]
  · refine iff_of_false ?_ fun h => hrooted h.2.1
    dsimp only
    rw [if_neg hrooted]
    split <;> exact nofun

end GlobList

lemma ClassFilter.accepts_eq_error_iff {f : ClassFilter} {name : String} {fault : RootedName} :
    f.accepts name = .error fault ↔
      ¬ (f.excludeGenerated = true ∧ isGenerated name = true) ∧ f.included.getD f.excluded ≠ [] ∧
        IsRooted name ∧ fault = ⟨name⟩ := by
  have hnot : ∀ answer : Except RootedName Bool,
      answer.map (!·) = .error fault ↔ answer = .error fault := by
    intro answer
    cases answer <;> simp [Except.map]
  rw [accepts, ← Bool.and_eq_true]
  split
  · next hgenerated => simp [hgenerated]
  next hgenerated =>
  rw [and_iff_right hgenerated]
  cases hincluded : f.included with
  | none => exact (hnot _).trans GlobList.has_eq_error_iff
  | some lines =>
    rw [Option.getD_some, ← GlobList.has_eq_error_iff]
    dsimp only
    cases hhas : lines.has name with
    | error fault' => rfl
    | ok found =>
      refine iff_of_false ?_ nofun
      cases found with
      | false => exact nofun
      | true =>
        -- A list that has found the name has lines, so the name cannot be rooted.
        rw [hnot, GlobList.has_eq_error_iff]
        rintro ⟨-, hrooted, -⟩
        have hlines : lines ≠ [] := by
          rintro rfl
          cases hhas
        have herror := GlobList.has_eq_error_iff.2 ⟨hlines, hrooted, rfl⟩
        rw [hhas] at herror
        cases herror

namespace Settings

variable {s : Settings} {bytes : Bytes}

def LooksUp (s : Settings) (name : String) : Prop :=
  ¬ (s.excludeGeneratedClasses = true ∧ isGenerated name = true) ∧
    ((∃ p ∈ s.includePatterns, GlobLine.Speaks p) ∨
      s.includePatterns = [] ∧ ∃ p ∈ s.excludePatterns, GlobLine.Speaks p)

lemma Valid.accepts_eq_error_iff (hs : s.Valid) {name : String} {fault : RootedName} :
    s.filter.accepts name = .error fault ↔
      s.LooksUp name ∧ IsRooted name ∧ fault = ⟨name⟩ := by
  obtain ⟨inside, hinside, hfilter⟩ := bind_eq_ok_iff.1 hs.filter_eq
  obtain ⟨outside, houtside, hfilter⟩ := bind_eq_ok_iff.1 hfilter
  have hin := GlobList.ne_nil_of_ofPatterns (mapError_eq_ok_iff.1 hinside)
  have hout := GlobList.ne_nil_of_ofPatterns (mapError_eq_ok_iff.1 houtside)
  rw [ClassFilter.accepts_eq_error_iff, ← Except.ok.inj hfilter, LooksUp, ← hin, ← hout]
  cases hpatterns : s.includePatterns with
  | nil =>
    rw [hpatterns] at hinside
    cases hinside
    simp [and_assoc]
  | cons pattern patterns => simp [and_assoc]

lemma weaveClass_eq_error_iff {c : ClassFile} (hcount : c.attributes.length < 65536)
    {crash : Crash} : s.weaveClass c = .error crash ↔ crash = .overflow ∧ ∃ p,
      (Plan.of c).applyAll s.ruleset (s.ruleset.matching c.name c.annotations) = .ok p ∧
        p.Overflows := by
  have nothing : ¬ (Plan.of c).Overflows := fun h => by simpa [Plan.hasEdits_of] using h.1
  unfold weaveClass
  split
  · next hids => simp [hids, Plan.applyAll, nothing]
  split
  · next hplan => simp [hplan]
  next p hplan =>
  simp only [hplan, Except.ok.injEq, exists_eq_left']
  have hfile : p.file.attributes.length < 65536 :=
    (Plan.planned_applyAll .start hplan).spec.1 ▸ hcount
  rw [← Plan.carryOut_eq_overflow_iff hfile]
  cases hedits : p.hasEdits with
  | false => simp [Plan.carryOut, hedits]
  | true =>
    rw [if_pos rfl]
    cases p.carryOut with
    | ok out => simp
    | error abort => cases abort <;> simp [eq_comm]

lemma Valid.weave_eq_error_iff (hs : s.Valid) {crash : Crash} :
    s.weave bytes = .error crash ↔ s.enabled = true ∧ ∃ c, ClassFile.parse bytes = .ok c ∧
      (s.LooksUp c.name ∧ IsRooted c.name ∧ crash = .rooted ⟨c.name⟩ ∨
        s.filter.accepts c.name = .ok true ∧ crash = .overflow ∧ ∃ p,
          (Plan.of c).applyAll s.ruleset (s.ruleset.matching c.name c.annotations) = .ok p ∧
            p.Overflows) := by
  unfold weave
  split
  · next hdisabled =>
    have hfalse : s.enabled = false := by simpa using hdisabled
    simp [hfalse]
  next henabled =>
  rw [and_iff_right (by simpa using henabled)]
  split
  · next hfault => simp [hfault]
  next c hc =>
  have hcount := (ClassFile.parse_iff.1 hc).2.1.attributes.1
  have hrooted := fun fault => @Valid.accepts_eq_error_iff s hs c.name fault
  simp only [hc, Except.ok.injEq, exists_eq_left']
  cases haccepts : s.filter.accepts c.name with
  | error fault =>
    obtain ⟨hlooks, hname, rfl⟩ := (hrooted _).1 haccepts
    simp [bind, Except.bind, Except.mapError, hlooks, hname, eq_comm]
  | ok accepted =>
    have hnot : ¬ (s.LooksUp c.name ∧ IsRooted c.name) := by
      rintro ⟨hlooks, hname⟩
      have herror := (hrooted _).2 ⟨hlooks, hname, rfl⟩
      rw [haccepts] at herror
      cases herror
    rw [or_iff_right fun h => hnot ⟨h.1, h.2.1⟩]
    cases accepted with
    | false => simp [bind, Except.bind, Except.mapError, pure, Except.pure]
    | true =>
      rw [and_iff_right rfl]
      exact weaveClass_eq_error_iff hcount

/-- The stage has no answer for a class with a rooted name that the patterns have to be asked for,
and for one that the filter lets through and whose edits overflow. It has one for all other bytes; what
is no class fails as such. -/
theorem weave_answers (hs : s.Valid) (bytes : Bytes) :
    (∀ crash, s.weave bytes = .error crash ↔
      s.enabled = true ∧ ∃ c, ClassFile.parse bytes = .ok c ∧
        (s.LooksUp c.name ∧ IsRooted c.name ∧ crash = .rooted ⟨c.name⟩ ∨
          s.filter.accepts c.name = .ok true ∧ crash = .overflow ∧ ∃ p,
            (Plan.of c).applyAll s.ruleset (s.ruleset.matching c.name c.annotations) = .ok p ∧
              p.Overflows)) ∧
    ∀ fault, s.enabled = true → ClassFile.parse bytes = .error fault →
      s.weave bytes = .ok (.failed (.malformed fault)) := by
  refine ⟨fun crash => hs.weave_eq_error_iff, fun fault henabled hfault => ?_⟩
  rw [weave, henabled, hfault]
  rfl

/-- There is an answer for every class of up to one gigabyte without a rooted name to be looked up, a
table that ends with the greatest word or a count of attributes that cannot grow, if the rules are
not so many that their calls alone could fill a code of 32 bits. -/
theorem exists_weave_of_small {c : ClassFile} (hs : s.Valid)
    (parsed : ClassFile.parse bytes = .ok c) (small : bytes.length ≤ 1073741824)
    (rules : s.ruleset.rules.length ≤ 10922) (name : ¬ (s.LooksUp c.name ∧ IsRooted c.name))
    (attributes : c.attributes.length < 65535)
    (tables : ∀ m ∈ c.methods, m.HasBoundedTables) : ∃ w, s.weave bytes = .ok w := by
  cases hweave : s.weave bytes with
  | ok w => exact ⟨w, rfl⟩
  | error crash =>
    obtain ⟨-, d, hparse, hcrash⟩ := hs.weave_eq_error_iff.1 hweave
    rw [parsed] at hparse
    cases hparse
    rcases hcrash with ⟨hlooks, hrooted, -⟩ | ⟨-, -, p, hplan, hover⟩
    · exact absurd ⟨hlooks, hrooted⟩ name
    obtain ⟨whole, fits, -⟩ := ClassFile.parse_iff.1 parsed
    obtain ⟨rfl, -⟩ := (Plan.planned_applyAll .start hplan).spec
    have hmatching : (s.ruleset.matching p.file.name p.file.annotations).length ≤
        s.ruleset.rules.length := by
      rw [Ruleset.matching, List.length_map]
      exact List.length_filter_le _ _
    have nothing : (Plan.of p.file).AsksFor 0 := ⟨by simp [Plan.of, Edit.none], Nat.le_refl 0⟩
    have asks : p.AsksFor 10922 := (nothing.applyAll hplan).mono (by omega)
    have applied := (ClassFile.length_appliedRules_le parsed).trans small
    exact absurd hover (Plan.not_overflows whole fits asks tables applied attributes)

end Settings

namespace Sample

def rooted : Bytes :=
  [0xCA, 0xFE, 0xBA, 0xBE, 0, 0, 0, 52, 0, 3, 1, 0, 3, 0x2F, 0x2F, 0x78, 7, 0, 1, 0, 0x21, 0, 2,
    0, 0, 0, 0, 0, 0, 0, 0, 0, 0]

def topmost : Bytes :=
  [0xCA, 0xFE, 0xBA, 0xBE, 0, 0, 0, 49, 0, 6, 1, 0, 1, 0x41, 7, 0, 1, 1, 0, 1, 0x66, 1, 0, 3, 0x28,
    0x29, 0x56, 1, 0, 4, 0x43, 0x6F, 0x64, 0x65, 0, 1, 0, 2, 0, 0, 0, 0, 0, 0, 0, 1, 0, 9, 0, 3, 0, 4,
    0, 1, 0, 5, 0, 0, 0, 33, 0, 1, 0, 0, 0, 0, 0, 21, 0x03, 0xAA, 0, 0, 0, 0, 0, 19, 0x7F, 0xFF, 0xFF,
    0xFF, 0x7F, 0xFF, 0xFF, 0xFF, 0, 0, 0, 19, 0xB1, 0, 0, 0, 0, 0, 0]

lemma valid_settings : settings.Valid :=
  ⟨{ jarStreamThreshold := 1024
     rules := [⟨"in", .named "A", none, .enter ⟨"h", "e"⟩⟩,
      ⟨"out", .named "A", none, .exit ⟨"h", "x"⟩⟩] }, rfl⟩

end Sample

theorem Settings.weave_answers_sample :
    (∃ s, ofEntry Sample.entry = .ok s ∧ s.weave Sample.rooted = .error (.rooted ⟨"//x"⟩) ∧
      s.weave [] = .ok (.failed (.malformed (.truncated "magic" 0)))) ∧
    ∃ c p, ClassFile.parse Sample.topmost = .ok c ∧
      (Plan.of c).applyAll Sample.rules (Sample.rules.matching c.name c.annotations) = .ok p ∧
        p.Overflows := by
  constructor
  · obtain ⟨s, hs, henabled, hgenerated, hinclude⟩ : ∃ s, ofEntry Sample.entry = .ok s ∧
        s.enabled = true ∧ s.excludeGeneratedClasses = true ∧
        s.includePatterns = ["com.example.*"] := ⟨_, rfl, rfl, rfl, rfl⟩
    obtain ⟨c, hc, hname⟩ : ∃ c, ClassFile.parse Sample.rooted = .ok c ∧ c.name = "//x" :=
      map_eq_ok_iff.1 (by decide +kernel)
    have hlooks : s.LooksUp c.name := by
      rw [hname]
      refine ⟨fun h => absurd h.2 (by decide), .inl ⟨"com.example.*", ?_, by decide, by decide⟩⟩
      rw [hinclude]
      exact List.mem_singleton.2 rfl
    have hrooted : ClassName.IsRooted c.name := by
      rw [hname]
      exact .inl (by decide)
    refine ⟨s, hs, ?_, (weave_answers ⟨_, hs⟩ []).2 _ henabled (by decide +kernel)⟩
    exact ((weave_answers ⟨_, hs⟩ Sample.rooted).1 _).2
      ⟨henabled, c, hc, .inl ⟨hlooks, hrooted, by rw [hname]⟩⟩
  · have hcrash : Sample.settings.weave Sample.topmost = .error .overflow := by decide +kernel
    obtain ⟨-, c, hc, ⟨-, -, h⟩ | ⟨-, -, p, hplan, hover⟩⟩ :=
      ((weave_answers Sample.valid_settings Sample.topmost).1 _).1 hcrash
    · cases h
    · exact ⟨c, p, hc, hplan, hover⟩

end ClassWeaver
