import ClassWeaver.Proofs.Text.JsonShapes
import ClassWeaver.Proofs.Unit.Expected

namespace ClassWeaver

section Options

variable {α : Type} {f : α → Json}

lemma Json.ofOption_inj (hf : Function.Injective f) (hnull : ∀ a, f a ≠ .null) :
    Function.Injective (Json.ofOption f)
  | none, none, _ => rfl
  | none, some _, h => absurd h.symm (hnull _)
  | some _, none, h => absurd h (hnull _)
  | some _, some _, h => congrArg some (hf h)

lemma Json.list_map_inj (hf : Function.Injective f) :
    Function.Injective fun as : List α => Json.list (as.map f) :=
  fun _ _ h => hf.list_map (Json.list.inj h)

lemma Json.string_injective : Function.Injective Json.string := fun _ _ => Json.string.inj

end Options

lemma Hook.toJson_injective : Function.Injective Hook.toJson := by
  rintro ⟨owner, method⟩ ⟨owner', method'⟩ h
  simpa [Hook.toJson] using h

lemma RuleAction.toJson_injective : Function.Injective RuleAction.toJson := by
  intro a b h
  cases a <;> cases b <;> simp [RuleAction.toJson, Hook.toJson_injective.eq_iff] at h ⊢ <;> exact h

lemma ClassPredicate.toJson_injective : Function.Injective ClassPredicate.toJson := by
  intro p q h
  cases p <;> cases q <;> simp [ClassPredicate.toJson] at h ⊢ <;> exact h

lemma Selector.toJson_injective : Function.Injective Selector.toJson := by
  rintro ⟨name, descriptor, annotated, constructors⟩ ⟨name', descriptor', annotated', constructors'⟩ h
  have htext := Json.ofOption_inj Json.string_injective fun _ => nofun
  simpa [Selector.toJson, htext.eq_iff] using h

lemma Rule.toJson_injective : Function.Injective Rule.toJson := by
  rintro ⟨id, predicate, selector, action⟩ ⟨id', predicate', selector', action'⟩ h
  simpa [Rule.toJson, ClassPredicate.toJson_injective.eq_iff, Selector.toJson_injective.eq_iff,
    RuleAction.toJson_injective.eq_iff] using h

lemma Ruleset.toJson_injective : Function.Injective Ruleset.toJson := by
  rintro ⟨rules⟩ ⟨rules'⟩ h
  simpa [Ruleset.toJson, Rule.toJson_injective.list_map.eq_iff] using h

lemma Rule.fits_toJson (r : Rule) (depth : Nat) : r.toJson.Fits (depth + 3) := by
  obtain ⟨id, predicate, ⟨name, descriptor, annotated, constructors⟩, action⟩ := r
  have htext : ∀ text : Option String, (Json.ofOption .string text).Fits (depth + 1) :=
    Json.fits_ofOption fun text => by simp [Json.Fits]
  have hpredicate : predicate.toJson.Fits (depth + 2) := by
    cases predicate <;> simp [ClassPredicate.toJson, Json.Fits, Json.FitsMembers]
  have haction : action.toJson.Fits (depth + 2) := by
    cases action <;> simp [RuleAction.toJson, Hook.toJson, Json.Fits, Json.FitsMembers]
  simp [Rule.toJson, Selector.toJson, Json.Fits, Json.FitsMembers, htext, hpredicate, haction]

namespace Settings

lemma fits_outputAffecting (s : Settings) : s.outputAffecting.Fits Draft.maxDepth := by
  have hstrings : ∀ texts, (Json.strings texts).Fits 126 := fun texts =>
    Json.fitsItems_map fun _ _ => by simp [Json.Fits]
  have hrules : Json.FitsItems 124 (s.ruleset.rules.map Rule.toJson) :=
    Json.fitsItems_map fun r _ => r.fits_toJson 121
  simp [outputAffecting, Draft.maxDepth, Json.Fits, Json.FitsMembers, hstrings, Ruleset.toJson,
    hrules]

def Valid (s : Settings) : Prop := ∃ e, ofEntry e = .ok s

variable {s s' : Settings}

lemma Valid.filter_eq (h : s.Valid) :
    ClassFilter.of s.includePatterns s.excludePatterns s.excludeGeneratedClasses =
      .ok s.filter := by
  obtain ⟨e, he⟩ := h
  unfold ofEntry at he
  split at he
  · cases he
  · obtain ⟨filter, hfilter, he⟩ := bind_eq_ok_iff.1 he
    obtain ⟨ruleset, -, he⟩ := bind_eq_ok_iff.1 he
    cases he
    exact mapError_eq_ok_iff.1 hfilter

lemma outputAffecting_inj (h : s.outputAffecting.compact = s'.outputAffecting.compact) :
    s.enabled = s'.enabled ∧ s.includePatterns = s'.includePatterns ∧
      s.excludePatterns = s'.excludePatterns ∧ s.strictMode = s'.strictMode ∧
      s.excludeGeneratedClasses = s'.excludeGeneratedClasses ∧ s.ruleset = s'.ruleset := by
  have hjson := Json.compact_inj (fits_outputAffecting s) (fits_outputAffecting s') h
  have hstrings : Function.Injective Json.strings := Json.list_map_inj Json.string_injective
  simpa only [outputAffecting, Json.record.injEq, List.cons.injEq, Prod.mk.injEq, Json.bool.injEq,
    hstrings.eq_iff, Ruleset.toJson_injective.eq_iff, true_and, and_true] using hjson

theorem weave_eq_of_compact_eq (hs : s.Valid) (hs' : s'.Valid)
    (h : s.outputAffecting.compact = s'.outputAffecting.compact) : s.weave = s'.weave := by
  obtain ⟨henabled, hinclude, hexclude, -, hgenerated, hruleset⟩ := outputAffecting_inj h
  have hfilter := hs.filter_eq
  rw [hinclude, hexclude, hgenerated, hs'.filter_eq] at hfilter
  have hclass : s.weaveClass = s'.weaveClass := by
    funext c
    rw [weaveClass, weaveClass, hruleset]
  funext bytes
  rw [weave, weave, henabled, ← Except.ok.inj hfilter, hclass]

theorem expected?_eq_of_compact_eq (hs : s.Valid) (hs' : s'.Valid)
    (h : s.outputAffecting.compact = s'.outputAffecting.compact) : s.expected? = s'.expected? := by
  have hreplacement : s.replacement? = s'.replacement? := by
    funext name bytes
    rw [replacement?, replacement?, weave_eq_of_compact_eq hs hs' h]
  funext kind bytes
  unfold expected? expectedArchive
  rw [hreplacement]

lemma outputAffecting_eq_of_ofEntry {e : SettingsEntry} {workers : Option Nat} {threshold : Nat}
    {incremental : Bool} (hs : ofEntry e = .ok s)
    (hs' : ofEntry { e with
      maxWorkers := workers
      jarStreamThreshold := threshold
      incrementalEnabled := incremental } = .ok s') :
    s.outputAffecting = s'.outputAffecting := by
  unfold ofEntry at hs hs'
  split at hs
  · cases hs
  split at hs'
  · cases hs'
  obtain ⟨filter, -, hs⟩ := bind_eq_ok_iff.1 hs
  obtain ⟨filter', -, hs'⟩ := bind_eq_ok_iff.1 hs'
  obtain ⟨ruleset, hruleset, hs⟩ := bind_eq_ok_iff.1 hs
  obtain ⟨ruleset', hruleset', hs'⟩ := bind_eq_ok_iff.1 hs'
  obtain rfl : ruleset = ruleset' := Except.ok.inj (hruleset.symm.trans hruleset')
  cases hs
  cases hs'
  rfl

/-- Settings with the same text have the same outcome for every class, and a class that failed goes
through as it is under both or under neither. Settings that differ in nothing but how the work is
done have the same text. -/
theorem outputAffecting_determines {e e' : SettingsEntry} (hs : ofEntry e = .ok s)
    (hs' : ofEntry e' = .ok s') :
    (s.outputAffecting.compact = s'.outputAffecting.compact →
      ∀ bytes, s.weave bytes = s'.weave bytes ∧
        ∀ title, s.handle title bytes = s'.handle title bytes) ∧
    ((∃ workers threshold incremental, e' = { e with
        maxWorkers := workers
        jarStreamThreshold := threshold
        incrementalEnabled := incremental }) →
      s.outputAffecting.compact = s'.outputAffecting.compact) := by
  constructor
  · intro h bytes
    obtain ⟨-, -, -, hstrict, -, -⟩ := outputAffecting_inj h
    have hweave := weave_eq_of_compact_eq ⟨e, hs⟩ ⟨e', hs'⟩ h
    refine ⟨congrFun hweave bytes, fun title => ?_⟩
    rw [handle, handle, hweave, hstrict]
  · rintro ⟨workers, threshold, incremental, rfl⟩
    rw [outputAffecting_eq_of_ofEntry hs hs']

end Settings

def Sample.entry : SettingsEntry where
  includePatterns := ["com.example.*"]
  rules := [⟨"in", .inPackage "com.example", none, .enter ⟨"h", "e"⟩⟩]

theorem Settings.outputAffecting_determines_sample :
    ∃ s s', ofEntry Sample.entry = .ok s ∧
      ofEntry { Sample.entry with maxWorkers := some 2 } = .ok s' ∧
      s.outputAffecting.compact = s'.outputAffecting.compact ∧
      ∀ title bytes, s.handle title bytes = s'.handle title bytes := by
  obtain ⟨s, hs⟩ : ∃ s, ofEntry Sample.entry = .ok s := ⟨_, rfl⟩
  obtain ⟨s', hs'⟩ : ∃ s', ofEntry { Sample.entry with maxWorkers := some 2 } = .ok s' := ⟨_, rfl⟩
  have htext : s.outputAffecting.compact = s'.outputAffecting.compact :=
    (outputAffecting_determines hs hs').2 ⟨some 2, _, _, rfl⟩
  exact ⟨s, s', hs, hs', htext,
    fun title bytes => ((outputAffecting_determines hs hs').1 htext bytes).2 title⟩

end ClassWeaver
