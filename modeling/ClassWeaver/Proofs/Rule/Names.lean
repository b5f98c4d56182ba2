import Mathlib.Data.List.DropRight
import ClassWeaver.Proofs.Text.Segments
import ClassWeaver.Rule.Set

/-! What becomes of the names in rules that are accepted. What stands between dots and slashes may be
empty: such a name is no name of a class, and neither is what is stored for it. -/

namespace ClassWeaver

section Stripping

variable {p : Char → Bool} {cs : List Char}

def IsTrimmed (p : Char → Bool) (cs : List Char) : Prop :=
  ∀ c, c ∈ cs.head? ∨ c ∈ cs.getLast? → p c = false

lemma eq_false_of_mem_head?_dropWhile {c : Char} (h : c ∈ (cs.dropWhile p).head?) :
    p c = false := by
  rw [← List.find?_not_eq_head?_dropWhile] at h
  simpa using List.find?_some h

lemma isTrimmed_stripWhile : IsTrimmed p (stripWhile p cs) := by
  have hprefix : stripWhile p cs <+: cs.dropWhile p := List.rdropWhile_prefix p _
  rintro c (hc | hc)
  · obtain ⟨rest, hrest⟩ := hprefix
    apply @eq_false_of_mem_head?_dropWhile p cs
    rw [← hrest]
    exact List.mem_head?_append_of_mem_head? hc
  · rw [stripWhile, List.getLast?_reverse] at hc
    exact eq_false_of_mem_head?_dropWhile hc

lemma stripWhile_sublist : (stripWhile p cs).Sublist cs :=
  (List.rdropWhile_prefix p _).sublist.trans (List.dropWhile_sublist p)

lemma stripWhile_eq_self_iff : stripWhile p cs = cs ↔ IsTrimmed p cs := by
  constructor
  · intro h
    rw [← h]
    exact isTrimmed_stripWhile
  · intro h
    have hfront : cs.dropWhile p = cs := by
      cases cs with
      | nil => rfl
      | cons c cs => exact List.dropWhile_cons_of_neg (by simp [h c (.inl rfl)])
    change List.rdropWhile p (cs.dropWhile p) = cs
    rw [hfront, List.rdropWhile_eq_self_iff]
    intro hne
    simp [h _ (.inr (List.getLast?_eq_getLast_of_ne_nil hne))]

end Stripping

namespace InternalName

open ClassWeaver.Path

variable {rule name given stored : String} {cs : List Char}

def IsSeparator (c : Char) : Prop := c = '.' ∨ c = '/'

lemma normalize_eq_ok_iff : normalize rule name = .ok stored ↔
    bare name.toList ≠ [] ∧ (∀ c ∈ bare name.toList, isForbidden c = false) ∧
      stored = String.ofList (withSlashes (bare name.toList)) := by
  have hfits : ¬ ((bare name.toList).isEmpty || (bare name.toList).any isForbidden) = true ↔
      bare name.toList ≠ [] ∧ ∀ c ∈ bare name.toList, isForbidden c = false := by simp
  unfold normalize
  dsimp only
  rw [← and_assoc, ← hfits]
  split
  · next h => simp [h]
  · next h => simp [h, eq_comm]

/-- What a name that is accepted comes to. Where something between its dots and slashes is empty, or
blank and at an end, it is no name of a class, or not the same when it is brought to this form once
more. -/
structure Becomes (given stored : String) : Prop where
  eq : stored = String.ofList (withSlashes (bare given.toList))
  clean : ∀ c ∈ stored.toList, isForbidden c = false ∧ c ≠ '.'
  isSegmented_iff : IsSegmented stored.toList ↔
    (bare given.toList).head? ≠ some '.' ∧ (bare given.toList).getLast? ≠ some '.' ∧
      (bare given.toList).IsChain fun c d => ¬ (IsSeparator c ∧ IsSeparator d)
  again_iff : ∀ rule, normalize rule stored = .ok stored ↔
    IsTrimmed (fun c => isBlank c || c = '/') stored.toList

lemma slash_iff {c : Char} : (if c = '.' then '/' else c) = '/' ↔ IsSeparator c := by
  unfold IsSeparator
  split <;> simp_all

lemma isSegmented_withSlashes (hne : cs ≠ []) (htrimmed : IsTrimmed (· = '/') cs) :
    IsSegmented (withSlashes cs) ↔ cs.head? ≠ some '.' ∧ cs.getLast? ≠ some '.' ∧
      cs.IsChain fun c d => ¬ (IsSeparator c ∧ IsSeparator d) := by
  -- At the ends only a dot can become a slash.
  have hend : ∀ o : Option Char, (∀ c ∈ o, decide (c = '/') = false) →
      (o.map (fun c => if c = '.' then '/' else c) = some '/' ↔ o = some '.') := by
    intro o ho
    cases o with
    | none => simp
    | some c =>
      have hc : c ≠ '/' := by simpa using ho c rfl
      simp [hc]
  rw [isSegmented_iff, withSlashes, List.head?_map, List.getLast?_map, List.isChain_map, ne_eq, ne_eq,
    ne_eq, hend _ fun c hc => htrimmed c (.inl hc), hend _ fun c hc => htrimmed c (.inr hc)]
  simp only [slash_iff, List.map_eq_nil_iff, hne, not_false_eq_true, true_and, ne_eq]

lemma withSlashes_of_notMem (h : '.' ∉ cs) : withSlashes cs = cs := by
  refine (List.map_congr_left fun c hc => if_neg ?_).trans (List.map_id cs)
  exact fun hdot => h (hdot ▸ hc)

lemma bare_of_notMem (h : '*' ∉ cs) : bare cs = stripWhile (· = '/') (trimBlank cs) := by
  have hdrop : ∀ ds : List Char, '*' ∉ ds → dropStars ds = ds := by
    intro ds hds
    unfold dropStars
    split
    · simp at hds
    · rfl
  rw [bare, hdrop, List.reverse_reverse]
  rw [List.mem_reverse]
  exact fun hmem => h (stripWhile_sublist.mem hmem)

lemma bare_eq_self_iff (h : '*' ∉ cs) :
    bare cs = cs ↔ IsTrimmed (fun c => isBlank c || c = '/') cs := by
  have hboth : IsTrimmed (fun c => isBlank c || c = '/') cs ↔
      IsTrimmed isBlank cs ∧ IsTrimmed (· = '/') cs := by
    simp only [IsTrimmed, Bool.or_eq_false_iff, forall_and]
  rw [bare_of_notMem h, hboth, ← stripWhile_eq_self_iff, ← stripWhile_eq_self_iff]
  constructor
  · intro hsame
    have hsub : (stripWhile (· = '/') (trimBlank cs)).Sublist (trimBlank cs) := stripWhile_sublist
    rw [hsame] at hsub
    have hblank : trimBlank cs = cs := stripWhile_sublist.antisymm hsub
    rw [hblank] at hsame
    exact ⟨hblank, hsame⟩
  · rintro ⟨hblank, hslash⟩
    rw [show trimBlank cs = cs from hblank, hslash]

lemma normalize_eq_self_iff (hne : cs ≠ []) (hcs : ∀ c ∈ cs, isForbidden c = false ∧ c ≠ '.') :
    normalize rule (String.ofList cs) = .ok (String.ofList cs) ↔
      IsTrimmed (fun c => isBlank c || c = '/') cs := by
  have hstar : '*' ∉ cs := fun hmem => absurd (hcs _ hmem).1 (by decide)
  have hdot : '.' ∉ bare cs := by
    rw [bare_of_notMem hstar]
    exact fun hmem => (hcs _ (stripWhile_sublist.mem (stripWhile_sublist.mem hmem))).2 rfl
  rw [normalize_eq_ok_iff, String.toList_ofList, withSlashes_of_notMem hdot, String.ofList_inj,
    ← bare_eq_self_iff hstar]
  constructor
  · rintro ⟨-, -, hsame⟩
    exact hsame.symm
  · intro hsame
    rw [hsame]
    exact ⟨hne, fun c hc => (hcs c hc).1, rfl⟩

lemma becomes_of_normalize (h : normalize rule given = .ok stored) : Becomes given stored := by
  obtain ⟨hne, hclean, rfl⟩ := normalize_eq_ok_iff.1 h
  have hcs : ∀ c ∈ withSlashes (bare given.toList), isForbidden c = false ∧ c ≠ '.' := by
    intro c hc
    obtain ⟨d, hd, rfl⟩ := List.mem_map.1 hc
    by_cases hdot : d = '.'
    · rw [if_pos hdot]
      decide
    · rw [if_neg hdot]
      exact ⟨hclean d hd, hdot⟩
  have hne' : withSlashes (bare given.toList) ≠ [] := by simpa [withSlashes] using hne
  refine ⟨rfl, ?_, ?_, ?_⟩
  · rwa [String.toList_ofList]
  · rw [String.toList_ofList]
    exact isSegmented_withSlashes hne isTrimmed_stripWhile
  · intro again
    rw [String.toList_ofList]
    exact normalize_eq_self_iff hne' hcs

inductive TypeBecomes : String → String → Prop
  | descriptor {given : String} (h : isDescriptor (trimBlank given.toList) = true) :
      TypeBecomes given (trimmed given)
  | name {given stored : String} (h : isDescriptor (trimBlank given.toList) = false)
      (hname : Becomes (String.ofList ((trimBlank given.toList).dropWhile (· = '@'))) stored) :
      TypeBecomes given ("L" ++ (stored ++ ";"))

lemma becomes_of_normalizeType (h : normalizeType rule given = .ok stored) :
    TypeBecomes given stored := by
  unfold normalizeType at h
  dsimp only at h
  split at h
  · next hdescriptor =>
    cases h
    exact .descriptor hdescriptor
  · next hname =>
    obtain ⟨inner, hinner, rfl⟩ := map_eq_ok_iff.1 h
    have htext : String.ofList ('L' :: (inner.toList ++ [';'])) = "L" ++ (inner ++ ";") := by
      apply String.toList_inj.1
      simp
    rw [htext]
    exact .name (by simpa using hname) (becomes_of_normalize hinner)

end InternalName

open InternalName

section Parts

variable {rule : String}

inductive ClassPredicate.Becomes : ClassPredicate → ClassPredicate → Prop
  | named {given stored : String} (h : InternalName.Becomes given stored) :
      Becomes (named given) (named stored)
  | inPackage {given stored : String} (h : InternalName.Becomes given stored) :
      Becomes (inPackage given) (inPackage (stored ++ "/"))
  | annotated {given stored : String} (h : TypeBecomes given stored) :
      Becomes (annotated given) (annotated stored)

lemma ClassPredicate.becomes_of_normalize {p q : ClassPredicate} (h : p.normalize rule = .ok q) :
    p.Becomes q := by
  cases p with
  | named name =>
    rw [normalize] at h
    obtain ⟨stored, hstored, rfl⟩ := map_eq_ok_iff.1 h
    exact .named (InternalName.becomes_of_normalize hstored)
  | inPackage name =>
    rw [normalize] at h
    obtain ⟨stored, hstored, rfl⟩ := map_eq_ok_iff.1 h
    exact .inPackage (InternalName.becomes_of_normalize hstored)
  | annotated type =>
    rw [normalize] at h
    obtain ⟨stored, hstored, rfl⟩ := map_eq_ok_iff.1 h
    exact .annotated (becomes_of_normalizeType hstored)

structure Selector.Becomes (s t : Selector) : Prop where
  annotated : Option.Rel TypeBecomes s.annotated t.annotated
  others : t = { s with annotated := t.annotated }

lemma Selector.becomes_of_normalize {s t : Selector} (h : s.normalize rule = .ok t) :
    s.Becomes t := by
  unfold normalize at h
  split at h
  · next hnone =>
    cases h
    exact ⟨by rw [hnone]; exact .none, rfl⟩
  · next type htype =>
    obtain ⟨stored, hstored, rfl⟩ := map_eq_ok_iff.1 h
    exact ⟨by rw [htype]; exact .some (becomes_of_normalizeType hstored), rfl⟩

structure Hook.Becomes (given stored : Hook) : Prop where
  owner : InternalName.Becomes given.owner stored.owner
  method : stored.method = given.method

lemma Hook.becomes_of_normalize {given stored : Hook} (h : given.normalize rule = .ok stored) :
    given.Becomes stored := by
  rw [normalize] at h
  obtain ⟨owner, howner, h⟩ := bind_eq_ok_iff.1 h
  split at h
  · cases h
    exact ⟨InternalName.becomes_of_normalize howner, rfl⟩
  · cases h

inductive RuleAction.Becomes : RuleAction → RuleAction → Prop
  | enter {given stored : Hook} (h : given.Becomes stored) : Becomes (enter given) (enter stored)
  | exit {given stored : Hook} (h : given.Becomes stored) : Becomes (exit given) (exit stored)
  | replace : Becomes replace replace

lemma RuleAction.becomes_of_normalize {a b : RuleAction} (h : a.normalize rule = .ok b) :
    a.Becomes b := by
  cases a with
  | enter hook =>
    rw [normalize] at h
    obtain ⟨stored, hstored, rfl⟩ := map_eq_ok_iff.1 h
    exact .enter (Hook.becomes_of_normalize hstored)
  | exit hook =>
    rw [normalize] at h
    obtain ⟨stored, hstored, rfl⟩ := map_eq_ok_iff.1 h
    exact .exit (Hook.becomes_of_normalize hstored)
  | replace =>
    cases h
    exact .replace

end Parts

structure Rule.Becomes (e : RuleEntry) (r : Rule) : Prop where
  id : r.id = trimmed e.id
  predicate : e.classes.Becomes r.predicate
  selector : (e.methods.getD Selector.default).Becomes r.selector
  action : e.action.Becomes r.action

lemma Rule.becomes_of_ofEntry {e : RuleEntry} {r : Rule} (h : Rule.ofEntry e = .ok r) :
    Rule.Becomes e r := by
  unfold ofEntry at h
  dsimp only at h
  split at h
  · cases h
  · obtain ⟨predicate, hpredicate, h⟩ := bind_eq_ok_iff.1 h
    obtain ⟨selector, hselector, h⟩ := bind_eq_ok_iff.1 h
    obtain ⟨action, haction, h⟩ := bind_eq_ok_iff.1 h
    cases h
    exact ⟨rfl, ClassPredicate.becomes_of_normalize hpredicate,
      Selector.becomes_of_normalize hselector, RuleAction.becomes_of_normalize haction⟩

namespace Ruleset

lemma becomes_of_collect {entries : List RuleEntry} {done rules : List Rule}
    (h : collect entries done = .ok rules) :
    ∃ new, rules = done.reverse ++ new ∧ List.Forall₂ Rule.Becomes entries new := by
  induction entries generalizing done with
  | nil =>
    cases h
    exact ⟨[], by simp, .nil⟩
  | cons e entries ih =>
    unfold collect at h
    split at h
    · cases h
    next r hr =>
    split at h
    · cases h
    · obtain ⟨new, rfl, hnew⟩ := ih h
      exact ⟨r :: new, by simp, .cons (Rule.becomes_of_ofEntry hr) hnew⟩

end Ruleset

namespace ClassPredicate

lemma exists_holds_iff {p : ClassPredicate} {name : String}
    (h : p = named name ∨ p = inPackage (name ++ "/")) :
    (∃ c : String, IsSegmented c.toList ∧ p.holds c [] = true) ↔ IsSegmented name.toList := by
  rcases h with rfl | rfl
  · constructor
    · rintro ⟨c, hc, hholds⟩
      obtain rfl : c = name := by simpa [holds] using hholds
      exact hc
    · exact fun hname => ⟨name, hname, by simp [holds]⟩
  · constructor
    · rintro ⟨c, hc, hholds⟩
      obtain ⟨rest, hrest⟩ := List.isPrefixOf_iff_prefix.1 hholds
      have htext : c.toList = name.toList ++ '/' :: rest := by simpa using hrest.symm
      rw [htext, isSegmented_append_iff] at hc
      exact hc.1
    · intro hname
      refine ⟨name ++ "/" ++ "a", ?_, ?_⟩
      · have hlist : (name ++ "/" ++ "a").toList = name.toList ++ '/' :: ['a'] := by simp
        rw [hlist, isSegmented_append_iff]
        exact ⟨hname, [['a']], by decide, by decide, rfl⟩
      · exact List.isPrefixOf_iff_prefix.2 ⟨['a'], by simp⟩

end ClassPredicate

/-- Rules that are accepted are their entries with each name brought to the form of class files. Such
a name is in segments, and brought to that form once more the same, exactly where nothing between its
dots and slashes is empty and no blank is at an end; and only then can a rule for a class or a package
find a class. -/
theorem Ruleset.ofEntries_becomes {entries : List RuleEntry} {set : Ruleset}
    (h : Ruleset.ofEntries entries = .ok set) :
    List.Forall₂ Rule.Becomes entries set.rules ∧
      ∀ r ∈ set.rules, ∀ name : String,
        r.predicate = .named name ∨ r.predicate = .inPackage (name ++ "/") →
          ((∃ c : String, IsSegmented c.toList ∧ r.predicate.holds c [] = true) ↔
            IsSegmented name.toList) := by
  obtain ⟨rules, hrules, rfl⟩ := map_eq_ok_iff.1 h
  obtain ⟨new, rfl, hnew⟩ := becomes_of_collect hrules
  exact ⟨hnew, fun r _ name hname => ClassPredicate.exists_holds_iff hname⟩

def Sample.dotted : List RuleEntry :=
  [⟨"twice", .named "a..b", none, .enter ⟨"com.example.Tracer", "enter"⟩⟩,
    ⟨"below", .inPackage "com.example.*", some ⟨none, none, some "@com.example.Trace", false⟩,
      .replace⟩]

theorem Ruleset.ofEntries_becomes_sample : ∃ (set : Ruleset) (r : Rule),
    Ruleset.ofEntries Sample.dotted = .ok set ∧ r ∈ set.rules ∧ r.predicate = .named "a//b" ∧
      List.Forall₂ Rule.Becomes Sample.dotted set.rules ∧
      ¬ ∃ c : String, IsSegmented c.toList ∧ r.predicate.holds c [] = true := by
  obtain ⟨set, hset, hmap⟩ : ∃ set, Ruleset.ofEntries Sample.dotted = .ok set ∧
      (set.rules.map (·.predicate)) = [.named "a//b", .inPackage "com/example/"] :=
    map_eq_ok_iff.1 (by decide +kernel)
  obtain ⟨r, rest, hrules, hr, -⟩ := List.map_eq_cons_iff.1 hmap
  have hmem : r ∈ set.rules := hrules ▸ List.mem_cons_self
  obtain ⟨hbecomes, hfinds⟩ := Ruleset.ofEntries_becomes hset
  refine ⟨set, r, hset, hmem, hr, hbecomes, ?_⟩
  rw [hfinds r hmem "a//b" (.inl hr), isSegmented_iff_pieces]
  decide

end ClassWeaver
