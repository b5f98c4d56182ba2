import ClassWeaver.Proofs.Code.ReplacementBody

namespace ClassWeaver

namespace Descriptor

variable {cs rest : List Char} {k : ValueKind} {kinds done : List ValueKind}

inductive IsType : List Char → ValueKind → Prop
  | letter {c : Char} {k : ValueKind} (h : (c, k) ∈ letters) : IsType [c] k
  | object {name : List Char} (h : ';' ∉ name) : IsType ('L' :: (name ++ [';'])) .reference
  | array {cs : List Char} {k : ValueKind} (h : IsType cs k) : IsType ('[' :: cs) .reference

inductive AreTypes : List Char → List ValueKind → Prop
  | nil : AreTypes [] []
  | cons {cs ds : List Char} {k : ValueKind} {kinds : List ValueKind} (h : IsType cs k)
    (hs : AreTypes ds kinds) : AreTypes (cs ++ ds) (k :: kinds)

inductive IsResult : List Char → Option ValueKind → Prop
  | void : IsResult ['V'] none
  | value {cs : List Char} {k : ValueKind} (h : IsType cs k) : IsResult cs (some k)

def IsMethod (cs : List Char) (signature : Signature) : Prop :=
  ∃ arguments result, cs = '(' :: (arguments ++ ')' :: result) ∧
    AreTypes arguments signature.arguments ∧ IsResult result signature.result

lemma IsType.read (h : IsType cs k) (rest : List Char) :
    readType? (cs ++ rest) = some (k, rest) := by
  induction h with
  | letter h =>
    have hletters : ∀ x ∈ letters, readType? (x.1 :: rest) = some (x.2, rest) := by
      simp [letters, readType?]
    exact hletters _ h
  | @object name h =>
    have hname : ∀ c ∈ name, decide (c ≠ ';') = true := by
      intro c hc
      rw [decide_eq_true_eq]
      rintro rfl
      exact h hc
    have hdrop : (name ++ ';' :: rest).dropWhile (· ≠ ';') = ';' :: rest := by
      rw [List.dropWhile_append_of_pos hname]
      rfl
    rw [List.cons_append, List.append_assoc, List.singleton_append]
    simp only [readType?, hdrop]
  | array _ ih => simp [readType?, ih]

lemma exists_of_readType? (h : readType? cs = some (k, rest)) :
    ∃ front, IsType front k ∧ cs = front ++ rest := by
  induction cs generalizing k rest with
  | nil => cases h
  | cons c cs ih =>
    obtain ⟨c, hcs, hc⟩ | ⟨name, hcs, hname, rfl⟩ | ⟨more, kind, hcs, hmore, rfl⟩ :=
      readType?_cases h
    · exact ⟨[c], .letter hc, hcs⟩
    · exact ⟨_, .object hname, by simpa using hcs⟩
    · cases hcs
      obtain ⟨front, hfront, rfl⟩ := ih hmore
      exact ⟨_, .array hfront, rfl⟩

lemma readType?_eq_some_iff :
    readType? cs = some (k, rest) ↔ ∃ front, IsType front k ∧ cs = front ++ rest := by
  refine ⟨exists_of_readType?, ?_⟩
  rintro ⟨front, h, rfl⟩
  exact h.read rest

lemma IsType.exists_cons (h : IsType cs k) : ∃ c more, cs = c :: more ∧ c ≠ ')' := by
  cases h with
  | @letter c _ h =>
    have hletters : ∀ x ∈ letters, x.1 ≠ ')' := by decide
    exact ⟨c, [], rfl, hletters _ h⟩
  | object => exact ⟨'L', _, rfl, by decide⟩
  | array => exact ⟨'[', _, rfl, by decide⟩

lemma IsType.readArguments? (h : IsType cs k) (rest : List Char) (done : List ValueKind) :
    readArguments? (cs ++ rest) done = Descriptor.readArguments? rest (k :: done) := by
  have hread := h.read rest
  obtain ⟨c, more, rfl, hc⟩ := h.exists_cons
  rw [List.cons_append] at hread ⊢
  rw [Descriptor.readArguments?, if_neg hc]
  split
  · next hnone =>
    rw [hread] at hnone
    cases hnone
  · next hsome =>
    rw [hread] at hsome
    cases hsome
    rfl

lemma AreTypes.read (h : AreTypes cs kinds) (rest : List Char) (done : List ValueKind) :
    readArguments? (cs ++ ')' :: rest) done = some (done.reverse ++ kinds, rest) := by
  induction h generalizing done with
  | nil => rw [List.nil_append, readArguments?, if_pos rfl, List.append_nil]
  | cons h _ ih =>
    rw [List.append_assoc, h.readArguments?, ih, List.reverse_cons, List.append_assoc]
    rfl

lemma exists_of_readArguments? (h : readArguments? cs done = some (kinds, rest)) :
    ∃ front ks, AreTypes front ks ∧ kinds = done.reverse ++ ks ∧ cs = front ++ ')' :: rest := by
  induction cs, done using readArguments?.induct with
  | case1 done =>
    rw [readArguments?] at h
    cases h
  | case2 done cs =>
    rw [readArguments?, if_pos rfl] at h
    cases h
    exact ⟨[], [], .nil, (List.append_nil _).symm, rfl⟩
  | case3 done c cs hc hnone =>
    rw [readArguments?, if_neg hc] at h
    split at h
    · cases h
    · next hsome =>
      rw [hnone] at hsome
      cases hsome
  | case4 done c cs hc k rest' hk ih =>
    obtain ⟨front, hfront, hcs⟩ := exists_of_readType? hk
    rw [hcs, hfront.readArguments?] at h
    obtain ⟨front', ks, hfront', rfl, rfl⟩ := ih h
    refine ⟨front ++ front', k :: ks, .cons hfront hfront', ?_, ?_⟩
    · rw [List.reverse_cons, List.append_assoc]
      rfl
    · rw [hcs, List.append_assoc]

lemma readArguments?_eq_some_iff :
    readArguments? cs [] = some (kinds, rest) ↔
      ∃ front, AreTypes front kinds ∧ cs = front ++ ')' :: rest := by
  constructor
  · intro h
    obtain ⟨front, _, hfront, rfl, hcs⟩ := exists_of_readArguments? h
    exact ⟨front, hfront, hcs⟩
  · rintro ⟨front, h, rfl⟩
    exact h.read rest []

lemma readType?_eq_nil_iff : readType? cs = some (k, []) ↔ IsType cs k := by
  simp [readType?_eq_some_iff]

lemma field?_eq_some_iff {text : String} : field? text = some k ↔ IsType text.toList k := by
  rw [← readType?_eq_nil_iff, field?]
  split
  · next k' h => simp [h]
  · next hne => simpa using hne k

def readResult? (cs : List Char) : Option (Option ValueKind) :=
  if cs = ['V'] then some none
  else
    match readType? cs with
    | some (k, []) => some (some k)
    | _ => none

lemma readResult?_eq_some_iff {result : Option ValueKind} :
    readResult? cs = some result ↔ IsResult cs result := by
  unfold readResult?
  split
  · next hvoid =>
    subst hvoid
    constructor
    · rintro ⟨⟩
      exact .void
    · intro h
      cases h with
      | void => rfl
      | value h =>
        -- no type begins with this letter
        cases readType?_eq_nil_iff.2 h
  · next hvoid =>
    constructor
    · intro h
      split at h
      · next k hk =>
        cases h
        exact .value (readType?_eq_nil_iff.1 hk)
      · cases h
    · intro h
      cases h with
      | void => exact absurd rfl hvoid
      | value h => rw [readType?_eq_nil_iff.2 h]

lemma method?_eq {text : String} (htext : text.toList = '(' :: cs) :
    method? text =
      (readArguments? cs []).bind fun (arguments, rest) =>
        (readResult? rest).map (Signature.mk arguments) := by
  simp only [method?, htext]
  cases readArguments? cs [] with
  | none => rfl
  | some x =>
    obtain ⟨arguments, rest⟩ := x
    rw [Option.bind_some, readResult?]
    dsimp only
    split
    · next h =>
      cases h
      rfl
    · next hne h =>
      cases h
      rw [if_neg hne]
      obtain _ | ⟨k, _ | _⟩ := readType? rest <;> rfl
    · next h => cases h

lemma method?_eq_some_iff {text : String} {signature : Signature} :
    method? text = some signature ↔ IsMethod text.toList signature := by
  constructor
  · intro h
    obtain ⟨cs, htext⟩ : ∃ cs, text.toList = '(' :: cs := by
      unfold method? at h
      split at h
      · next cs htext => exact ⟨cs, htext⟩
      · cases h
    rw [method?_eq htext, Option.bind_eq_some_iff] at h
    obtain ⟨⟨kinds, rest⟩, hread, h⟩ := h
    obtain ⟨result, hresult, rfl⟩ := Option.map_eq_some_iff.1 h
    obtain ⟨arguments, harguments, rfl⟩ := readArguments?_eq_some_iff.1 hread
    exact ⟨arguments, rest, htext, harguments, readResult?_eq_some_iff.1 hresult⟩
  · rintro ⟨arguments, rest, htext, harguments, hresult⟩
    rw [method?_eq htext, readArguments?_eq_some_iff.2 ⟨arguments, harguments, rfl⟩,
      Option.bind_some]
    dsimp only
    rw [readResult?_eq_some_iff.2 hresult]
    rfl

/-- The readers accept what the grammar has and nothing else, and each of them leaves what stands
behind its own characters. -/
theorem reads_grammar :
    (∀ (text : String) (k : ValueKind), field? text = some k ↔ IsType text.toList k) ∧
    (∀ (text : String) (signature : Signature),
      method? text = some signature ↔ IsMethod text.toList signature) ∧
    (∀ (cs rest : List Char) (k : ValueKind),
      readType? cs = some (k, rest) ↔ ∃ front, IsType front k ∧ cs = front ++ rest) ∧
    ∀ (cs rest : List Char) (kinds : List ValueKind),
      readArguments? cs [] = some (kinds, rest) ↔
        ∃ front, AreTypes front kinds ∧ cs = front ++ ')' :: rest :=
  ⟨fun _ _ => field?_eq_some_iff, fun _ _ => method?_eq_some_iff,
    fun _ _ _ => readType?_eq_some_iff, fun _ _ _ => readArguments?_eq_some_iff⟩

example : method? "(I[La)b;J)V" = some ⟨[.int, .reference, .long], none⟩ := by decide +kernel

end Descriptor

end ClassWeaver
