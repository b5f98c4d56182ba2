import ClassWeaver.Instrumentation
import ClassWeaver.Proofs.Code.InstructionEncoding

/-! The body that takes the place of a replaced one. It returns a zero value and is accepted over
every pool, but the kind of the value is looked up behind the last closing parenthesis of the
descriptor, and the name of the class that a method returns may have one too. -/

namespace ClassWeaver

namespace Descriptor

variable {cs rest : List Char} {k : ValueKind}

def letters : List (Char × ValueKind) :=
  [('J', .long), ('D', .double), ('F', .float), ('B', .int), ('C', .int), ('I', .int), ('S', .int),
    ('Z', .int)]

lemma readType?_cases (h : readType? cs = some (k, rest)) :
    (∃ c, cs = c :: rest ∧ (c, k) ∈ letters) ∨
    (∃ name, cs = 'L' :: (name ++ ';' :: rest) ∧ ';' ∉ name ∧ k = .reference) ∨
    ∃ more kind, cs = '[' :: more ∧ readType? more = some (kind, rest) ∧ k = .reference := by
  unfold readType? at h
  split at h
  · cases h
  · next c cs =>
    split at h
    case h_9 =>
      split at h
      · next x more hdrop =>
        cases h
        obtain rfl : x = ';' := by
          have hhead := List.head?_dropWhile_not (· ≠ ';') cs
          rw [hdrop] at hhead
          simpa using hhead
        refine .inr (.inl ⟨cs.takeWhile (· ≠ ';'), ?_, fun hmem => ?_, rfl⟩)
        · rw [← hdrop, List.takeWhile_append_dropWhile]
        · simpa using List.all_eq_true.1 List.all_takeWhile _ hmem
      · cases h
    case h_10 =>
      obtain ⟨⟨kind, more⟩, h, he⟩ := Option.map_eq_some_iff.1 h
      cases he
      exact .inr (.inr ⟨cs, kind, rfl, h, rfl⟩)
    case h_11 => cases h
    all_goals
      cases h
      exact .inl ⟨_, rfl, by decide⟩

lemma suffix_of_readType? (h : readType? cs = some (k, rest)) : rest <:+ cs := by
  induction cs generalizing k rest with
  | nil => cases h
  | cons c cs ih =>
    obtain ⟨c, hcs, -⟩ | ⟨name, hcs, -⟩ | ⟨more, kind, hcs, hmore, -⟩ := readType?_cases h
    · exact hcs ▸ List.suffix_cons c rest
    · exact ⟨'L' :: (name ++ [';']), by rw [hcs, List.cons_append, List.append_assoc]; rfl⟩
    · cases hcs
      exact (ih hmore).trans (List.suffix_cons _ _)

lemma eq_reference_of_mem (h : readType? cs = some (k, [])) (hmem : ')' ∈ cs) : k = .reference := by
  obtain ⟨c, rfl, hc⟩ | ⟨_, -, -, rfl⟩ | ⟨_, _, -, -, rfl⟩ := readType?_cases h
  · obtain rfl : ')' = c := List.mem_singleton.1 hmem
    simp [letters] at hc
  · rfl
  · rfl

lemma exists_front_of_readArguments? {kinds done : List ValueKind}
    (h : readArguments? cs done = some (kinds, rest)) : ∃ front, cs = front ++ ')' :: rest := by
  induction cs, done using readArguments?.induct with
  | case1 done =>
    rw [readArguments?] at h
    cases h
  | case2 done cs =>
    rw [readArguments?, if_pos rfl] at h
    cases h
    exact ⟨[], rfl⟩
  | case3 done c cs hc hnone =>
    rw [readArguments?, if_neg hc] at h
    split at h
    · cases h
    · next hsome =>
      rw [hnone] at hsome
      cases hsome
  | case4 done c cs hc k rest' hk ih =>
    rw [readArguments?, if_neg hc] at h
    split at h
    · cases h
    · next hk' =>
      rw [hk] at hk'
      cases hk'
      obtain ⟨front, hrest⟩ := ih h
      obtain ⟨kind, hkind⟩ := suffix_of_readType? hk
      exact ⟨kind ++ front, by rw [← hkind, hrest, List.append_assoc]⟩

def returnType? (text : String) : Option (List Char) :=
  match text.toList with
  | '(' :: cs => (readArguments? cs []).map (·.2)
  | _ => none

lemma method?_cases {text : String} {signature : Signature} (h : method? text = some signature) :
    ∃ front result, text.toList = front ++ ')' :: result ∧ returnType? text = some result ∧
      (result = ['V'] ∧ signature.result = none ∨
        ∃ k, readType? result = some (k, []) ∧ signature.result = some k) := by
  unfold method? at h
  split at h
  · next cs htext =>
    have hresult : returnType? text = (readArguments? cs []).map (·.2) := by
      simp only [returnType?, htext]
    split at h
    · next kinds harguments =>
      obtain ⟨front, hfront⟩ := exists_front_of_readArguments? harguments
      cases h
      exact ⟨'(' :: front, ['V'], by rw [htext, hfront]; rfl, by rw [hresult, harguments]; rfl,
        .inl ⟨rfl, rfl⟩⟩
    · next kinds result hvoid harguments =>
      obtain ⟨front, hfront⟩ := exists_front_of_readArguments? harguments
      split at h
      · next k hk =>
        cases h
        exact ⟨'(' :: front, result, by rw [htext, hfront]; rfl, by rw [hresult, harguments]; rfl,
          .inr ⟨k, hk, rfl⟩⟩
      · cases h
    · cases h
  · cases h

lemma exists_last (hmem : ')' ∈ cs) : ∃ front last, cs = front ++ ')' :: last ∧ ')' ∉ last := by
  obtain ⟨as, bs, hrev, has⟩ := List.eq_append_cons_of_mem (List.mem_reverse.2 hmem)
  refine ⟨bs.reverse, as.reverse, ?_, fun h => has (List.mem_reverse.1 h)⟩
  rw [← List.reverse_reverse cs, hrev, List.reverse_append, List.reverse_cons, List.append_assoc]
  rfl

lemma result?_eq {text : String} {front : List Char} (h : text.toList = front ++ ')' :: cs)
    (hlast : ')' ∉ cs) : result? text = some (String.ofList cs) := by
  have hcs : ∀ c ∈ cs.reverse, decide (c ≠ ')') = true := by
    intro c hc
    rw [decide_eq_true_eq]
    rintro rfl
    exact hlast (List.mem_reverse.1 hc)
  rw [result?, h, List.reverse_append, List.reverse_cons, List.append_assoc,
    List.dropWhile_append_of_pos hcs, List.takeWhile_append_of_pos hcs]
  simp

lemma last_unique {front front' last last' : List Char} (h : cs = front ++ ')' :: last)
    (hlast : ')' ∉ last) (h' : cs = front' ++ ')' :: last') (hlast' : ')' ∉ last') :
    last = last' := by
  have hresult := result?_eq (String.toList_ofList.trans h) hlast
  rw [result?_eq (String.toList_ofList.trans h') hlast', Option.some.injEq] at hresult
  exact (String.ofList_injective hresult).symm

end Descriptor

namespace Opcode

def zero : ValueKind → UInt8
  | .int => iconst0
  | .long => lconst0
  | .float => fconst0
  | .double => dconst0
  | .reference => aconstNull

def returning : Option ValueKind → UInt8
  | none => return_
  | some .int => ireturn
  | some .long => lreturn
  | some .float => freturn
  | some .double => dreturn
  | some .reference => areturn

end Opcode

namespace Code

variable {cs : List Char}

def returningKind (k : Option ValueKind) : Bytes :=
  k.toList.map Opcode.zero ++ [Opcode.returning k]

def returned? (result : List Char) : Option ValueKind :=
  match result with
  | 'V' :: _ => none
  | 'J' :: _ => some .long
  | 'F' :: _ => some .float
  | 'D' :: _ => some .double
  | 'L' :: _ | '[' :: _ => some .reference
  | _ => some .int

lemma returningZero_eq (cs : List Char) : returningZero cs = returningKind (returned? cs) := by
  unfold returningZero
  split
  case h_7 => simp only [returned?, returningKind, Opcode.returning, *]; rfl
  all_goals rfl

lemma returned?_eq_reference_iff :
    returned? cs = some .reference ↔ cs.head? = some 'L' ∨ cs.head? = some '[' := by
  unfold returned?
  split
  case h_7 h1 h2 =>
    refine iff_of_false nofun ?_
    rw [List.head?_eq_some_iff, List.head?_eq_some_iff]
    rintro (⟨rest, rfl⟩ | ⟨rest, rfl⟩)
    · exact h1 rest rfl
    · exact h2 rest rfl
  all_goals simp

lemma returned?_of_readType? {k : ValueKind} {rest : List Char}
    (h : Descriptor.readType? cs = some (k, rest)) : returned? cs = some k := by
  obtain ⟨c, rfl, hc⟩ | ⟨_, rfl, -, rfl⟩ | ⟨_, _, rfl, -, rfl⟩ := Descriptor.readType?_cases h
  · have hletters : ∀ x ∈ Descriptor.letters, returned? (x.1 :: rest) = some x.2 := by
      simp [Descriptor.letters, returned?]
    exact hletters (c, k) hc
  · rfl
  · rfl

lemma decode_zero (k : ValueKind) :
    Instruction.decode [Opcode.zero k, Opcode.returning (some k)] =
      .ok [⟨0, Opcode.zero k, .plain []⟩, ⟨1, Opcode.returning (some k), .plain []⟩] := by
  have hzero : Operand.read? (Opcode.zero k) 0 [Opcode.returning (some k)] =
      some (.plain [], [Opcode.returning (some k)]) := by
    cases k <;> rfl
  have hreturn : Operand.read? (Opcode.returning (some k)) 1 [] = some (.plain [], []) := by
    cases k <;> rfl
  rw [Instruction.decode, Instruction.decodeFrom_cons hzero]
  refine (Instruction.decodeFrom_cons hreturn _).trans ?_
  rw [Instruction.decodeFrom]
  rfl

lemma decode_return :
    Instruction.decode [Opcode.return_] = .ok [⟨0, Opcode.return_, .plain []⟩] := by
  have hreturn : Operand.read? Opcode.return_ 0 [] = some (.plain [], []) := rfl
  rw [Instruction.decode]
  refine (Instruction.decodeFrom_cons hreturn _).trans ?_
  rw [Instruction.decodeFrom]
  rfl

lemma check_returningKind (pool : Pool) (maxLocals : UInt16) (k : Option ValueKind) :
    Body.check pool ⟨⟨0, maxLocals, returningKind k, [], []⟩, []⟩ =
      .ok ((k.map ValueKind.width).getD 0) := by
  cases k with
  | none =>
    have hd : Instruction.decode (returningKind none) = _ := decode_return
    unfold Body.check
    simp only [hd]
    rfl
  | some k =>
    have hd : Instruction.decode (returningKind (some k)) = _ := decode_zero k
    unfold Body.check
    simp only [hd]
    cases k <;> rfl

/-- In the place of a replaced body a value of some kind is returned, and the depth is what that
kind takes. It is the kind of the descriptor unless the name of the class that the method returns
has a parenthesis, with something else than a reference behind the last one. -/
theorem ofDescriptor_returns {descriptor : String} {signature : Descriptor.Signature}
    (h : Descriptor.method? descriptor = some signature) (maxLocals : UInt16) (pool : Pool) :
    ∃ result code returned, Descriptor.returnType? descriptor = some result ∧
      ofDescriptor descriptor maxLocals = .ok code ∧
      code.bytes.getLast? = some (Opcode.returning returned) ∧
      Body.check pool ⟨code, []⟩ = .ok ((returned.map ValueKind.width).getD 0) ∧
      (returned = signature.result ↔
        ∀ front last, result = front ++ ')' :: last → ')' ∉ last →
          last.head? = some 'L' ∨ last.head? = some '[') := by
  obtain ⟨front, result, htext, hresult, hkind⟩ := Descriptor.method?_cases h
  have hof (last : List Char) (hlast : Descriptor.result? descriptor = some (String.ofList last)) :
      ofDescriptor descriptor maxLocals =
        .ok ⟨0, maxLocals, returningKind (returned? last), [], []⟩ := by
    rw [ofDescriptor, hlast]
    dsimp only
    rw [String.toList_ofList, returningZero_eq]
  have hlast (k : Option ValueKind) :
      (returningKind k).getLast? = some (Opcode.returning k) := List.getLast?_concat
  by_cases hmem : ')' ∈ result
  · obtain ⟨middle, last, rfl, hnone⟩ := Descriptor.exists_last hmem
    have hsplit : descriptor.toList = (front ++ ')' :: middle) ++ ')' :: last := by
      rw [htext, List.append_assoc]
      rfl
    refine ⟨_, _, returned? last, hresult, hof last (Descriptor.result?_eq hsplit hnone),
      hlast _, check_returningKind pool maxLocals _, ?_⟩
    -- a type with a parenthesis in it is that of a class, or of an array of such
    have hreference : signature.result = some .reference := by
      obtain ⟨hvoid, -⟩ | ⟨k, hk, hsome⟩ := hkind
      · rw [hvoid] at hmem
        cases List.mem_singleton.1 hmem
      · rw [hsome, Descriptor.eq_reference_of_mem hk hmem]
    rw [hreference, returned?_eq_reference_iff]
    constructor
    · intro hhead front' last' he hnone'
      rwa [Descriptor.last_unique he hnone' rfl hnone]
    · intro hall
      exact hall middle last rfl hnone
  · refine ⟨result, _, returned? result, hresult, hof result (Descriptor.result?_eq htext hmem),
      hlast _, check_returningKind pool maxLocals _, iff_of_true ?_ ?_⟩
    · obtain ⟨rfl, hvoid⟩ | ⟨k, hk, hsome⟩ := hkind
      · exact hvoid.symm
      · exact (returned?_of_readType? hk).trans hsome.symm
    · rintro front last rfl -
      exact absurd (List.mem_append_right _ List.mem_cons_self) hmem

theorem ofDescriptor_returns_sample :
    Descriptor.method? "(J)La;" = some ⟨[.long], some .reference⟩ ∧
    (∃ code, ofDescriptor "(J)La;" 3 = .ok code ∧ code.bytes.getLast? = some Opcode.areturn ∧
      Body.check ⟨#[], 0, []⟩ ⟨code, []⟩ = .ok 1) ∧
    Descriptor.method? "()La)I;" = some ⟨[], some .reference⟩ ∧
    ∃ code returned, ofDescriptor "()La)I;" 1 = .ok code ∧
      code.bytes.getLast? = some (Opcode.returning returned) ∧ returned ≠ some .reference := by
  have plain : Descriptor.method? "(J)La;" = some ⟨[.long], some .reference⟩ := by decide +kernel
  have odd : Descriptor.method? "()La)I;" = some ⟨[], some .reference⟩ := by decide +kernel
  have plainType : Descriptor.returnType? "(J)La;" = some ['L', 'a', ';'] := by decide +kernel
  have oddType : Descriptor.returnType? "()La)I;" = some ['L', 'a', ')', 'I', ';'] := by
    decide +kernel
  obtain ⟨result, code, returned, htype, hof, hlast, hcheck, hkind⟩ :=
    ofDescriptor_returns plain 3 ⟨#[], 0, []⟩
  obtain ⟨result', code', returned', htype', hof', hlast', -, hkind'⟩ :=
    ofDescriptor_returns odd 1 ⟨#[], 0, []⟩
  obtain rfl := Option.some.inj (plainType.symm.trans htype)
  obtain rfl := Option.some.inj (oddType.symm.trans htype')
  have hreturned : returned = some .reference := by
    refine hkind.2 fun front last he => ?_
    have hmem : ')' ∈ ['L', 'a', ';'] := he ▸ List.mem_append_right _ List.mem_cons_self
    exact absurd hmem (by decide)
  subst hreturned
  refine ⟨plain, ⟨code, hof, hlast, hcheck⟩, odd, code', returned', hof', hlast', fun he => ?_⟩
  have h := hkind'.1 he ['L', 'a'] ['I', ';'] rfl (by decide)
  exact absurd h (by decide)

end Code

end ClassWeaver
