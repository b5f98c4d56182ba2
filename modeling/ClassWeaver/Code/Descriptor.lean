import ClassWeaver.Code.StackType

namespace ClassWeaver

namespace Descriptor

def readType? : List Char → Option (ValueKind × List Char)
  | [] => none
  | c :: rest =>
    match c with
    | 'J' => some (.long, rest)
    | 'D' => some (.double, rest)
    | 'F' => some (.float, rest)
    | 'B' | 'C' | 'I' | 'S' | 'Z' => some (.int, rest)
    | 'L' =>
      match rest.dropWhile (· ≠ ';') with
      | _ :: rest => some (.reference, rest)
      | [] => none
    | '[' => (readType? rest).map fun (_, rest) => (.reference, rest)
    | _ => none

theorem length_lt_of_readType? {cs rest : List Char} {k : ValueKind}
    (h : readType? cs = some (k, rest)) : rest.length < cs.length := by
  induction cs generalizing k rest with
  | nil => cases h
  | cons c cs ih =>
    unfold readType? at h
    have drop : ∀ p : Char → Bool, (cs.dropWhile p).length ≤ cs.length := fun p =>
      (List.dropWhile_sublist p).length_le
    split at h
    all_goals try (cases h; exact Nat.lt_succ_self _)
    · split at h
      · next hd =>
        cases h
        have := drop (· ≠ ';')
        rw [hd] at this
        simp only [List.length_cons] at this ⊢
        omega
      · cases h
    · simp only [Option.map_eq_some_iff, Prod.exists, Prod.mk.injEq] at h
      obtain ⟨k', rest', h, -, rfl⟩ := h
      have := ih h
      simp only [List.length_cons]
      omega
    · cases h

def field? (text : String) : Option ValueKind :=
  match readType? text.toList with
  | some (k, []) => some k
  | _ => none

def readArguments? (cs : List Char) (done : List ValueKind) :
    Option (List ValueKind × List Char) :=
  match cs with
  | [] => none
  | c :: rest =>
    if c = ')' then some (done.reverse, rest)
    else
      match _h : readType? (c :: rest) with
      | none => none
      | some (k, rest') =>
        readArguments? rest' (k :: done)
  termination_by cs.length
  decreasing_by
    have := length_lt_of_readType? _h
    simpa only [List.length_cons] using this

structure Signature where
  arguments : List ValueKind
  result : Option ValueKind
  deriving DecidableEq, Repr

def method? (text : String) : Option Signature :=
  match text.toList with
  | '(' :: cs =>
    match readArguments? cs [] with
    | some (arguments, ['V']) => some ⟨arguments, none⟩
    | some (arguments, cs) =>
      match readType? cs with
      | some (k, []) => some ⟨arguments, some k⟩
      | _ => none
    | none => none
  | _ => none

/-- What follows the last closing parenthesis. -/
def result? (text : String) : Option String :=
  let reversed := text.toList.reverse
  match reversed.dropWhile (· ≠ ')') with
  | [] => none
  | _ => some (String.ofList (reversed.takeWhile (· ≠ ')')).reverse)

end Descriptor

end ClassWeaver
