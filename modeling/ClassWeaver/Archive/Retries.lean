import ClassWeaver.Failure

namespace ClassWeaver

inductive ReadMode where
  | inMemory
  | streaming
  deriving DecidableEq, Repr

def ReadMode.of (size threshold : Nat) : ReadMode :=
  if threshold < size then .streaming else .inMemory

def retryRead {m : Type → Type} [Monad m] {α : Type} (what : String)
    (attempt : m (Except String α)) : m (Except IoFault α) := do
  match ← attempt with
  | .ok a => return .ok a
  | .error _ =>
    match ← attempt with
    | .ok a => return .ok a
    | .error reason => return .error ⟨.read, s!"{what}: {reason}"⟩

end ClassWeaver
