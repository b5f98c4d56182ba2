/-!
Paths as texts. A path is a front, which is a slash for an absolute path or a lone dot, and the parts
between its slashes; empty parts and dots say nothing.
-/

namespace ClassWeaver

namespace Path

def pieces (cs : List Char) : List (List Char) :=
  cs.foldr
    (fun c ps =>
      if c = '/' then [] :: ps
      else
        match ps with
        | p :: ps => (c :: p) :: ps
        | [] => [[c]])
    [[]]

def join (ps : List (List Char)) : List Char := List.intercalate ['/'] ps

theorem pieces_ne_nil (cs : List Char) : pieces cs ≠ [] := by
  cases cs with
  | nil => simp [pieces]
  | cons c cs =>
    simp only [pieces, List.foldr_cons]
    split
    · simp
    · split <;> simp

theorem join_pieces (cs : List Char) : join (pieces cs) = cs := by
  induction cs with
  | nil => rfl
  | cons c cs ih =>
    have step : pieces (c :: cs) =
        if c = '/' then [] :: pieces cs
        else
          match pieces cs with
          | p :: ps => (c :: p) :: ps
          | [] => [[c]] := rfl
    cases h : pieces cs with
    | nil => exact absurd h (pieces_ne_nil cs)
    | cons p ps =>
      rw [h] at ih
      rw [step, h]
      by_cases hc : c = '/'
      · subst hc
        simp only [if_true]
        rw [← ih]
        simp [join]
      · simp only [hc, if_false]
        rw [← ih]
        cases ps <;> simp [join]

def split : List Char → List Char × List Char
  | '/' :: rest => (['/'], rest)
  | ['.'] => (['.'], [])
  | '.' :: '/' :: rest => (['.'], '/' :: rest)
  | cs => ([], cs)

def isIdle (part : List Char) : Bool := part = [] || part = ['.']

def backwards (body : List Char) : List (List Char) :=
  (pieces body).reverse.dropWhile isIdle

def parent? (path : String) : Option String :=
  let (front, body) := split path.toList
  match backwards body with
  | [] => if front = ['.'] then some "" else none
  | _ :: before => some (String.ofList (front ++ join (before.dropWhile isIdle).reverse))

def fileName? (path : String) : Option String :=
  match backwards (split path.toList).2 with
  | [] => none
  | name :: _ => if name = ['.', '.'] then none else some (String.ofList name)

/-- The front and the parts that say something, with a slash between any two. -/
def canonical (path : String) : String :=
  let (front, body) := split path.toList
  let parts := (pieces body).filter fun part => !isIdle part
  String.ofList (join (if front = [] then parts else front :: parts))

def isAbsolute (path : String) : Bool := path.toList.head? = some '/'

def append (base path : String) : String :=
  if isAbsolute path then path
  else if base.isEmpty || base.toList.getLast? = some '/' then base ++ path
  else base ++ "/" ++ path

/-- The parts of a name before and after its last dot. A name that begins with its only dot has none
to speak of. -/
def cutName (name : List Char) : List Char × Option (List Char) :=
  if name = ['.', '.'] then (name, none)
  else
    match name.reverse.dropWhile (· ≠ '.') with
    | [] | [_] => (name, none)
    | _ :: before => (before.reverse, some ((name.reverse.takeWhile (· ≠ '.')).reverse))

def fileStem? (path : String) : Option String :=
  (fileName? path).map fun name => String.ofList (cutName name.toList).1

def extension? (path : String) : Option String :=
  (fileName? path).bind fun name => (cutName name.toList).2.map String.ofList

def ancestors (path : String) : List String :=
  go path.length path
where
  go : Nat → String → List String
  | 0, path => [path]
  | n + 1, path =>
    match parent? path with
    | none => [path]
    | some p => path :: go n p

end Path

end ClassWeaver
