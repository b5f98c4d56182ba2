import ClassWeaver.Glob.Basic

namespace ClassWeaver

namespace Glob

def rangeBytes (low high : Char) : List (UInt8 × UInt8) :=
  if low = high then (String.utf8EncodeChar low).map fun b => (b, b)
  else
    match (String.utf8EncodeChar low).reverse, String.utf8EncodeChar high with
    | l :: ls, h :: hs => (ls.reverse.map fun b => (b, b)) ++ (l, h) :: hs.map fun b => (b, b)
    | _, _ => []

inductive ClassResult where
  | closed (ranges : List (Char × Char)) (rest : List Char)
  | unclosed
  | backwards
  deriving Repr

/-- The members of a class up to the bracket that closes it; `dash` tells that a range is begun. The
last member comes first in what is done. A bracket or a dash at the beginning is a member. -/
def classMembers : List Char → Bool → List (Char × Char) → ClassResult
  | [], _, _ => .unclosed
  | c :: rest, dash, done =>
    match done with
    | [] => classMembers rest false [(c, c)]
    | (low, high) :: before =>
      if c = ']' then .closed (if dash then ('-', '-') :: done else done) rest
      else if dash then
        if c < low then .backwards else classMembers rest false ((low, c) :: before)
      else if c = '-' then classMembers rest true done
      else classMembers rest false ((c, c) :: (low, high) :: before)

structure Reading where
  branch : List Token
  /-- For each open brace, innermost first: the branches that are complete, last first, and what
  stands before the brace. -/
  opened : List (List (List Token) × List Token)
  before : Option Char
  /-- Brackets stand for themselves from the first on that is not closed. -/
  plainBrackets : Bool

namespace Reading

def start : Reading := ⟨[], [], none, false⟩

def push (r : Reading) (t : Token) : Reading := { r with branch := t :: r.branch }

def pushBytes (r : Reading) (bs : Bytes) : Reading :=
  { r with branch := (bs.map Token.byte).reverse ++ r.branch }

def pushChar (r : Reading) (c : Char) : Reading := r.pushBytes (String.utf8EncodeChar c)

def pushRuns (r : Reading) : Reading := (r.push .run).push .run

def replaceLast (r : Reading) (t : Token) : Reading :=
  match r.branch with
  | .leading :: _ | .trailing :: _ => r
  | _ :: branch => { r with branch := t :: branch }
  | [] => r.push t

def stars (r : Reading) (beforeStars next : Option Char) : Reading × Bool :=
  if r.branch.isEmpty then
    match next with
    | none => (r.push .leading, false)
    | some '/' => (r.push .leading, true)
    | some _ => (r.pushRuns, false)
  else if beforeStars ≠ some '/' &&
      (r.opened.isEmpty || (beforeStars ≠ some ',' && beforeStars ≠ some '\x7b')) then
    (r.pushRuns, false)
  else
    match next with
    | none => (r.replaceLast .trailing, false)
    | some '/' => (r.replaceLast .between, true)
    | some c =>
      if !r.opened.isEmpty && (c = ',' || c = '\x7d') then (r.replaceLast .trailing, false)
      else (r.pushRuns, false)

def openBrace (r : Reading) : Reading :=
  { r with branch := [], opened := ([], r.branch) :: r.opened }

def nextBranch (r : Reading) : Reading :=
  match r.opened with
  | [] => r.pushChar ','
  | (done, before) :: opened =>
    { r with branch := [], opened := (r.branch.reverse :: done, before) :: opened }

def closeBrace? (r : Reading) : Option Reading :=
  match r.opened with
  | [] => none
  | (done, before) :: opened =>
    some { r with branch := .either (r.branch.reverse :: done).reverse :: before, opened }

def finish? (r : Reading) : Option Glob :=
  if r.opened.isEmpty then some ⟨r.branch.reverse⟩ else none

end Reading

def classOf (cs : List Char) : Bool × ClassResult :=
  match cs with
  | '!' :: rest | '^' :: rest => (true, classMembers rest false [])
  | cs => (false, classMembers cs false [])

def readFrom : Nat → List Char → Reading → Option Glob
  | _, [], r => r.finish?
  | 0, _ :: _, _ => none
  | turns + 1, c :: rest, r =>
    let beforeThis := r.before
    let r := { r with before := some c }
    if c = '?' then readFrom turns rest (r.push .any)
    else if c = '*' then
      match rest with
      | '*' :: rest =>
        match r.stars beforeThis rest.head? with
        | (r, true) => readFrom turns (rest.drop 1) { r with before := some '/' }
        | (r, false) => readFrom turns rest r
      | rest => readFrom turns rest (r.push .run)
    else if c = '[' && !r.plainBrackets then
      match classOf rest with
      | (_, .backwards) => none
      | (_, .unclosed) => readFrom turns rest { r.pushChar '[' with plainBrackets := true }
      | (negated, .closed ranges rest) =>
        let ranges := ranges.flatMap fun (low, high) => rangeBytes low high
        readFrom turns rest { r.push (.oneOf negated ranges) with before := some ']' }
    else if c = '\x7b' then readFrom turns rest r.openBrace
    else if c = '\x7d' then r.closeBrace?.bind (readFrom turns rest)
    else if c = ',' then readFrom turns rest r.nextBranch
    else if c = '\\' then
      match rest with
      | [] => none
      | c :: rest => readFrom turns rest { r.pushChar c with before := some c }
    else readFrom turns rest (r.pushChar c)

def parse? (text : List Char) : Option Glob := readFrom text.length text Reading.start

end Glob

end ClassWeaver
