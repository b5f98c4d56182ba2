import ClassWeaver.Bytes

/-!
Glob patterns over the bytes of a path. A pattern moves along the places of a text, that is along
the gaps before, between and behind its bytes; it matches when it gets from the first to the last.
-/

namespace ClassWeaver

namespace Glob

inductive Token where
  | byte (value : UInt8)
  | any
  | run
  /-- Nothing, or everything up to a slash. -/
  | leading
  /-- A slash and everything behind it. -/
  | trailing
  /-- A slash, or two with anything between them. -/
  | between
  | oneOf (negated : Bool) (ranges : List (UInt8 × UInt8))
  | either (branches : List (List Token))
  deriving Repr

abbrev Places := List Bool

namespace Places

def atStart (text : Bytes) : Places := true :: text.map fun _ => false

def passing (pass : UInt8 → Bool) (text : Bytes) (ps : Places) : Places :=
  false :: List.zipWith (fun p c => p && pass c) ps text

def overRun : Bool → Bytes → Places → Places
  | carried, c :: text, p :: ps => (p || carried) :: overRun ((p || carried) && c ≠ 0x2F) text ps
  | carried, [], p :: _ => [p || carried]
  | _, _, [] => []

def overLeading : Bool → Bool → Bytes → Places → Places
  | landing, seen, c :: text, p :: ps =>
    (p || (seen && landing)) :: overLeading (c = 0x2F) (seen || p) text ps
  | landing, seen, [], p :: _ => [p || (seen && landing)]
  | _, _, _, [] => []

/-- From every place before a slash to every later one that `accepts` tells by the byte before it. -/
def overSlash (accepts : UInt8 → Bool) : Bool → Bool → Bytes → Places → Places
  | landing, seen, c :: text, p :: ps =>
    (seen && landing) :: overSlash accepts (accepts c) (seen || (p && c = 0x2F)) text ps
  | landing, seen, [], _ :: _ => [seen && landing]
  | _, _, _, [] => []

def none (text : Bytes) : Places := List.replicate (text.length + 1) false

end Places

def isMember (ranges : List (UInt8 × UInt8)) (c : UInt8) : Bool :=
  ranges.any fun (low, high) => low ≤ c && c ≤ high

mutual

def isHollow : List Token → Bool
  | [] => true
  | t :: rest => t.isHollow && isHollow rest

def Token.isHollow : Token → Bool
  | .either branches => areHollow branches
  | _ => false

def areHollow : List (List Token) → Bool
  | [] => true
  | b :: rest => isHollow b && areHollow rest

end

mutual

def Token.advance (text : Bytes) : Token → Places → Places
  | .byte b, ps => Places.passing (· == b) text ps
  | .any, ps => Places.passing (· ≠ 0x2F) text ps
  | .run, ps => Places.overRun false text ps
  | .leading, ps => Places.overLeading false false text ps
  | .trailing, ps => Places.overSlash (fun _ => true) false false text ps
  | .between, ps => Places.overSlash (· = 0x2F) false false text ps
  | .oneOf negated ranges, ps => Places.passing (fun c => isMember ranges c != negated) text ps
  | .either branches, ps => if areHollow branches then ps else advanceAny text branches ps

def advanceAll (text : Bytes) : List Token → Places → Places
  | [], ps => ps
  | t :: rest, ps => advanceAll text rest (t.advance text ps)

def advanceAny (text : Bytes) : List (List Token) → Places → Places
  | [], _ => Places.none text
  | b :: rest, ps =>
    if isHollow b then advanceAny text rest ps
    else List.zipWith (· || ·) (advanceAll text b ps) (advanceAny text rest ps)

end

def accepts (tokens : List Token) (text : Bytes) : Bool :=
  (advanceAll text tokens (Places.atStart text)).getLast? = some true

end Glob

structure Glob where
  tokens : List Glob.Token
  deriving Repr

def Glob.admits (g : Glob) (path : Bytes) : Bool :=
  match g.tokens with
  | [.leading] => true
  | tokens => Glob.accepts tokens path

end ClassWeaver
