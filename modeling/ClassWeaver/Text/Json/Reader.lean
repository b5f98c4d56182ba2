import ClassWeaver.Text.Json.Draft
import ClassWeaver.Text.Json.Magnitude

namespace ClassWeaver

namespace Draft

def isJsonBlank (c : Char) : Bool := c = ' ' || c = '\n' || c = '\t' || c = '\r'

def skipBlanks (cs : List Char) : List Char := cs.dropWhile isJsonBlank

def hexValue? (c : Char) : Option Nat :=
  if '0' ≤ c && c ≤ '9' then some (c.toNat - 48)
  else if 'a' ≤ c && c ≤ 'f' then some (c.toNat - 87)
  else if 'A' ≤ c && c ≤ 'F' then some (c.toNat - 55)
  else none

def hexUnit (cs : List Char) : Except JsonFault Nat :=
  match cs.take 4 with
  | [a, b, c, d] =>
    match hexValue? a, hexValue? b, hexValue? c, hexValue? d with
    | some a, some b, some c, some d => .ok (((a * 16 + b) * 16 + c) * 16 + d)
    | _, _, _, _ => .error .malformed
  | few => if (few.flatMap String.utf8EncodeChar).length < 4 then .error .ended else .error .malformed

def escapedUnit (cs : List Char) : Except JsonFault (Char × List Char) :=
  match hexUnit cs with
  | .error fault => .error fault
  | .ok high =>
    let rest := cs.drop 4
    if 0xDC00 ≤ high ∧ high < 0xE000 then .error .malformed
    else if 0xD800 ≤ high ∧ high < 0xDC00 then
      match rest with
      | [] => .error .ended
      | ['\\'] => .error .ended
      | '\\' :: 'u' :: rest =>
        match hexUnit rest with
        | .error fault => .error fault
        | .ok low =>
          if 0xDC00 ≤ low ∧ low < 0xE000 then
            .ok (Char.ofNat (0x10000 + (high - 0xD800) * 1024 + (low - 0xDC00)), rest.drop 4)
          else .error .malformed
      | _ => .error .malformed
    else .ok (Char.ofNat high, rest)

def escape : List Char → Except JsonFault (Char × List Char)
  | [] => .error .ended
  | '"' :: rest => .ok ('"', rest)
  | '\\' :: rest => .ok ('\\', rest)
  | '/' :: rest => .ok ('/', rest)
  | 'b' :: rest => .ok (Char.ofNat 8, rest)
  | 'f' :: rest => .ok (Char.ofNat 12, rest)
  | 'n' :: rest => .ok ('\n', rest)
  | 'r' :: rest => .ok ('\r', rest)
  | 't' :: rest => .ok ('\t', rest)
  | 'u' :: rest => escapedUnit rest
  | _ => .error .malformed

def quoted : Nat → List Char → List Char → Except JsonFault (String × List Char)
  | _, [], _ => .error .ended
  | 0, _, _ => .error .ended
  | turns + 1, c :: rest, done =>
    if c = '"' then .ok (String.ofList done.reverse, rest)
    else if c = '\\' then
      match escape rest with
      | .error fault => .error fault
      | .ok (c, rest) => quoted turns rest (c :: done)
    else if c.toNat < 32 then .error .malformed
    else quoted turns rest (c :: done)

def digitsValue (cs : List Char) : Nat := cs.foldl (fun n c => n * 10 + (c.toNat - 48)) 0

def digits (cs : List Char) : Except JsonFault (List Char × List Char) :=
  match cs.takeWhile Char.isDigit, cs.dropWhile Char.isDigit with
  | [], [] => .error .ended
  | [], _ => .error .malformed
  | front, rest => .ok (front, rest)

def wholePart (cs : List Char) : Except JsonFault (List Char × List Char) :=
  match digits cs with
  | .ok ('0' :: _ :: _, _) => .error .malformed
  | result => result

def fraction : List Char → Except JsonFault (Option (List Char) × List Char)
  | '.' :: rest => (digits rest).map fun (front, rest) => (some front, rest)
  | cs => .ok (none, cs)

def exponent : List Char → Except JsonFault (Option Int × List Char)
  | c :: rest =>
    if c = 'e' || c = 'E' then
      let (negative, rest) := match rest with
        | '-' :: rest => (true, rest)
        | '+' :: rest => (false, rest)
        | rest => (false, rest)
      (digits rest).map fun (front, rest) =>
        let n : Int := digitsValue front
        (some (if negative then -n else n), rest)
    else .ok (none, c :: rest)
  | [] => .ok (none, [])

def integer (negative : Bool) (n : Nat) : Draft :=
  if negative then
    if 0 < n ∧ n ≤ 0x8000000000000000 then .int (-n) else .number
  else if n < 0x10000000000000000 then .int n
  else .number

def unsignedNumber (negative : Bool) (cs : List Char) : Except JsonFault (Draft × List Char) := do
  let (whole, rest) ← wholePart cs
  let (decimals, rest) ← fraction rest
  let (power, rest) ← exponent rest
  let places := decimals.getD []
  let (front, beyond) := Magnitude.gather 0 whole
  let (significand, ignored) := Magnitude.gather front places
  let shift : Int := beyond.length + ignored.length - places.length
  if Magnitude.isFinite significand (power.getD 0 + shift) then
    match decimals, power, beyond with
    | none, none, [] => return (integer negative significand, rest)
    | _, _, _ => return (.number, rest)
  else .error .malformed

def word : List Char → List Char → Except JsonFault (List Char)
  | [], cs => .ok cs
  | _ :: _, [] => .error .ended
  | w :: ws, c :: cs => if w = c then word ws cs else .error .malformed

def ofString : Except JsonFault (String × List Char) → Draft × List Char
  | .ok (text, rest) => (.string text, rest)
  | .error fault => (.broken fault, [])

def ofNumber : Except JsonFault (Draft × List Char) → Draft × List Char
  | .ok result => result
  | .error fault => (.brokenAtom fault, [])

def ofWord (d : Draft) : Except JsonFault (List Char) → Draft × List Char
  | .ok rest => (d, rest)
  | .error fault => (.brokenAtom fault, [])

def atom (turns : Nat) (c : Char) (rest : List Char) : Draft × List Char :=
  if c = 'n' then ofWord .null (word ['u', 'l', 'l'] rest)
  else if c = 't' then ofWord (.bool true) (word ['r', 'u', 'e'] rest)
  else if c = 'f' then ofWord (.bool false) (word ['a', 'l', 's', 'e'] rest)
  else if c = '"' then ofString (quoted turns rest [])
  else if c = '-' then ofNumber (unsignedNumber true rest)
  else if c.isDigit then ofNumber (unsignedNumber false (c :: rest))
  else (.broken .malformed, [])

def maxDepth : Nat := 127

mutual

/-- A value with at most `depth` levels below it. No character takes more than three turns, so turns
never run out. -/
def value : Nat → Nat → List Char → Draft × List Char
  | 0, _, _ => (.broken .ended, [])
  | turns + 1, depth, cs =>
    match skipBlanks cs with
    | [] => (.broken .ended, [])
    | c :: rest =>
      if c = '[' then
        match depth with
        | 0 => (.broken .malformed, [])
        | depth + 1 => itemsOf turns depth rest
      else if c = '\x7b' then
        match depth with
        | 0 => (.broken .malformed, [])
        | depth + 1 => membersOf turns depth rest
      else atom turns c rest

def itemsOf : Nat → Nat → List Char → Draft × List Char
  | 0, _, _ => (.broken .ended, [])
  | turns + 1, depth, cs =>
    match skipBlanks cs with
    | [] => (.list [] (.cut .ended false), [])
    | c :: rest =>
      if c = ']' then (.list [] .closed, rest)
      else moreItems turns depth (c :: rest) []

def moreItems : Nat → Nat → List Char → List Draft → Draft × List Char
  | 0, _, _, done => (.list done.reverse (.cut .ended false), [])
  | turns + 1, depth, cs, done =>
    let (d, rest) := value turns depth cs
    let done := d :: done
    match d.endingFault? with
    | some fault => (.list done.reverse (.cut fault false), [])
    | none =>
      match skipBlanks rest with
      | [] => (.list done.reverse (.cut .ended false), [])
      | c :: rest =>
        if c = ']' then (.list done.reverse .closed, rest)
        else if c = ',' then
          match skipBlanks rest with
          | [] => (.list done.reverse (.cut .ended true), [])
          | c :: rest =>
            if c = ']' then (.list done.reverse (.cut .malformed true), [])
            else moreItems turns depth (c :: rest) done
        else (.list done.reverse (.cut .malformed false), [])

def membersOf : Nat → Nat → List Char → Draft × List Char
  | 0, _, _ => (.broken .ended, [])
  | turns + 1, depth, cs =>
    match skipBlanks cs with
    | [] => (.record [] (.cut .ended false), [])
    | c :: rest =>
      if c = '\x7d' then (.record [] .closed, rest)
      else moreMembers turns depth false (c :: rest) []

def moreMembers : Nat → Nat → Bool → List Char → List (String × Draft) → Draft × List Char
  | 0, _, _, _, done => (.record done.reverse (.cut .ended false), [])
  | _, _, comma, [], done => (.record done.reverse (.cut .ended comma), [])
  | turns + 1, depth, comma, c :: rest, done =>
    if c = '"' then
      match quoted turns rest [] with
      | .error fault => (.record done.reverse (.cut fault comma), [])
      | .ok (name, rest) =>
        match skipBlanks rest with
        | [] => (.record ((name, .broken .ended) :: done).reverse (.cut .ended false), [])
        | c :: rest =>
          if c = ':' then
            let (d, rest) := value turns depth rest
            let done := (name, d) :: done
            match d.endingFault? with
            | some fault => (.record done.reverse (.cut fault false), [])
            | none =>
              match skipBlanks rest with
              | [] => (.record done.reverse (.cut .ended false), [])
              | c :: rest =>
                if c = '\x7d' then (.record done.reverse .closed, rest)
                else if c = ',' then
                  match skipBlanks rest with
                  | [] => (.record done.reverse (.cut .ended true), [])
                  | c :: rest =>
                    if c = '\x7d' then (.record done.reverse (.cut .malformed true), [])
                    else moreMembers turns depth true (c :: rest) done
                else (.record done.reverse (.cut .malformed false), [])
          else (.record ((name, .broken .malformed) :: done).reverse (.cut .malformed false), [])
    else
      (.record done.reverse (.badName (value turns depth (c :: rest)).1 comma), [])

end

structure Text where
  draft : Draft
  trailing : Option JsonFault
  deriving Repr

def parse (text : String) : Text :=
  let cs := text.toList
  let (d, rest) := value (3 * cs.length + 3) maxDepth cs
  ⟨d, if (skipBlanks rest).isEmpty then none else some .malformed⟩

end Draft

end ClassWeaver
