import ClassWeaver.Bytes

namespace ClassWeaver

namespace Utf8

def encode (text : String) : Bytes := text.toList.flatMap String.utf8EncodeChar

def isTail (b : UInt8) : Bool := 0x80 ≤ b && b < 0xC0

def tailBits (b : UInt8) : Nat := b.toNat % 64

def decodeFrom : Bytes → List Char → Option (List Char)
  | [], done => some done.reverse
  | a :: rest, done =>
    if a < 0x80 then decodeFrom rest (Char.ofNat a.toNat :: done)
    else if a < 0xE0 then
      match rest with
      | b :: rest =>
        let n := a.toNat % 32 * 64 + tailBits b
        if 0xC0 ≤ a && isTail b && 0x80 ≤ n then decodeFrom rest (Char.ofNat n :: done)
        else none
      | _ => none
    else if a < 0xF0 then
      match rest with
      | b :: c :: rest =>
        let n := a.toNat % 16 * 4096 + tailBits b * 64 + tailBits c
        if isTail b && isTail c && 0x800 ≤ n && !(0xD800 ≤ n && n < 0xE000) then
          decodeFrom rest (Char.ofNat n :: done)
        else none
      | _ => none
    else
      match rest with
      | b :: c :: d :: rest =>
        let n := a.toNat % 16 * 262144 + tailBits b * 4096 + tailBits c * 64 + tailBits d
        if a < 0xF8 && isTail b && isTail c && isTail d && 0x10000 ≤ n && n < 0x110000 then
          decodeFrom rest (Char.ofNat n :: done)
        else none
      | _ => none

def decode? (bs : Bytes) : Option String := (decodeFrom bs []).map String.ofList

def replacement : Char := Char.ofNat 0xFFFD

structure Lead where
  bits : Nat
  low : UInt8
  high : UInt8
  more : Nat
  deriving DecidableEq, Repr

/-- The bounds leave out what has a shorter form, the surrogates and what lies beyond the last
character. -/
def lead? (a : UInt8) : Option Lead :=
  if 0xC2 ≤ a && a < 0xE0 then some ⟨a.toNat - 0xC0, 0x80, 0xBF, 0⟩
  else if 0xE0 ≤ a && a < 0xF0 then
    some ⟨a.toNat - 0xE0, if a = 0xE0 then 0xA0 else 0x80, if a = 0xED then 0x9F else 0xBF, 1⟩
  else if 0xF0 ≤ a && a < 0xF5 then
    some ⟨a.toNat - 0xF0, if a = 0xF0 then 0x90 else 0x80, if a = 0xF4 then 0x8F else 0xBF, 2⟩
  else none

/-- The text of any bytes, after `done` in reverse. The longest run of bytes that begins a character
without being one is replaced as a whole, and a byte that begins none on its own. -/
def decodeAnyFrom : Bytes → List Char → List Char
  | [], done => done.reverse
  | a :: rest, done =>
    if a < 0x80 then decodeAnyFrom rest (Char.ofNat a.toNat :: done)
    else
      match lead? a, rest with
      | some lead, b :: after =>
        if lead.low ≤ b && b ≤ lead.high then
          let tails := (after.take lead.more).takeWhile isTail
          let c :=
            if tails.length = lead.more then
              Char.ofNat ((b :: tails).foldl (fun n t => n * 64 + tailBits t) lead.bits)
            else replacement
          decodeAnyFrom (after.drop tails.length) (c :: done)
        else decodeAnyFrom (b :: after) (replacement :: done)
      | _, rest => decodeAnyFrom rest (replacement :: done)
termination_by bs => bs.length
decreasing_by all_goals (simp; try omega)

def decodeAny (bs : Bytes) : String := String.ofList (decodeAnyFrom bs [])

end Utf8

end ClassWeaver
