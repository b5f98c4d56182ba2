import ClassWeaver.Text.Utf8

/-!
The text coding of class files: every UTF-16 unit is written on its own in one to three bytes, and
the zero unit in two. Reading takes well-formed UTF-8 as it stands and everything else unit by unit.
-/

namespace ClassWeaver

namespace Utf16

def units (c : Char) : List Nat :=
  if c.toNat < 0x10000 then [c.toNat]
  else [0xD800 + (c.toNat - 0x10000) / 1024, 0xDC00 + (c.toNat - 0x10000) % 1024]

def isHigh (u : Nat) : Bool := 0xD800 ≤ u && u < 0xDC00

def isLow (u : Nat) : Bool := 0xDC00 ≤ u && u < 0xE000

/-- A surrogate without its partner becomes the replacement character. -/
def decodeFrom : List Nat → List Char → List Char
  | [], done => done.reverse
  | u :: rest, done =>
    if isHigh u then
      match rest with
      | v :: rest' =>
        if isLow v then
          decodeFrom rest' (Char.ofNat (0x10000 + (u - 0xD800) * 1024 + (v - 0xDC00)) :: done)
        else decodeFrom (v :: rest') (Utf8.replacement :: done)
      | [] => (Utf8.replacement :: done).reverse
    else if isLow u then decodeFrom rest (Utf8.replacement :: done)
    else decodeFrom rest (Char.ofNat u :: done)
  termination_by us => us.length

end Utf16

namespace ModifiedUtf8

def encodeUnit (u : Nat) : Bytes :=
  if 0 < u && u < 0x80 then [UInt8.ofNat u]
  else if u < 0x800 then [UInt8.ofNat (0xC0 + u / 64), UInt8.ofNat (0x80 + u % 64)]
  else [UInt8.ofNat (0xE0 + u / 4096), UInt8.ofNat (0x80 + u / 64 % 64),
    UInt8.ofNat (0x80 + u % 64)]

def encode (text : String) : Bytes :=
  text.toList.flatMap fun c => (Utf16.units c).flatMap encodeUnit

/-- A lead byte takes the bytes after it whatever they are; one without enough of them, or no lead
byte at all, stands for the replacement character. -/
def unitsFrom : Bytes → List Nat → List Nat
  | [], done => done.reverse
  | a :: rest, done =>
    if a < 0x80 then unitsFrom rest (a.toNat :: done)
    else if 0xC0 ≤ a && a < 0xE0 then
      match rest with
      | b :: rest => unitsFrom rest ((a.toNat % 32 * 64 + Utf8.tailBits b) :: done)
      | [] => (0xFFFD :: done).reverse
    else if 0xE0 ≤ a && a < 0xF0 then
      match rest with
      | b :: c :: rest =>
        unitsFrom rest
          ((a.toNat % 16 * 4096 + Utf8.tailBits b * 64 + Utf8.tailBits c) :: done)
      | rest => unitsFrom rest (0xFFFD :: done)
    else unitsFrom rest (0xFFFD :: done)
  termination_by bs => bs.length

def decodeUnits (bs : Bytes) : String :=
  String.ofList (Utf16.decodeFrom (unitsFrom bs []) [])

def decode (bs : Bytes) : String := (Utf8.decode? bs).getD (decodeUnits bs)

end ModifiedUtf8

end ClassWeaver
