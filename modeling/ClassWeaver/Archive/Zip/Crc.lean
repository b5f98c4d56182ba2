import ClassWeaver.Bytes

namespace ClassWeaver

namespace Crc32

def polynomial : UInt32 := 0xEDB88320

def shift : Nat → UInt32 → UInt32
  | 0, r => r
  | n + 1, r => shift n (if r &&& 1 = 1 then (r >>> 1) ^^^ polynomial else r >>> 1)

def table : Array UInt32 := Array.ofFn fun i : Fin 256 => shift 8 (UInt32.ofNat i)

def step (r : UInt32) (b : UInt8) : UInt32 :=
  table.getD ((r ^^^ b.toUInt32) &&& 0xFF).toNat 0 ^^^ (r >>> 8)

end Crc32

def crc32 (bs : Bytes) : UInt32 := ~~~ (bs.foldl Crc32.step 0xFFFFFFFF)

end ClassWeaver
