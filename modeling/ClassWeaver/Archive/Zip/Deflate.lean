import ClassWeaver.Bytes

namespace ClassWeaver

namespace Deflate

structure Source where
  begun : Nat
  held : Nat
  rest : Bytes
  deriving DecidableEq, Repr

abbrev Reading := StateT Source Option

def bit : Reading Nat := fun s =>
  match s.held with
  | held + 1 => some (s.begun % 2, ⟨s.begun / 2, held, s.rest⟩)
  | 0 =>
    match s.rest with
    | [] => none
    | b :: rest => some (b.toNat % 2, ⟨b.toNat / 2, 7, rest⟩)

def bits : Nat → Reading Nat
  | 0 => pure 0
  | n + 1 => do
    let low ← bit
    let high ← bits n
    return low + 2 * high

/-- A prefix code: how many of its words have one bit, two bits and so on, and what the words mean, in
the order of the words. -/
structure Huffman where
  counts : List Nat
  symbols : Array Nat
  deriving DecidableEq, Repr

namespace Huffman

def longest : Nat := 15

def unused? : Nat → List Nat → Option Nat
  | free, [] => some free
  | free, count :: rest =>
    if count ≤ 2 * free then unused? (2 * free - count) rest else none

def isWhole (counts : List Nat) : Bool :=
  match unused? 1 counts with
  | some free => free = 0 || total id counts ≤ 1
  | none => false

def ofLengths? (lengths : List Nat) : Option Huffman :=
  let widths := (List.range longest).map (· + 1)
  let counts := widths.map fun width => lengths.count width
  if isWhole counts then
    let symbols := widths.flatMap fun width =>
      lengths.zipIdx.filterMap fun (length, symbol) =>
        if length = width then some symbol else none
    some ⟨counts, symbols.toArray⟩
  else none

def readFrom (symbols : Array Nat) : List Nat → Nat → Nat → Nat → Reading Nat
  | [], _, _, _ => failure
  | count :: counts, word, first, index => do
    let word := word + (← bit)
    if word < first + count then symbols[index + (word - first)]?
    else readFrom symbols counts (2 * word) (2 * (first + count)) (index + count)

def read (code : Huffman) : Reading Nat := readFrom code.symbols code.counts 0 0 0

end Huffman

structure Codes where
  literals : Huffman
  distances : Huffman
  deriving DecidableEq, Repr

def lengthTable : Array (Nat × Nat) :=
  #[(0, 3), (0, 4), (0, 5), (0, 6), (0, 7), (0, 8), (0, 9), (0, 10), (1, 11), (1, 13), (1, 15),
    (1, 17), (2, 19), (2, 23), (2, 27), (2, 31), (3, 35), (3, 43), (3, 51), (3, 59), (4, 67), (4, 83),
    (4, 99), (4, 115), (5, 131), (5, 163), (5, 195), (5, 227), (0, 258)]

def distanceTable : Array (Nat × Nat) :=
  #[(0, 1), (0, 2), (0, 3), (0, 4), (1, 5), (1, 7), (2, 9), (2, 13), (3, 17), (3, 25), (4, 33),
    (4, 49), (5, 65), (5, 97), (6, 129), (6, 193), (7, 257), (7, 385), (8, 513), (8, 769), (9, 1025),
    (9, 1537), (10, 2049), (10, 3073), (11, 4097), (11, 6145), (12, 8193), (12, 12289), (13, 16385),
    (13, 24577)]

def fixedLengths : List Nat :=
  List.replicate 144 8 ++ List.replicate 112 9 ++ List.replicate 24 7 ++ List.replicate 8 8

def fixedCodes? : Option Codes := do
  let literals ← Huffman.ofLengths? fixedLengths
  let distances ← Huffman.ofLengths? (List.replicate 32 5)
  return ⟨literals, distances⟩

def lengthOrder : List Nat := [16, 17, 18, 0, 8, 7, 9, 6, 10, 5, 11, 4, 12, 3, 13, 2, 14, 1, 15]

def readPlaces : List Nat → Reading (List (Nat × Nat))
  | [] => pure []
  | place :: places => do
    let length ← bits 3
    let rest ← readPlaces places
    return (place, length) :: rest

def readLengths (code : Huffman) (wanted : Nat) : Nat → List Nat → Reading (List Nat)
  | 0, _ => failure
  | turns + 1, found =>
    if wanted ≤ found.length then pure found
    else do
      let symbol ← code.read
      if symbol < 16 then
        readLengths code wanted turns (symbol :: found)
      else if symbol = 16 then
        let last ← found.head?
        let more ← bits 2
        readLengths code wanted turns (List.replicate (3 + more) last ++ found)
      else if symbol = 17 then
        let more ← bits 3
        readLengths code wanted turns (List.replicate (3 + more) 0 ++ found)
      else
        let more ← bits 7
        readLengths code wanted turns (List.replicate (11 + more) 0 ++ found)

/-- The codes of so many literals and distances. The lengths of their words are told in a code of
their own, the lengths of whose words stand at the first places. -/
def readCodesOf (literalCount distanceCount placeCount : Nat) : Reading Codes := do
  let placed ← readPlaces (lengthOrder.take placeCount)
  let code ← Huffman.ofLengths? ((List.range 19).map fun i => (placed.lookup i).getD 0)
  let wanted := literalCount + distanceCount
  let found ← readLengths code wanted (wanted + 1) []
  let lengths := found.reverse
  if lengths.length ≠ wanted then failure
  else
    let literals ← Huffman.ofLengths? (lengths.take literalCount)
    let distances ← Huffman.ofLengths? (lengths.drop literalCount)
    return ⟨literals, distances⟩

def maxLiterals : Nat := 286

def maxDistances : Nat := 30

def readCodes : Reading Codes := do
  let literalCount := (← bits 5) + 257
  let distanceCount := (← bits 5) + 1
  let placeCount := (← bits 4) + 4
  if maxLiterals < literalCount ∨ maxDistances < distanceCount then failure
  else readCodesOf literalCount distanceCount placeCount

/-- Writes once more the byte that stands `distance` back, `n` times over. Before the first byte stand
zeros. -/
def copy (distance : Nat) : Nat → Array UInt8 → Array UInt8
  | 0, out => out
  | n + 1, out =>
    let b := if out.size < distance then 0 else out.getD (out.size - distance) 0
    copy distance n (out.push b)

def readNumber (table : Array (Nat × Nat)) (word : Nat) : Reading Nat := do
  let (width, least) ← table[word]?
  return least + (← bits width)

def readSymbols (codes : Codes) : Nat → Array UInt8 → Reading (Array UInt8)
  | 0, _ => failure
  | turns + 1, out => do
    let symbol ← codes.literals.read
    if symbol < 256 then
      readSymbols codes turns (out.push (UInt8.ofNat symbol))
    else if symbol = 256 then
      return out
    else
      let length ← readNumber lengthTable (symbol - 257)
      let distance ← readNumber distanceTable (← codes.distances.read)
      readSymbols codes turns (copy distance length out)

def readStored (out : Array UInt8) : Reading (Array UInt8) := fun s =>
  match s.rest with
  | a :: b :: c :: d :: rest => do
    let length := ofBe16 b a
    if ofBe16 d c ≠ ~~~ length then none
    else
      let (data, rest) ← takeExact? length.toNat rest
      return (out ++ data.toArray, ⟨0, 0, rest⟩)
  | _ => none

def Source.size (s : Source) : Nat := 8 * s.rest.length + s.held

def turnsLeft : Reading Nat := fun s => some (s.size + 1, s)

def readBlocks : Nat → Array UInt8 → Reading (Array UInt8)
  | 0, _ => failure
  | turns + 1, out => do
    let last ← bit
    let form ← bits 2
    let out ←
      match form with
      | 0 => readStored out
      | 1 => do readSymbols (← fixedCodes?) (← turnsLeft) out
      | 2 => do readSymbols (← readCodes) (← turnsLeft) out
      | _ => failure
    if last = 1 then return out else readBlocks turns out

def inflate? (bs : Bytes) : Option Bytes := do
  let s : Source := ⟨0, 0, bs⟩
  let (out, _) ← readBlocks (s.size + 1) #[] s
  return out.toList

def blockSize : Nat := 65535

def storedBlock (last : Bool) (data : Bytes) : Bytes :=
  let length := UInt16.ofNat data.length
  (if last then 1 else 0) :: ((be16 length).reverse ++ (be16 (~~~ length)).reverse ++ data)

def store (bs : Bytes) : Bytes :=
  if bs.length ≤ blockSize then storedBlock true bs
  else storedBlock false (bs.take blockSize) ++ store (bs.drop blockSize)
termination_by bs.length
decreasing_by
  rename_i h
  simp only [blockSize, List.length_drop] at *
  omega

end Deflate

end ClassWeaver
