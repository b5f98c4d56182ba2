/-!
How large a number in a JSON text may be. A number is put together in double precision from its first
digits and a power of ten, each of which is rounded, and their product must be within that precision.
-/

namespace ClassWeaver

namespace Magnitude

/-- The number nearest to `n` that has fifty-three binary digits and only zeros after them; of two
equally near, the one whose last digit is even. -/
def nearest (n : Nat) : Nat :=
  let unit := Nat.pow 2 (n.log2 - 52)
  let front := n / unit
  let rest := n % unit
  if unit < 2 * rest || (unit = 2 * rest && front % 2 = 1) then (front + 1) * unit
  else front * unit

def tooLarge : Nat := Nat.pow 2 1024 - Nat.pow 2 970

def maxPower : Int := 308

def maxSignificand : Nat := 0xFFFFFFFFFFFFFFFF

/-- The number of the first digits, after those that make up `n`, and the digits behind them: a digit
that would not fit is left over with all that follow. -/
def gather : Nat → List Char → Nat × List Char
  | n, [] => (n, [])
  | n, c :: rest =>
    let next := n * 10 + (c.toNat - 48)
    if next ≤ maxSignificand then gather next rest else (n, c :: rest)

/-- Whether the first digits, times ten to the `power`, are within double precision. They are, if the
power makes them smaller. -/
def isFinite (significand : Nat) (power : Int) : Bool :=
  significand = 0 || power < 0 ||
    (power ≤ maxPower &&
      nearest significand * nearest (Nat.pow 10 power.toNat) < tooLarge)

end Magnitude

end ClassWeaver
