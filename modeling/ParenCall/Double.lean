/-! Double-precision numbers. A number written with a fraction or an exponent
means the nearest number of 53 significant bits, and of two that are equally
near the one whose last bit is zero. Every such number is a multiple of the
least positive one, `2 ^ -1074`, and magnitudes are counted in that unit here,
so that all of this is exact. -/

namespace ParenCall.Double

/-- The number one, counted in the least positive number. -/
def one : Nat := Nat.pow 2 1074

/-- The first magnitude that is too large to be finite. -/
def bound : Nat := Nat.pow 2 1024 * one

/-- The integer nearest to `n / d`, the even one if there are two. -/
def roundDiv (n d : Nat) : Nat :=
  let twice := 2 * (n % d)
  if twice < d ∨ (twice = d ∧ n / d % 2 = 0) then n / d else n / d + 1

/-- The magnitude nearest to `n / d`. Below the smallest number that has 53
significant bits the steps do not get any smaller. -/
def nearest (n d : Nat) : Nat :=
  let step := Nat.pow 2 ((n * one / d).log2 - 52)
  roundDiv (n * one) (d * step) * step

inductive Reading where
  | whole (value : Int)
  | fractional
  | infinite
deriving DecidableEq, Repr

/-- What the number `mantissa / 10 ^ places` means. -/
def ofDecimal (mantissa : Int) (places : Nat) : Reading :=
  let magnitude := nearest mantissa.natAbs (Nat.pow 10 places)
  if bound ≤ magnitude then .infinite
  else if magnitude % one = 0 then .whole (mantissa.sign * (magnitude / one : Nat))
  else .fractional

end ParenCall.Double
