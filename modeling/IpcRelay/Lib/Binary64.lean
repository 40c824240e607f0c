import Mathlib

/-!
# Binary floating-point numbers of 64 bits

A `Double` is a number `significand * 2 ^ exponent` with its sign, or an
infinity. `ofDecimal` is the number nearest to a decimal, halves to even, and an
infinity where that number has more than 53 bits at the largest exponent.
-/

namespace Binary64

/-- A number that is not a NaN. -/
inductive Double where
  | finite (negative : Bool) (significand : Nat) (exponent : Int)
  | infinite (negative : Bool)
  deriving DecidableEq, Repr

/-- The integer nearest to `n / d`, halves to even. -/
def roundHalfEven (n d : Nat) : Nat :=
  let q := n / d
  if 2 * (n % d) < d then q else if d < 2 * (n % d) then q + 1 else if q % 2 = 0 then q else q + 1

/-- The numerator and the denominator of `n / d * b ^ e`. -/
def scale (b n d : Nat) (e : Int) : Nat × Nat := if 0 ≤ e then (n * b ^ e.toNat, d) else (n, d * b ^ (-e).toNat)

/-- The exponent `e` with `2 ^ e ≤ n / d < 2 ^ (e + 1)`. -/
def floorLog2 (n d : Nat) : Int :=
  let k : Int := (n.log2 : Int) - d.log2
  let (n', d') := scale 2 n d (-k)
  if d' ≤ n' then k else k - 1

namespace Double

/-- The nearest number to `n / d`. -/
def ofRatio (negative : Bool) (n d : Nat) : Double :=
  if n = 0 then .finite negative 0 0
  else
    let e := max (-1074) (floorLog2 n d - 52)
    let (n', d') := scale 2 n d (-e)
    let m := roundHalfEven n' d'
    if 971 < e ∨ e = 971 ∧ 2 ^ 53 ≤ m then .infinite negative else .finite negative m e

/-- The nearest number to `digits * 10 ^ exponent`. -/
def ofDecimal (negative : Bool) (digits : Nat) (exponent : Int) : Double :=
  let (n, d) := scale 10 digits 1 exponent
  ofRatio negative n d

/-- The nearest number to the quotient by a positive integer. -/
def divNat (x : Double) (k : Nat) : Double :=
  match x with
  | .finite negative m e =>
    let (n, d) := scale 2 m k e
    ofRatio negative n d
  | .infinite negative => .infinite negative

/-- The number as an integer, if it is one. -/
def toInteger : Double → Option Int
  | .finite negative m e =>
    let (n, d) := scale 2 m 1 e
    if n % d = 0 then some (if negative then -((n / d : Nat) : Int) else (n / d : Nat)) else none
  | .infinite _ => none

/-- The integer nearest to `1000` times the magnitude of a finite number. -/
def thousandths (m : Nat) (e : Int) : Nat :=
  let (n, d) := scale 2 (m * 1000) 1 e
  roundHalfEven n d

end Double

end Binary64
