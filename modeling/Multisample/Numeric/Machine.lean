import Multisample.Numeric.Scalar

/-!
# Machine numbers

Single precision for samples, double precision for positions and filter
states.  `Binary` is the exact value of a finite float: it tells whole numbers
and gives the remainder of a division without rounding.
-/

namespace Multisample

/-- A finite float as `mantissa * 2 ^ exponent` with a sign. -/
structure Binary where
  negative : Bool
  mantissa : Nat
  exponent : Int
deriving Repr, DecidableEq

namespace Binary

/-- The parts of a float, or nothing for an infinity or a number that is none. -/
def ofFloat? (x : Float) : Option Binary :=
  let bits := x.toBits.toNat
  let negative : Bool := bits >>> 63 == 1
  let biased : Nat := (bits >>> 52) % (1 <<< 11)
  let fraction : Nat := bits % (1 <<< 52)
  if biased == 2047 then none
  else if biased == 0 then some ⟨negative, fraction, -1074⟩
  else some ⟨negative, (1 <<< 52) + fraction, (biased : Int) - 1075⟩

/-- The integer that a finite float is, unless it has a fraction. -/
def whole? (x : Binary) : Option Int :=
  let magnitude := x.mantissa <<< x.exponent.toNat
  let places := (-x.exponent).toNat
  if magnitude % (1 <<< places) = 0 then
    let n : Int := (magnitude >>> places : Nat)
    some (if x.negative then -n else n)
  else none

/-- Both mantissas over the smaller of the two exponents. -/
def align (x y : Binary) : Nat × Nat × Int :=
  let e := min x.exponent y.exponent
  (x.mantissa <<< (x.exponent - e).toNat, y.mantissa <<< (y.exponent - e).toNat, e)

def toFloat (x : Binary) : Float :=
  let magnitude := (Float.ofNat x.mantissa).scaleB x.exponent
  if x.negative then -magnitude else magnitude

/-- Exact remainder of the division that rounds toward zero, with the sign of the dividend. -/
def remainder (x y : Float) : Float :=
  match ofFloat? x, ofFloat? y with
  | some a, some b =>
    if b.mantissa = 0 then 0 / 0
    else
      let (m, n, e) := align a b
      toFloat ⟨a.negative, m % n, e⟩
  | some _, none => if y.isNaN then y else x
  | none, _ => 0 / 0

/-- The quotient rounded to the nearest natural number, a tie to the even one. -/
def roundedQuotient (num den : Nat) : Nat :=
  let q := num / den
  let twice := 2 * (num % den)
  if twice < den then q
  else if twice > den then q + 1
  else if q % 2 = 0 then q else q + 1

/-- The magnitude times a power of ten, as a numerator and a denominator. -/
def ratio (x : Binary) (power : Int) : Nat × Nat :=
  ((x.mantissa <<< x.exponent.toNat) * Nat.pow 10 power.toNat,
    Nat.pow 10 (-power).toNat <<< (-x.exponent).toNat)

/-- The magnitude times a power of ten, rounded to the nearest natural number. -/
def scaled (x : Binary) (power : Int) : Nat :=
  let (num, den) := x.ratio power
  roundedQuotient num den

end Binary

/-- Whole part of a float that is not negative; a value too large for 64 bits saturates. -/
def wholePart (x : Float) : Nat :=
  x.toUInt64.toNat

private def naturalFloat (n : Nat) : Float :=
  if n < 1 <<< 64 then n.toUInt64.toFloat else Float.ofNat n

private def naturalFloat32 (n : Nat) : Float32 :=
  if n < 1 <<< 64 then n.toUInt64.toFloat32 else Float32.ofNat n

@[inline] instance instElementaryFloat : Elementary Float where
  ofNat n := naturalFloat n
  ofDecimal m s e := Float.ofScientific m s e
  lt x y := decide (x < y)
  le x y := decide (x ≤ y)
  eq x y := x == y
  floor := Float.floor
  ceil := Float.ceil
  toNat := wholePart
  rem := Binary.remainder
  pi := 3.14159265358979323846
  sqrt := Float.sqrt
  sin := Float.sin
  cos := Float.cos
  tan := Float.tan
  tanh := Float.tanh
  exp := Float.exp
  exp2 := Float.exp2
  log10 := Float.log10
  pow := Float.pow

@[inline] instance instElementaryFloat32 : Elementary Float32 where
  ofNat n := naturalFloat32 n
  ofDecimal m s e := Float32.ofScientific m s e
  lt x y := decide (x < y)
  le x y := decide (x ≤ y)
  eq x y := x == y
  floor := Float32.floor
  ceil := Float32.ceil
  toNat x := wholePart x.toFloat
  rem x y := (Binary.remainder x.toFloat y.toFloat).toFloat32
  pi := 3.14159265358979323846
  sqrt := Float32.sqrt
  sin := Float32.sin
  cos := Float32.cos
  tan := Float32.tan
  tanh := Float32.tanh
  exp := Float32.exp
  exp2 := Float32.exp2
  log10 := Float32.log10
  pow := Float32.pow

@[inline] instance instPrecisionFloat32Float : Precision Float32 Float where
  widen := Float32.toFloat
  narrow := Float.toFloat32

end Multisample
