/-!
# Scalars

Signal processing here is written once, over any type of numbers with the
operations below.  It runs on machine floats and is reasoned about on exact
numbers.

Comparisons are Boolean, so a number that compares with nothing is allowed:
every definition says by the order of its comparisons what such a number does.
-/

namespace Multisample

/-- Numbers that samples, gains and positions are made of. -/
class Scalar (α : Type) extends Add α, Sub α, Mul α, Div α, Neg α where
  /-- The number nearest to a natural number. -/
  ofNat : Nat → α
  /-- The number nearest to a decimal literal. -/
  ofDecimal : Nat → Bool → Nat → α
  lt : α → α → Bool
  le : α → α → Bool
  eq : α → α → Bool
  /-- The largest whole number not above. -/
  floor : α → α
  /-- The smallest whole number not below. -/
  ceil : α → α
  /-- The whole part as a natural number, 0 when there is none. -/
  toNat : α → Nat
  /-- Remainder of the division that rounds toward zero. -/
  rem : α → α → α

instance (priority := low) Scalar.instOfNat {α : Type} [Scalar α] (n : Nat) : OfNat α n :=
  ⟨Scalar.ofNat n⟩

instance (priority := low) Scalar.instOfScientific {α : Type} [Scalar α] : OfScientific α :=
  ⟨Scalar.ofDecimal⟩

/-- Numbers with the functions that filters and oscillators need. -/
class Elementary (α : Type) extends Scalar α where
  /-- Half a turn. -/
  pi : α
  sqrt : α → α
  sin : α → α
  cos : α → α
  tan : α → α
  tanh : α → α
  exp : α → α
  /-- Two to a power. -/
  exp2 : α → α
  log10 : α → α
  pow : α → α → α

/-- Samples `σ` next to the wider numbers `π` that positions and filter states use. -/
class Precision (σ π : Type) where
  widen : σ → π
  narrow : π → σ

namespace Scalar

variable {α : Type} [Scalar α]

/-- The whole part, rounded toward zero. -/
@[specialize] def trunc (x : α) : α :=
  if lt x 0 then ceil x else floor x

/-- What is left without the whole part; it has the sign of the number. -/
@[specialize] def fract (x : α) : α :=
  x - trunc x

@[specialize] def abs (x : α) : α :=
  if le x 0 then 0 - x else x

/-- The larger of two numbers; one that compares with nothing loses. -/
@[specialize] def max (x y : α) : α :=
  if lt x y || !eq x x then y else x

/-- The smaller of two numbers; one that compares with nothing loses. -/
@[specialize] def min (x y : α) : α :=
  if lt y x || !eq x x then y else x

/-- Two comparisons: a number that compares with nothing passes unchanged. -/
@[specialize] def clamp (x low high : α) : α :=
  let x := if lt x low then low else x
  if lt high x then high else x

/-- The nearest whole number; a half goes away from zero. -/
@[specialize] def round (x : α) : α :=
  let whole := trunc x
  if le 0.5 (abs (x - whole)) then
    if lt x 0 then whole - 1 else whole + 1
  else whole

/-- Remainder in `[0, |y|)`. -/
@[specialize] def modulo (x y : α) : α :=
  let r := rem x y
  if lt r 0 then r + abs y else r

/-- Power to a natural exponent by repeated squaring. -/
@[specialize] def npowGo (fuel : Nat) (acc base : α) (n : Nat) : α :=
  match fuel with
  | 0 => acc
  | fuel + 1 =>
    let acc := if n % 2 = 1 then acc * base else acc
    if n / 2 = 0 then acc else npowGo fuel acc (base * base) (n / 2)

@[specialize] def npow (base : α) (n : Nat) : α :=
  npowGo (n + 1) 1 base n

/-- Power to a whole exponent; a negative one takes the reciprocal at the end. -/
@[specialize] def zpow (base : α) : Int → α
  | .ofNat n => npow base n
  | .negSucc n => 1 / npow base (n + 1)

/-- Sum from left to right, starting at zero. -/
@[specialize] def sum (xs : List α) : α :=
  xs.foldl (· + ·) 0

end Scalar

end Multisample
