/-!
# Random numbers

A generator with four words of state.  Its numbers are spread evenly over a
range by drawing again where a remainder would favour some of them.
-/

namespace Multisample.Script.Random

abbrev State := UInt64 × UInt64 × UInt64 × UInt64

def rotate (x n : UInt64) : UInt64 :=
  (x <<< n) ||| (x >>> (64 - n))

/-- The next number and the state behind it. -/
def next (s : State) : UInt64 × State :=
  let (s0, s1, s2, s3) := s
  let result := rotate (s1 * 5) 7 * 9
  let t := s1 <<< 17
  let s2 := s2 ^^^ s0
  let s3 := s3 ^^^ s1
  let s1 := s1 ^^^ s2
  let s0 := s0 ^^^ s3
  (result, (s0, s1, s2 ^^^ t, rotate s3 45))

/-- The state behind so many numbers. -/
def skip : Nat → State → State
  | 0, s => s
  | n + 1, s => skip n (next s).2

/-- The state that two numbers start. -/
def seed (a b : UInt64) : State :=
  skip 16 (a, 0xff, b, 0)

/-- The top bits of a number as a fraction below one. -/
def fraction (n : UInt64) : Float :=
  (n >>> 11).toFloat / 9007199254740992.0

/-- Draws until a number, cut to the bits of the limit, is not above the limit. -/
def project (n limit mask : UInt64) : Nat → State → UInt64 × State
  | 0, s => (n &&& mask, s)
  | fuel + 1, s =>
    if (n &&& mask) ≤ limit then (n &&& mask, s)
    else
      let (n, s) := next s
      project n limit mask fuel s

/-- A number from zero to a limit, made of a number already drawn. -/
def upTo (n limit : UInt64) (s : State) : UInt64 × State :=
  if limit &&& (limit + 1) = 0 then (n &&& limit, s)
  else project n limit (UInt64.ofNat ((1 <<< (limit.toNat.log2 + 1)) - 1)) 1000 s

end Multisample.Script.Random
