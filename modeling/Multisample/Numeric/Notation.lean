import Multisample.Numeric.Decimal

/-!
# Notations of floats

A float with a chosen number of digits: after the point, in scientific form, or
in whichever of the two is shorter.  The sign is written by whoever asks; here
magnitudes only.
-/

namespace Multisample.Notation

/-- A natural number over a power of ten, with so many places after the point. -/
def pointed (n places : Nat) (keepPoint : Bool) : String :=
  let digits := Decimal.digitText n
  let padded := List.replicate (places + 1 - digits.length) '0' ++ digits
  let whole := padded.length - places
  let fraction := padded.drop whole
  String.ofList (padded.take whole ++ (if fraction.isEmpty && !keepPoint then [] else '.' :: fraction))

/-- So many digits after the point. -/
def fixed (x : Binary) (places : Nat) (keepPoint : Bool) : String :=
  pointed (x.scaled places) places keepPoint

/-- An exponent with its sign and two digits at least. -/
def exponentText (exponent : Int) : String :=
  let digits := Decimal.digitText exponent.natAbs
  let padded := if digits.length < 2 then '0' :: digits else digits
  (if exponent < 0 then "e-" else "e+") ++ String.ofList padded

/-- The digits and the place of the first one, for a float that may be zero. -/
def leading (x : Binary) (count : Nat) : Nat × Int :=
  if x.mantissa = 0 then (0, 0)
  else
    let d := Decimal.significant x count
    (d.digits, d.exponent + (count - 1))

/-- One digit in front of the point, so many after it, and an exponent. -/
def scientific (x : Binary) (places : Nat) (keepPoint : Bool) : String :=
  let (digits, place) := leading x (places + 1)
  pointed digits places keepPoint ++ exponentText place

/-- Drops zeros behind the point, and the point with them. -/
def dropZeros (text : String) : String :=
  if text.toList.contains '.' then
    let kept := text.toList.reverse.dropWhile (· = '0')
    String.ofList (kept.dropWhile (· = '.')).reverse
  else text

/-- So many significant digits, in scientific form when the exponent is small or large. -/
def general (x : Binary) (digits : Nat) (keepZeros : Bool) : String :=
  let count := max digits 1
  let (_, place) := leading x count
  if place < -4 || count ≤ place then
    let (n, place) := leading x count
    let mantissa := pointed n (count - 1) keepZeros
    (if keepZeros then mantissa else dropZeros mantissa) ++ exponentText place
  else
    let text := fixed x (count - 1 - place).toNat keepZeros
    if keepZeros then text else dropZeros text

/-- The digits of a number in base sixteen. -/
def hexDigits (n : Nat) : String :=
  String.ofList (Nat.toDigits 16 n)

/-- The binary value in base sixteen: one digit, a fraction, and a power of two. -/
def hexadecimal (x : Binary) (places : Option Nat) : String :=
  let normal := 1 <<< 52 ≤ x.mantissa
  let exponent := if x.mantissa = 0 then 0 else x.exponent + 52
  let (whole, fraction) := (if normal then 1 else 0, x.mantissa % (1 <<< 52))
  let (whole, digits) := match places with
    | none =>
      let text := hexDigits ((1 <<< 52) + fraction)
      (whole, ((text.toList.drop 1).reverse.dropWhile (· = '0')).reverse)
    | some places =>
      if 13 ≤ places then
        (whole, (hexDigits ((1 <<< 52) + fraction)).toList.drop 1 ++ List.replicate (places - 13) '0')
      else
        let rounded := Binary.roundedQuotient ((whole <<< 52) + fraction) (1 <<< (52 - 4 * places))
        let unit := 1 <<< (4 * places)
        (rounded / unit, if places = 0 then [] else (hexDigits (unit + rounded % unit)).toList.drop 1)
  let point := if digits.isEmpty then "" else "."
  let sign := if exponent < 0 then "-" else "+"
  "0x" ++ toString whole ++ point ++ String.ofList digits ++ "p" ++ sign ++ toString exponent.natAbs

end Multisample.Notation
