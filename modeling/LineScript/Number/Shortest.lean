import LineScript.Text.Basic
import LineScript.Number.Binary

/-!
The decimal text of a number: the fewest digits that read back as the same
number, written positionally.
-/

namespace LineScript
namespace Decimal

/-- The reals that round to a number, scaled to a common denominator:
`low / denominator` to `high / denominator` around `value / denominator`. -/
structure Interval where
  low : Nat
  value : Nat
  high : Nat
  denominator : Nat
  closed : Bool

namespace Interval

/-- The interval of `significand * 2 ^ exponent`.  Its ends belong to it if the
significand is even; below a power of two the lower half is half as wide, unless
the number is next to the smallest exponent. -/
def around (format : BinaryFormat) (significand : Nat) (exponent : Int) :
    Interval :=
  let narrowBelow :=
    significand == format.hiddenBit && format.minExponent < exponent
  let scale := exponent - 2
  let factor := twoPow scale.toNat
  { low := (4 * significand - (if narrowBelow then 1 else 2)) * factor
    value := 4 * significand * factor
    high := (4 * significand + 2) * factor
    denominator := twoPow (-scale).toNat
    closed := significand % 2 == 0 }

/-- The interval in units of `10 ^ power`. -/
def inUnits (interval : Interval) (power : Int) : Interval :=
  let up := Nat.pow 10 (-power).toNat
  { low := interval.low * up
    value := interval.value * up
    high := interval.high * up
    denominator := interval.denominator * Nat.pow 10 power.toNat
    closed := interval.closed }

def contains (interval : Interval) (candidate : Nat) : Bool :=
  let scaled := candidate * interval.denominator
  if interval.closed then
    interval.low ≤ scaled && scaled ≤ interval.high
  else
    interval.low < scaled && scaled < interval.high

/-- The integer of the interval nearest to its value, the upper one of two that
are equally near. -/
def nearest? (interval : Interval) : Option Nat :=
  let lower := interval.value / interval.denominator
  let upper := lower + 1
  let excess := interval.value % interval.denominator
  match interval.contains lower, interval.contains upper with
  | true, true =>
      some (if interval.denominator ≤ 2 * excess then upper else lower)
  | true, false => some lower
  | false, true => some upper
  | false, false => none

end Interval

/-- Tries ever finer powers of ten until an integral multiple of one lies in the
interval. -/
def search (interval : Interval) : (steps : Nat) → (power : Int) → Nat × Int
  | 0, power =>
      ((interval.inUnits power).value / (interval.inUnits power).denominator,
        power)
  | steps + 1, power =>
      match (interval.inUnits power).nearest? with
      | some digits => (digits, power)
      | none => search interval steps (power - 1)

/-- The digits and the power of ten of the shortest decimal that reads back as
`significand * 2 ^ exponent`.  The search starts above the number and needs at
most the seventeen digits that tell two numbers apart. -/
def shortest (format : BinaryFormat) (significand : Nat) (exponent : Int) :
    Nat × Int :=
  let bits := exponent + Nat.log2 significand + 1
  search (.around format significand exponent) 24 (bits * 30103 / 100000 + 1)

def digits (number : Nat) : Text :=
  Nat.toDigits 10 number

def integer (number : Int) : Text :=
  if number < 0 then '-' :: digits number.natAbs else digits number.natAbs

/-- `number * 10 ^ power` without an exponent. -/
def positional (number : Nat) (power : Int) : Text :=
  let figures := digits number
  if 0 ≤ power then
    figures ++ List.replicate power.toNat '0'
  else
    let places := (-power).toNat
    if places < figures.length then
      figures.take (figures.length - places) ++ '.' ::
        figures.drop (figures.length - places)
    else
      '0' :: '.' :: List.replicate (places - figures.length) '0' ++ figures

def number (format : BinaryFormat) : BinaryNumber → Text
  | .nan => "NaN".toList
  | .infinite negative => if negative then "-inf".toList else "inf".toList
  | .finite negative significand exponent =>
      let magnitude :=
        if significand = 0 then
          ['0']
        else
          let (figures, power) := shortest format significand exponent
          positional figures power
      if negative then '-' :: magnitude else magnitude

def double (value : Float) : Text :=
  number .double (decodeDouble value)

def single (value : Float32) : Text :=
  number .single (decodeSingle value)

end Decimal
end LineScript
