/-!
Binary floating-point numbers taken apart into sign, significand and exponent,
and put together again with rounding to the nearest, ties to even.
-/

namespace LineScript

def twoPow (exponent : Nat) : Nat :=
  Nat.pow 2 exponent

/-- An interchange format: the bits of the significand, the hidden one included,
and the bits of the exponent. -/
structure BinaryFormat where
  precision : Nat
  exponentBits : Nat

/-- A number of a binary format.  A finite one is `±significand * 2 ^
exponent`. -/
inductive BinaryNumber
  | nan
  | infinite (negative : Bool)
  | finite (negative : Bool) (significand : Nat) (exponent : Int)
deriving DecidableEq

namespace BinaryFormat

/-- Eight bytes: 53 bits of significand, 11 of exponent. -/
def double : BinaryFormat := ⟨53, 11⟩

/-- Four bytes: 24 bits of significand, 8 of exponent. -/
def single : BinaryFormat := ⟨24, 8⟩

/-- The smallest exponent of a significand, that of the numbers next to zero. -/
def minExponent (format : BinaryFormat) : Int :=
  3 - twoPow (format.exponentBits - 1) - format.precision

/-- The exponent field of infinities and of what is not a number. -/
def topField (format : BinaryFormat) : Nat :=
  twoPow format.exponentBits - 1

def hiddenBit (format : BinaryFormat) : Nat :=
  twoPow (format.precision - 1)

def decode (format : BinaryFormat) (bits : Nat) : BinaryNumber :=
  let fraction := bits % format.hiddenBit
  let field := bits / format.hiddenBit % twoPow format.exponentBits
  let negative := bits / format.hiddenBit / twoPow format.exponentBits % 2 == 1
  if field = format.topField then
    if fraction = 0 then .infinite negative else .nan
  else if field = 0 then
    .finite negative fraction format.minExponent
  else
    .finite negative (fraction + format.hiddenBit)
      (format.minExponent + field - 1)

/-- The bit pattern with the given sign, exponent field and fraction. -/
def pack (format : BinaryFormat) (negative : Bool) (field fraction : Nat) :
    Nat :=
  (if negative then twoPow format.exponentBits else 0) * format.hiddenBit +
    field * format.hiddenBit + fraction

/-- Division by a power of two, rounded to the nearest, ties to even. -/
def shiftRounded (value places : Nat) : Nat :=
  let divisor := twoPow places
  let quotient := value / divisor
  let remainder := 2 * (value % divisor)
  if divisor < remainder || (remainder == divisor && quotient % 2 == 1) then
    quotient + 1
  else
    quotient

/-- The bit pattern of the number nearest to `±significand * 2 ^ exponent`. -/
def encode (format : BinaryFormat)
    (negative : Bool) (significand : Nat) (exponent : Int) : Nat :=
  if significand = 0 then
    format.pack negative 0 0
  else
    let length := Nat.log2 significand + 1
    let target := max format.minExponent (exponent + length - format.precision)
    let rounded :=
      if exponent ≤ target then
        shiftRounded significand (target - exponent).toNat
      else
        significand * twoPow (exponent - target).toNat
    let field :=
      if rounded < format.hiddenBit then 0
      else (target - format.minExponent).toNat + 1
    let fraction := if field = 0 then rounded else rounded - format.hiddenBit
    let packed := field * format.hiddenBit + fraction
    if format.topField * format.hiddenBit ≤ packed then
      format.pack negative format.topField 0
    else
      format.pack negative 0 packed

end BinaryFormat

namespace BinaryNumber

/-- The integer that a finite number is equal to, if it is one. -/
def integer? : BinaryNumber → Option Int
  | nan => none
  | infinite _ => none
  | finite negative significand exponent =>
      let magnitude? :=
        if 0 ≤ exponent then
          some (significand * twoPow exponent.toNat)
        else if significand % twoPow (-exponent).toNat = 0 then
          some (significand / twoPow (-exponent).toNat)
        else
          none
      magnitude?.map fun magnitude =>
        if negative then -(magnitude : Int) else magnitude

end BinaryNumber

def decodeDouble (number : Float) : BinaryNumber :=
  BinaryFormat.double.decode number.toBits.toNat

def decodeSingle (number : Float32) : BinaryNumber :=
  BinaryFormat.single.decode number.toBits.toNat

def doubleNaN : Float :=
  Float.ofBits
    (UInt64.ofNat (BinaryFormat.double.pack false BinaryFormat.double.topField
    (BinaryFormat.double.hiddenBit / 2)))

def singleNaN : Float32 :=
  Float32.ofBits
    (UInt32.ofNat (BinaryFormat.single.pack false BinaryFormat.single.topField
    (BinaryFormat.single.hiddenBit / 2)))

def encodeDouble : BinaryNumber → Float
  | .nan => doubleNaN
  | .infinite negative =>
      Float.ofBits (UInt64.ofNat
        (BinaryFormat.double.pack negative BinaryFormat.double.topField 0))
  | .finite negative significand exponent =>
      Float.ofBits
        (UInt64.ofNat
          (BinaryFormat.double.encode negative significand exponent))

def encodeSingle : BinaryNumber → Float32
  | .nan => singleNaN
  | .infinite negative =>
      Float32.ofBits (UInt32.ofNat
        (BinaryFormat.single.pack negative BinaryFormat.single.topField 0))
  | .finite negative significand exponent =>
      Float32.ofBits
        (UInt32.ofNat
          (BinaryFormat.single.encode negative significand exponent))

def widen (number : Float32) : Float :=
  encodeDouble (decodeSingle number)

def narrow (number : Float) : Float32 :=
  encodeSingle (decodeDouble number)

/-- The remainder of a division that rounds its quotient toward zero.  It is
exact and has the sign of the dividend. -/
def remainder (dividend divisor : Float) : Float :=
  match decodeDouble dividend, decodeDouble divisor with
  | .finite negative significand exponent, .finite _ modulus scale =>
      if modulus = 0 then
        doubleNaN
      else
        let common := min exponent scale
        let left := significand * twoPow (exponent - common).toNat
        let right := modulus * twoPow (scale - common).toNat
        encodeDouble (.finite negative (left % right) common)
  | .finite _ _ _, .infinite _ => dividend
  | _, _ => doubleNaN

end LineScript
