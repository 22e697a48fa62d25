import LineScript.Text.Basic

/-!
Reading numbers from decimal text.
-/

namespace LineScript
namespace Decimal

def digitsValue (run : Text) : Nat :=
  run.foldl (fun value digit => value * 10 + (digit.toNat - '0'.toNat)) 0

def readDigits? (run : Text) : Option Nat :=
  if run.isEmpty || !run.all Text.isDigit then none else some (digitsValue run)

/-- The natural number written by digits, with an optional plus sign, if it is
below the bound. -/
def readNatural? (bound : Nat) (text : Text) : Option Nat :=
  let run :=
    match text with
    | '+' :: rest => rest
    | _ => text
  (readDigits? run).filter (· < bound)

def readSigned? (text : Text) : Option Int :=
  match text with
  | '+' :: rest => (readDigits? rest).map Int.ofNat
  | '-' :: rest => (readDigits? rest).map fun magnitude => -Int.ofNat magnitude
  | _ => (readDigits? text).map Int.ofNat

def int64? (number : Int) : Option Int64 :=
  if Int64.minValue.toInt ≤ number ∧ number ≤ Int64.maxValue.toInt then
    some (Int64.ofInt number)
  else
    none

def readInteger? (text : Text) : Option Int64 :=
  (readSigned? text).bind int64?

/-- The double nearest to the decimal written by digits around at most one
point.  At least one digit has to be there. -/
def readDouble? (text : Text) : Option Float :=
  match Text.cut '.' text with
  | none => (readDigits? text).map fun value => Float.ofScientific value true 0
  | some (whole, fraction) =>
      (readDigits? (whole ++ fraction)).map fun value =>
        Float.ofScientific value true fraction.length

end Decimal
end LineScript
