import LineScript.Fault

/-!
Type annotations as conditions on values.  A value that fits an annotation is
stored in the form the annotation names.
-/

namespace LineScript
namespace Conformance

def int32Min : Int := -0x80000000

def int32Max : Int := 0x7fffffff

def int64Min : Int := -0x8000000000000000

def int64Max : Int := 0x7fffffffffffffff

def refuse (tag : TypeTag) (value : Value) : Except Fault Value :=
  .error (.typeMismatch (.tag tag) (.kind value.kind))

/-- A character, or a string of exactly one character. -/
def asChar : Value → Except Fault Value
  | .char character => .ok (.char character)
  | .string [character] => .ok (.char character)
  | .string text =>
      .error (.typeMismatch (.tag .char) (.stringOfLength text.length))
  | other => refuse .char other

/-- The integer that a double is equal to, if it is in the range of 64 bits. -/
def integral? (number : Float) : Option Int :=
  (decodeDouble number).integer?.filter fun integer =>
    decide (int64Min ≤ integer ∧ integer ≤ int64Max)

def bounded (tag : TypeTag) (low high number : Int) : Except Fault Value :=
  if low ≤ number ∧ number ≤ high then
    .ok (.integer (Int64.ofInt number))
  else
    .error (.typeMismatch (.tag tag) (.outOfRange number))

/-- An integer between the bounds, or a number that is equal to one. -/
def asInteger (tag : TypeTag) (low high : Int) (value : Value) :
    Except Fault Value :=
  match value with
  | .integer number => bounded tag low high number.toInt
  | .float32 number => fromDouble (widen number)
  | .float64 number => fromDouble number
  | other => refuse tag other
where
  fromDouble (number : Float) : Except Fault Value :=
    match integral? number with
    | some integer => bounded tag low high integer
    | none =>
        .error (.typeMismatch (.tag tag)
          (.unfitNumber value.kind (Decimal.double number)))

/-- The value as it is stored under an annotation. -/
def check (tag : TypeTag) (value : Value) : Except Fault Value :=
  match tag with
  | .string =>
      match value with
      | .string text => .ok (.string text)
      | other => refuse .string other
  | .char => asChar value
  | .int32 => asInteger .int32 int32Min int32Max value
  | .int64 => asInteger .int64 int64Min int64Max value
  | .float32 =>
      match value.number? with
      | some number => .ok (.float32 (narrow number))
      | none => refuse .float32 value
  | .float64 =>
      match value.number? with
      | some number => .ok (.float64 number)
      | none => refuse .float64 value

end Conformance
end LineScript
