import LineScript.Command

/-!
Backslash escapes in the arguments of the printing commands of the stand-in for
a host.
-/

namespace LineScript
namespace Command

/-- What printing commands produce: bytes, or the order to stop at once. -/
inductive Output
  | bytes (content : List UInt8)
  | stop
deriving DecidableEq

/-- The bytes up to the first stop, and whether there was one. -/
def settle : List Output → List UInt8 × Bool
  | [] => ([], false)
  | .stop :: _ => ([], true)
  | .bytes content :: later =>
      let (rest, stopped) := settle later
      (content ++ rest, stopped)

def octal? (character : Char) : Option Nat :=
  if '0' ≤ character ∧ character ≤ '7' then
    some (character.toNat - '0'.toNat)
  else
    none

def hexadecimal? (character : Char) : Option Nat :=
  if Text.isDigit character then some (character.toNat - '0'.toNat)
  else if 'a' ≤ character ∧
    character ≤ 'f' then some (character.toNat - 'a'.toNat + 10)
  else if 'A' ≤ character ∧
    character ≤ 'F' then some (character.toNat - 'A'.toNat + 10)
  else none

/-- The value of at most `limit` leading digits, their number, and the rest. -/
def spanDigits (digit? : Char → Option Nat) (base : Nat) :
    (limit : Nat) → (value : Nat) → Text → Nat × Text
  | 0, value, text => (value, text)
  | _ + 1, value, [] => (value, [])
  | limit + 1, value, character :: rest =>
      match digit? character with
      | some digit => spanDigits digit? base limit (value * base + digit) rest
      | none => (value, character :: rest)

def byte (value : Nat) : List UInt8 :=
  [UInt8.ofNat value]

def control? : Char → Option Nat
  | 'a' => some 7
  | 'b' => some 8
  | 'e' => some 27
  | 'f' => some 12
  | 'n' => some 10
  | 'r' => some 13
  | 't' => some 9
  | 'v' => some 11
  | '\\' => some 92
  | _ => none

theorem length_spanDigits_le
    (digit? : Char → Option Nat) (base limit value : Nat) (text : Text) :
    (spanDigits digit? base limit value text).2.length ≤ text.length := by
  induction limit generalizing value text with
  | zero => simp [spanDigits]
  | succ limit induction =>
      cases text with
      | nil => simp [spanDigits]
      | cons character rest =>
          simp only [spanDigits]
          split
          · exact Nat.le_succ_of_le (induction _ rest)
          · simp

end Command
end LineScript
