import LineScript.Text.Basic

/-!
The tokens of an arithmetic expression.
-/

namespace LineScript
namespace Arithmetic

open Text

/-- A token: a run of digits and points, a name, or any other single character
that is not blank. -/
inductive Token
  | number (first : Char) (rest : Text)
  | name (first : Char) (rest : Text)
  | symbol (character : Char)
deriving DecidableEq

namespace Token

def head : Token → Char
  | number first _ => first
  | name first _ => first
  | symbol character => character

end Token

def isNumeric (character : Char) : Bool :=
  isDigit character || character == '.'

/-- The tokens of a text, left to right.  Numbers and names are as long as
possible, blanks only separate. -/
def tokens : Text → List Token
  | [] => []
  | character :: rest =>
      if isBlank character then
        tokens rest
      else if isNumeric character then
        .number character (rest.takeWhile isNumeric) ::
          tokens (rest.dropWhile isNumeric)
      else if isNameStart character then
        .name character (rest.takeWhile isNameChar) ::
          tokens (rest.dropWhile isNameChar)
      else
        .symbol character :: tokens rest
termination_by text => text.length
decreasing_by
  · simp
  · have shorter := (List.dropWhile_sublist isNumeric (l := rest)).length_le
    simp only [List.length_cons]
    omega
  · have shorter := (List.dropWhile_sublist isNameChar (l := rest)).length_le
    simp only [List.length_cons]
    omega
  · simp

end Arithmetic
end LineScript
