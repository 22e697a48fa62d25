import LineScript.Text.Quotes

/-!
The parts of a line that macro expansion tells apart.
-/

namespace LineScript
namespace Macro

open Text

/-- A part of a line: a literal with its quotes, a word that starts with a
digit, a name, or a single other character. -/
inductive Lexeme
  | literal (content : Text)
  | number (content : Text)
  | word (content : Text)
  | other (character : Char)
deriving DecidableEq

namespace Lexeme

def text : Lexeme → Text
  | literal content => content
  | number content => content
  | word content => content
  | other character => [character]

/-- The characters a word that starts with a digit goes on with. -/
def isNumberChar (character : Char) : Bool :=
  isNameChar character || character == '.'

/-- The part that starts with the given character, and what follows it.  Digits
start a part of their own only if `numbers` says so. -/
def next (numbers : Bool) (character : Char) (rest : Text) : Lexeme × Text :=
  if Quotes.isQuote character then
    let spanned := spanLiteral character rest
    (literal spanned.1, spanned.2)
  else if numbers && isDigit character then
    (number (character :: rest.takeWhile isNumberChar), rest.dropWhile isNumberChar)
  else if isNameStart character then
    (word (character :: rest.takeWhile isNameChar), rest.dropWhile isNameChar)
  else
    (other character, rest)

theorem length_next_le (numbers : Bool) (character : Char) (rest : Text) :
    (next numbers character rest).2.length ≤ rest.length := by
  unfold next
  split
  · exact length_spanLiteral_le character rest
  · split
    · exact (List.dropWhile_sublist isNumberChar).length_le
    · split
      · exact (List.dropWhile_sublist isNameChar).length_le
      · exact Nat.le_refl _

end Lexeme

def lexemes (numbers : Bool) : Text → List Lexeme
  | [] => []
  | character :: rest =>
      (Lexeme.next numbers character rest).1 ::
        lexemes numbers (Lexeme.next numbers character rest).2
termination_by line => line.length
decreasing_by
  have shorter := Lexeme.length_next_le numbers character rest
  simp only [List.length_cons]
  omega

end Macro
end LineScript
