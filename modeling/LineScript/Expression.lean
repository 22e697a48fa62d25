import LineScript.Fault
import LineScript.Number.Reading
import LineScript.Text.Escapes
import LineScript.Text.TopLevel

/-!
Expressions as they are read from text, before any of their names has a value.
-/

namespace LineScript

/-- An expression.  Text that cannot be read is kept as such, since only the
parts that are evaluated can fail. -/
inductive Expression
  | malformed (cause : Malformation)
  | string (template : Text)
  | char (character : Char)
  | call (callee : Text) (arguments : List Text)
  | name (identifier : Text)
  | negation (operand : Expression)
  | conditional (condition yes no : Expression)
  | integer (number : Int64)
  | arithmetic (source : Text)
deriving DecidableEq

namespace Expression

open Text

/-- What follows `not` and a blank, or `!` unless it starts `!=`. -/
def negated? (text : Text) : Option Text :=
  match (dropStart? "not".toList text).filter startsBlank with
  | some operand => some operand
  | none =>
      match text with
      | '!' :: '=' :: _ => none
      | '!' :: operand => some operand
      | _ => none

theorem length_of_negated?
    {text operand : Text} (found : negated? text = some operand) :
    operand.length < text.length := by
  unfold negated? at found
  split at found
  · next rest filtered =>
      simp only [Option.some.injEq] at found
      subst found
      have dropped := (Option.filter_eq_some_iff.mp filtered).1
      have lengths := length_of_dropStart? dropped
      simp at lengths
      omega
  · split at found
    · simp at found
    · simp only [Option.some.injEq] at found
      subst found
      simp
    · simp at found

def ofCharLiteral (source body : Text) : Expression :=
  match unescape body with
  | [character] => .char character
  | _ => .malformed (.characterLiteral source)

def readTrimmed (text : Text) : Expression :=
  if text.isEmpty then
    .malformed .emptyExpression
  else
  match stringLiteral? text with
  | some body => .string (unescape body)
  | none =>
  match charLiteral? text with
  | some body => ofCharLiteral text body
  | none =>
  match splitCall? text with
  | some (callee, arguments) => .call callee arguments
  | none =>
  if isName text then
    .name text
  else
  match _negated : negated? text with
  | some operand => .negation (readTrimmed (trimStart operand))
  | none =>
  match _split : splitConditional? text with
  | some (condition, yes, no) =>
      .conditional (readTrimmed condition) (readTrimmed yes) (readTrimmed no)
  | none =>
  match Decimal.readInteger? text with
  | some number => .integer number
  | none => .arithmetic text
termination_by text.length
decreasing_by
  · exact Nat.lt_of_le_of_lt (length_trimStart_le operand)
      (length_of_negated? _negated)
  · exact (length_of_splitConditional? _split).1
  · exact (length_of_splitConditional? _split).2.1
  · exact (length_of_splitConditional? _split).2.2

def read (source : Text) : Expression :=
  readTrimmed (trim source)

end Expression
end LineScript
