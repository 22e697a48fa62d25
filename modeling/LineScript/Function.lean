import LineScript.TypeTag
import LineScript.Text.TopLevel

/-!
Functions, declared by name or written as arrow functions.
-/

namespace LineScript

structure Parameter where
  name : Text
  tag : TypeTag
deriving DecidableEq

structure Function where
  name : Text
  parameters : List Parameter
  returns : ReturnType
  body : List Text
deriving DecidableEq

inductive ClosureBody
  | expression (source : Text)
  | block (source : Text)
deriving DecidableEq

namespace ClosureBody

def source : ClosureBody → Text
  | expression source => source
  | block source => source

/-- A statement of a block as a line: it ends with a semicolon unless it ends
with a brace. -/
def terminated (statement : Text) : Text :=
  if Text.endsWith '{' statement || Text.endsWith '}' statement then
    statement
  else
    statement ++ [';']

/-- The lines that the body stands for: an expression is returned, a block is
cut at its top-level semicolons. -/
def lines : ClosureBody → List Text
  | expression source => ["return ".toList ++ Text.trim source ++ [';']]
  | block source =>
      ((Text.splitTopLevel ';' source).filter fun statement =>
        !statement.isEmpty).map terminated

end ClosureBody

structure Closure where
  name : Text
  parameters : List Parameter
  returns : ReturnType
  body : ClosureBody
deriving DecidableEq

namespace Closure

/-- The function that a call of the arrow function runs. -/
def function (closure : Closure) : Function :=
  { name := closure.name
    parameters := closure.parameters
    returns := closure.returns
    body := closure.body.lines }

end Closure
end LineScript
