import LineScript.Fault
import LineScript.Keyword

/-!
Statements: what one line of a program says.
-/

namespace LineScript

inductive Step
  | increment
  | decrement
deriving DecidableEq

/-- A line of a program, classified.  Expressions stay texts: they are read when
the statement runs. -/
inductive Statement
  | empty
  | comment
  | returns (value : Option Text)
  | write (template : Text) (arguments : List Text) (newline : Bool)
  | system (template : Text) (arguments : List Text)
  | arrow (closure : Closure)
  | declare (name typeText expression : Text)
  | declareBool (name expression : Text)
  | declareList (name : Text) (elements : List Text)
  | blockOpen (keyword : BlockKeyword)
  | blockClose
  | call (name : Text) (arguments : List Text)
  | step (name : Text) (direction : Step)
  | assign (name expression : Text)
  | expression (source : Text)
deriving DecidableEq

end LineScript
