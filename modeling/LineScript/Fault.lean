import LineScript.Host
import LineScript.Value

/-!
What can go wrong while a statement is read or run, and the messages about it.
-/

namespace LineScript

inductive Malformation
  | emptyExpression
  | characterLiteral (source : Text)
  | unexpectedCharacter (character : Char) (source : Text)
  | unexpectedEnd (source : Text)
  | missingParen (source : Text)
  | number (run : Text)
  | writeWithoutArgument (head : Text)
  | systemWithoutCommand
  | blankCommand
  | declaration (statement : Text)
  | missingType (statement : Text)
  | missingArrow (statement : Text)
  | missingArrowBody (statement : Text)
  | unclosedArrowBody (statement : Text)
  | arrowParameter (parameter : Text)
  | parameterName (name : Text)
  | missingListBrackets (statement : Text)
  | returnOutsideFunction
  | unclosedBlock (keyword function : Text)
deriving DecidableEq

inductive Expectation
  | tag (annotated : TypeTag)
  | boolean
  | number
  | template
  | value
deriving DecidableEq

inductive Finding
  | kind (found : Value.Kind)
  | unfitNumber (found : Value.Kind) (number : Text)
  | outOfRange (number : Int)
  | stringOfLength (length : Nat)
  | namedValue (found : Value.Kind) (name : Text)
  | voidCall (function : Text)
  | bareReturn (function : Text)
  | stepOverflow (number : Int)
deriving DecidableEq

inductive Fault
  | malformed (cause : Malformation)
  | typeMismatch (expected : Expectation) (found : Finding)
  | undefinedVariable (name : Text)
  | undefinedFunction (name : Text)
  | argumentCount (name : Text) (expected got : Nat)
  | unknownType (written : Text)
  | recursionLimit (limit : Nat)
  | command (line : Text) (failure : HostFailure)
deriving DecidableEq

def quoted (text : Text) : Text :=
  '`' :: text ++ ['`']

namespace Malformation

def message : Malformation → Text
  | emptyExpression => "empty expression".toList
  | characterLiteral source => "invalid character literal ".toList ++ source
  | unexpectedCharacter character source =>
      "unexpected ".toList ++ quoted [character] ++ " in ".toList ++
        quoted source
  | unexpectedEnd source =>
      "unexpected end of expression ".toList ++ quoted source
  | missingParen source => "missing `)` in ".toList ++ quoted source
  | number run => "invalid number ".toList ++ quoted run
  | writeWithoutArgument head =>
      head ++ "() requires at least one argument".toList
  | systemWithoutCommand => "console.system() requires a command".toList
  | blankCommand => "console.system() requires a non-empty command".toList
  | declaration statement => "malformed declaration ".toList ++ quoted statement
  | missingType statement =>
      "missing type annotation in ".toList ++ quoted statement
  | missingArrow statement => "expected `=>` in ".toList ++ quoted statement
  | missingArrowBody statement =>
      "missing arrow function body in ".toList ++ quoted statement
  | unclosedArrowBody statement =>
      "unclosed arrow function body in ".toList ++ quoted statement
  | arrowParameter parameter =>
      "invalid arrow parameter ".toList ++ quoted parameter
  | parameterName name => "invalid parameter name ".toList ++ quoted name
  | missingListBrackets statement =>
      "expected `[...]` in ".toList ++ quoted statement
  | returnOutsideFunction => "`return` outside of a function".toList
  | unclosedBlock keyword function =>
      "unclosed ".toList ++ quoted keyword ++ " block in ".toList ++ function

end Malformation

namespace Expectation

def text : Expectation → Text
  | tag annotated => annotated.text
  | boolean => "Boolean".toList
  | number => "a number".toList
  | template => "String template".toList
  | value => "a value".toList

end Expectation

namespace Finding

def text : Finding → Text
  | kind found => found.text
  | unfitNumber found number => found.text ++ ' ' :: number
  | outOfRange number =>
      "Integer ".toList ++ Decimal.integer number ++ " (out of range)".toList
  | stringOfLength length => "String of length ".toList ++ Decimal.digits length
  | namedValue found name => found.text ++ ' ' :: quoted name
  | voidCall function => "void from ".toList ++ function ++ "()".toList
  | bareReturn function => "no value from `return;` in ".toList ++ function
  | stepOverflow number => "overflow stepping ".toList ++ Decimal.integer number

end Finding

namespace Fault

def message : Fault → Text
  | malformed cause => "syntax error: ".toList ++ cause.message
  | typeMismatch expected found =>
      "type error: expected ".toList ++ expected.text ++ ", got ".toList ++
        found.text
  | undefinedVariable name => "undefined variable: ".toList ++ name
  | undefinedFunction name => "undefined function: ".toList ++ name
  | argumentCount name expected got =>
      name ++ " expects ".toList ++ Decimal.digits expected ++
        (if expected =
          1 then " argument, got ".toList else " arguments, got ".toList) ++
          Decimal.digits got
  | unknownType written => "unknown type annotation: ".toList ++ written
  | recursionLimit limit =>
      "recursion limit exceeded: more than ".toList ++ Decimal.digits limit ++
        " nested calls".toList
  | command line failure =>
      "failed to run ".toList ++ quoted line ++ ": ".toList ++ failure.message

def code : Fault → Text
  | malformed _ => "E6001".toList
  | typeMismatch _ _ => "E6002".toList
  | undefinedVariable _ => "E6003".toList
  | undefinedFunction _ => "E6004".toList
  | argumentCount _ _ _ => "E6005".toList
  | unknownType _ => "E6006".toList
  | recursionLimit _ => "E6007".toList
  | command _ _ => "E6008".toList

def isMalformed : Fault → Bool
  | malformed _ => true
  | _ => false

end Fault

def TypeTag.read (written : Text) : Except Fault TypeTag :=
  let word := Text.trim written
  match TypeTag.ofText? word with
  | some tag => .ok tag
  | none => .error (.unknownType word)

def ReturnType.read (written : Text) : Except Fault ReturnType :=
  let word := Text.trim written
  match ReturnType.ofText? word with
  | some returns => .ok returns
  | none => .error (.unknownType word)

end LineScript
