import LineScript.Function
import LineScript.Number.Shortest

/-!
The values that expressions evaluate to, their texts and their equality.
-/

namespace LineScript

inductive Value
  | integer (number : Int64)
  | float32 (number : Float32)
  | float64 (number : Float)
  | boolean (truth : Bool)
  | char (character : Char)
  | string (content : Text)
  | list (items : List Value)
  | closure (arrow : Closure)

namespace Value

inductive Kind
  | integer
  | float32
  | float64
  | boolean
  | char
  | string
  | list
  | closure
deriving DecidableEq

namespace Kind

def text : Kind → Text
  | integer => "Integer".toList
  | float32 => "Float32".toList
  | float64 => "Float64".toList
  | boolean => "Boolean".toList
  | char => "Char".toList
  | string => "String".toList
  | list => "List".toList
  | closure => "Closure".toList

end Kind

def kind : Value → Kind
  | integer _ => .integer
  | float32 _ => .float32
  | float64 _ => .float64
  | boolean _ => .boolean
  | char _ => .char
  | string _ => .string
  | list _ => .list
  | closure _ => .closure

/-- The number that arithmetic computes with. -/
def number? : Value → Option Float
  | integer number => some (Float.ofInt number.toInt)
  | float32 number => some (widen number)
  | float64 number => some number
  | _ => none

def boolean? : Value → Option Bool
  | boolean truth => some truth
  | _ => none

def string? : Value → Option Text
  | string content => some content
  | _ => none

def strings (texts : List Text) : Value :=
  list (texts.map string)

mutual

def text : Value → Text
  | integer number => Decimal.integer number.toInt
  | float32 number => Decimal.single number
  | float64 number => Decimal.double number
  | boolean truth => if truth then "true".toList else "false".toList
  | char character => [character]
  | string content => content
  | list [] => "[]".toList
  | list (first :: rest) => '[' :: text first ++ laterTexts rest ++ [']']
  | closure arrow => "<closure ".toList ++ arrow.name ++ ['>']

/-- The texts of the items after the first one, each after a comma. -/
def laterTexts : List Value → Text
  | [] => []
  | item :: rest => ',' :: ' ' :: text item ++ laterTexts rest

end

mutual

/-- Whether two values are equal.  Numbers compare as numbers do, so zero equals
minus zero and nothing equals what is not a number; values of different kinds
differ. -/
def equals : Value → Value → Bool
  | integer left, integer right => left == right
  | float32 left, float32 right => left == right
  | float64 left, float64 right => left == right
  | boolean left, boolean right => left == right
  | char left, char right => left == right
  | string left, string right => left == right
  | list left, list right => equalItems left right
  | closure left, closure right => left == right
  | _, _ => false

def equalItems : List Value → List Value → Bool
  | [], [] => true
  | left :: lefts, right :: rights =>
      equals left right && equalItems lefts rights
  | _, _ => false

end

end Value
end LineScript
