import LineScript.Text.Basic

/-!
Type annotations as they are written in declarations.
-/

namespace LineScript

inductive TypeTag
  | string
  | char
  | int32
  | int64
  | float32
  | float64
deriving DecidableEq

namespace TypeTag

def text : TypeTag → Text
  | string => "String".toList
  | char => "Char".toList
  | int32 => "Int32".toList
  | int64 => "Int64".toList
  | float32 => "Float32".toList
  | float64 => "Float64".toList

def all : List TypeTag :=
  [string, char, int32, int64, float32, float64]

def ofText? (word : Text) : Option TypeTag :=
  all.find? fun tag => tag.text == word

end TypeTag

inductive ReturnType
  | void
  | value (tag : TypeTag)
deriving DecidableEq

namespace ReturnType

def text : ReturnType → Text
  | void => "void".toList
  | value tag => tag.text

def ofText? (word : Text) : Option ReturnType :=
  if word = "void".toList then some .void else (TypeTag.ofText? word).map .value

end ReturnType
end LineScript
