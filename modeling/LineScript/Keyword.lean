import LineScript.Text.Basic

/-!
Words that a line can start with.
-/

namespace LineScript

/-- The words that open a block of lines. -/
inductive BlockKeyword
  | ifWord
  | elifWord
  | elseWord
  | whileWord
  | forWord
deriving DecidableEq

namespace BlockKeyword

def text : BlockKeyword → Text
  | ifWord => "if".toList
  | elifWord => "elif".toList
  | elseWord => "else".toList
  | whileWord => "while".toList
  | forWord => "for".toList

/-- All words, in the order in which a line is compared with them. -/
def all : List BlockKeyword :=
  [ifWord, elifWord, elseWord, whileWord, forWord]

/-- Whether the line starts with the word, followed by a blank, `(` or `{`. -/
def heads (line : Text) (keyword : BlockKeyword) : Bool :=
  match Text.dropStart? keyword.text line with
  | some (character :: _) =>
      Text.isBlank character || character == '(' || character == '{'
  | _ => false

/-- The word that a line starts with, closing braces and blanks before it
aside. -/
def ofLine? (line : Text) : Option BlockKeyword :=
  all.find? (heads (Text.trimStart (line.dropWhile (· == '}'))))

end BlockKeyword

namespace Text

/-- What follows a word at the start of the text: nothing, or something that
starts with a blank. -/
def afterWord? (word text : Text) : Option Text :=
  (dropStart? word text).filter fun rest => rest.isEmpty || startsBlank rest

end Text
end LineScript
