import LineScript.Macro
import LineScript.SourceFault

/-!
Directives: the lines of a source that define and forget macros.
-/

namespace LineScript
namespace Macro

open Text

inductive Directive
  | defineObject (name value : Text)
  | defineFunction (name : Text) (definition : FunctionMacro)
  | undefine (name : Text)
deriving DecidableEq

namespace Directive

/-- Whether a text is the name of a macro: capitals, digits and underscores,
with no digit first. -/
def isMacroName : Text → Bool
  | [] => false
  | first :: rest => (isCapital first || first == '_') && rest.all isMacroChar
where
  isCapital (character : Char) : Bool :=
    'A' ≤ character && character ≤ 'Z'
  isMacroChar (character : Char) : Bool :=
    isCapital character || isDigit character || character == '_'

def isParameter (text : Text) : Bool :=
  text.isEmpty || isName text

def readFunction? (name afterParen : Text) : Option Directive :=
  (cut ')' afterParen).bind fun (list, body) =>
    let parameters := splitTopLevel ',' list
    if parameters.all isParameter then
      some (.defineFunction name
        { parameters := parameters, body := trim body })
    else
      none

def readDefine? (rest : Text) : Option Directive :=
  if startsBlank rest then
    let definition := trimStart rest
    let name := definition.takeWhile isNameChar
    let after := definition.dropWhile isNameChar
    if isMacroName name then
      match after with
      | '(' :: afterParen => readFunction? name afterParen
      | _ =>
          if after.isEmpty || startsBlank after then
            some (.defineObject name (trim after))
          else
            none
    else
      none
  else
    none

def readUndefine? (rest : Text) : Option Directive :=
  let name := trim rest
  if isMacroName name then some (.undefine name) else none

/-- The directive that a line without blanks around it says: nothing if the line
is no directive, and no directive if it is a malformed one. -/
def read? (line : Text) : Option (Option Directive) :=
  match dropStart? "#define".toList line with
  | some rest => some (readDefine? rest)
  | none => (dropStart? "#undef".toList line).map readUndefine?

def apply (macros : Macros) : Directive → Macros
  | defineObject name value => macros.defineObject name value
  | defineFunction name definition => macros.defineFunction name definition
  | undefine name => macros.undefine name

end Directive

/-- A line after the macros so far: the expanded line, or an empty one for a
directive. -/
def processLine (macros : Macros) (number : Nat) (line : Text) :
    Except SourceFault (Text × Macros) :=
  let trimmed := trim line
  match Directive.read? trimmed with
  | none => .ok (expand macros line, macros)
  | some none => .error (.directive number trimmed)
  | some (some directive) => .ok ([], directive.apply macros)

def processLines (macros : Macros) :
    (number : Nat) → List Text → Except SourceFault (List Text)
  | _, [] => .ok []
  | number, line :: later =>
      match processLine macros number line with
      | .error fault => .error fault
      | .ok (expanded, changed) =>
          (processLines changed (number + 1) later).map (expanded :: ·)

/-- The lines of a source with its macros expanded, one for each line of the
source. -/
def preprocess (source : Text) : Except SourceFault (List Text) :=
  processLines .empty 1 (lines source)

end Macro
end LineScript
