import LineScript.SourceFault

/-!
Headers of function declarations.  There are two styles: `Int32 add(a: Int32)
{`, with `fn` in place of a type for nothing to return, and `function add(a:
Int32) -> Int32 {`, without the arrow for nothing to return.
-/

namespace LineScript

open Text

/-- The style of a header: it starts with the return type or with a keyword. -/
inductive HeaderStyle
  | typed
  | keyword
deriving DecidableEq

structure Header where
  style : HeaderStyle
  name : Text
  parameters : List Parameter
  returns : ReturnType
deriving DecidableEq

namespace Header

inductive Opening
  | typed (returns : ReturnType)
  | keyword
deriving DecidableEq

namespace Opening

def ofWord? (word : Text) : Option Opening :=
  if word = "fn".toList then some (.typed .void)
  else if word = "function".toList then some .keyword
  else (TypeTag.ofText? word).map fun tag => .typed (.value tag)

end Opening

/-- A parameter written `name: Type`. -/
def readParameter (number : Nat) (source : Text) :
    Except SourceFault Parameter :=
  match cut ':' source with
  | none => .error (.parameter number source)
  | some (before, typeText) =>
      let name := trim before
      if isName name then
        match TypeTag.read typeText with
        | .ok tag => .ok { name := name, tag := tag }
        | .error fault => .error (.badType number fault)
      else
        .error (.parameter number source)

def readParameters (number : Nat) (source : Text) :
    Except SourceFault (List Parameter) :=
  (splitTopLevel ',' source).mapM (readParameter number)

/-- The return type, from the opening of a header and what stands between the
closing bracket and the brace. -/
def readReturns
    (number : Nat) (header : Text) (opening : Opening) (tail : Text) :
    Except SourceFault ReturnType :=
  match opening with
  | .typed returns =>
      if tail.isEmpty then .ok returns else .error (.header number header)
  | .keyword =>
      if tail.isEmpty then
        .ok .void
      else
        match dropStart? "->".toList tail with
        | none => .error (.header number header)
        | some typeText =>
            match ReturnType.read typeText with
            | .ok returns => .ok returns
            | .error fault => .error (.badType number fault)

def styleOf : Opening → HeaderStyle
  | .typed _ => .typed
  | .keyword => .keyword

/-- A header whose opening and name are known, from its opening bracket on. -/
def readFrom
    (number : Nat) (header : Text) (opening : Opening) (name fromParen : Text) :
    Except SourceFault Header :=
  match closeParen fromParen with
  | none => .error (.header number header)
  | some (opened, after) =>
      match dropEnd? ['{'] (trim after) with
      | none => .error (.header number header)
      | some tail =>
          match readReturns number header opening (trim tail) with
          | .error fault => .error fault
          | .ok returns =>
              (readParameters number (opened.drop 1)).map fun parameters =>
                { style := styleOf opening
                  name := name
                  parameters := parameters
                  returns := returns }

/-- The header that a line of code is, if it is one.  A line that starts with a
type is one only if a name and a bracket follow. -/
def read? (number : Nat) (line : Text) : Except SourceFault (Option Header) :=
  match Opening.ofWord?
    (line.takeWhile fun character => !isBlank character) with
  | none => .ok none
  | some opening =>
      let rest := trimStart (line.dropWhile fun character => !isBlank character)
      let (name, after) := spanName rest
      match name.isEmpty, trimStart after with
      | false, '(' :: inner =>
          (readFrom number line opening name ('(' :: inner)).map some
      | _, _ =>
          match opening with
          | .typed _ => .ok none
          | .keyword => .error (.header number line)

end Header
end LineScript
