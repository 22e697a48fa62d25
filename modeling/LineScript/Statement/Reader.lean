import LineScript.Statement

/-!
Reading a line of text as a statement.  The shapes are tried in a fixed order,
and the first one that fits decides.
-/

namespace LineScript
namespace Statement

open Text

/-- The text between the brackets of a console call as a template and its
arguments. -/
def readTemplate (missing : Malformation) (make : Text → List Text → Statement)
    (inner : Text) : Except Fault Statement :=
  match splitTopLevel ',' inner with
  | [] => .error (.malformed missing)
  | template :: arguments => .ok (make template arguments)

def readConsole? (body : Text) : Option (Except Fault Statement) :=
  let writef := "console.writef".toList
  let write := "console.write".toList
  match callInner? writef body with
  | some inner =>
      some (readTemplate (.writeWithoutArgument writef)
        (fun template arguments => .write template arguments false) inner)
  | none =>
  match callInner? write body with
  | some inner =>
      some (readTemplate (.writeWithoutArgument write)
        (fun template arguments => .write template arguments true) inner)
  | none =>
  (callInner? "console.system".toList body).map
    (readTemplate .systemWithoutCommand .system)

/-- A parameter written `Type: name`. -/
def readArrowParameter (source : Text) : Except Fault Parameter :=
  match cut ':' source with
  | none => .error (.malformed (.arrowParameter (trim source)))
  | some (typeText, rest) =>
      let name := trim rest
      if isName name then
        (TypeTag.read typeText).map fun tag => { name := name, tag := tag }
      else
        .error (.malformed (.parameterName name))

/-- The parameters between the bars; `&` or nothing stands for none. -/
def readArrowParameters (source : Text) : Except Fault (List Parameter) :=
  let list := trim source
  if list.isEmpty || list == ['&'] then
    .ok []
  else
    (splitOn ',' list).mapM readArrowParameter

/-- The return type after the arrow, if one is written, and the body text. -/
def splitReturnType (source : Text) : ReturnType × Text :=
  let word := source.takeWhile isNameChar
  let rest := trimStart (source.dropWhile isNameChar)
  match ReturnType.ofText? word with
  | some promised => if rest.isEmpty then (.void, source) else (promised, rest)
  | none => (.void, source)

/-- The body of an arrow function: a block between braces or an expression. -/
def readArrowBody (statement source : Text) : Except Fault ClosureBody :=
  match source with
  | [] => .error (.malformed (.missingArrowBody statement))
  | '{' :: rest =>
      match dropEnd? ['}'] rest with
      | some block => .ok (.block (trim block))
      | none => .error (.malformed (.unclosedArrowBody statement))
  | _ => .ok (.expression source)

def readArrow (statement name afterBar : Text) : Except Fault Closure := do
  match cut '|' afterBar with
  | none => throw (.malformed (.declaration statement))
  | some (list, rest) =>
      let parameters ← readArrowParameters list
      match dropStart? "=>".toList (trimStart rest) with
      | none => throw (.malformed (.missingArrow statement))
      | some afterArrow =>
          let (promised, source) := splitReturnType (trimStart afterArrow)
          let body ← readArrowBody statement source
          return { name := name, parameters := parameters, returns :=
            promised, body := body }

/-- What follows `var`: an arrow function or a typed variable. -/
def readVar (statement rest : Text) : Except Fault Statement :=
  match cut '=' rest with
  | none => .error (.malformed (.declaration statement))
  | some (left, right) =>
      let target := trim left
      let expression := trim right
      match expression with
      | '|' :: afterBar =>
          if isName target then
            (readArrow statement target afterBar).map .arrow
          else
            .error (.malformed (.declaration statement))
      | _ =>
          match cut ':' target with
          | none => .error (.malformed (.missingType statement))
          | some (before, typeText) =>
              let name := trim before
              if isName name && !expression.isEmpty then
                .ok (.declare name (trim typeText) expression)
              else
                .error (.malformed (.declaration statement))

/-- A name and an expression with the first top-level `=` between them. -/
def readBinding (statement rest : Text) : Except Fault (Text × Text) :=
  match cutTopLevel '=' rest with
  | none => .error (.malformed (.declaration statement))
  | some (left, right) =>
      let name := trim left
      let expression := trim right
      if isName name && !expression.isEmpty then
        .ok (name, expression)
      else
        .error (.malformed (.declaration statement))

/-- The elements between the brackets of a list, cut at every comma. -/
def readElements (inner : Text) : List Text :=
  if (trim inner).isEmpty then [] else (splitOn ',' inner).map trim

def readList (statement rest : Text) : Except Fault Statement := do
  let (name, value) ← readBinding statement rest
  match (dropStart? ['['] value).bind (dropEnd? [']']) with
  | some inner => return .declareList name (readElements inner)
  | none => throw (.malformed (.missingListBrackets statement))

/-- The word of a line that opens a block; such a line ends with `{`. -/
def blockOpening? (body : Text) : Option BlockKeyword :=
  if endsWith '{' body then BlockKeyword.ofLine? body else none

/-- The name and the direction of `x++`, `x--`, `++x` or `--x`. -/
def step? (body : Text) : Option (Text × Step) :=
  let candidates :=
    [ (dropEnd? "++".toList body, Step.increment),
      (dropEnd? "--".toList body, Step.decrement),
      (dropStart? "++".toList body, Step.increment),
      (dropStart? "--".toList body, Step.decrement) ]
  candidates.findSome? fun (source?, direction) =>
    ((source?.map trim).filter isName).map fun name => (name, direction)

def assignment? (body : Text) : Option (Text × Text) :=
  (cutAssignment body).bind fun (left, right) =>
    let name := trim left
    if isName name then some (name, trim right) else none

/-- The shapes that cannot be malformed: every text has one of them. -/
def readPlain (body : Text) : Statement :=
  match blockOpening? body with
  | some keyword => .blockOpen keyword
  | none =>
  if body = ['}'] then
    .blockClose
  else
  match splitCall? body with
  | some (name, arguments) => .call name arguments
  | none =>
  match step? body with
  | some (name, direction) => .step name direction
  | none =>
  match assignment? body with
  | some (name, value) => .assign name value
  | none => .expression body

/-- Reads the body of a statement, its final semicolon dropped.  The whole
statement is quoted in messages. -/
def readBody (statement body : Text) : Except Fault Statement :=
  match afterWord? "return".toList body with
  | some rest =>
      let value := trim rest
      .ok (.returns (if value.isEmpty then none else some value))
  | none =>
  match readConsole? body with
  | some result => result
  | none =>
  match afterWord? "var".toList body with
  | some rest => readVar statement rest
  | none =>
  match afterWord? "bool".toList body with
  | some rest =>
      (readBinding statement rest).map fun (name, value) =>
        .declareBool name value
  | none =>
  match afterWord? "list".toList body with
  | some rest => readList statement rest
  | none => .ok (readPlain body)

def read (source : Text) : Except Fault Statement :=
  let statement := trim source
  if statement.isEmpty then
    .ok .empty
  else if startsWith "//".toList statement then
    .ok .comment
  else
    readBody statement (trimEnd ((dropEnd? [';'] statement).getD statement))

end Statement
end LineScript
