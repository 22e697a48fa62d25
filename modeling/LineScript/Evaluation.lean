import LineScript.Arithmetic
import LineScript.Conformance
import LineScript.Expression
import LineScript.Machine
import LineScript.Settings
import LineScript.Statement.Reader
import LineScript.Text.Braces
import LineScript.Text.Template

/-!
Evaluation of expressions, execution of statements, and calls.

Each clause is written once, for every monad that can act on the machine and
fail, and takes the meaning of what it refers to as an argument.  The recursion
is tied at the end, in `invoke`, over the number of further calls that may be
nested.
-/

namespace LineScript

def Statement.store
    (mode : AssignmentMode) (scope : ScopeId) (value : Value)
    (forest : Forest) :
    Statement → Forest
  | .arrow closure =>
      (forest.setFunction scope closure.function).setVariable scope closure.name
        (.closure closure)
  | .declare name _ _ => forest.setVariable scope name value
  | .declareBool name _ => forest.setVariable scope name value
  | .declareList name _ => forest.setVariable scope name value
  | .step name _ | .assign name _ =>
      match mode with
      | .shadow => forest.setVariable scope name value
      | .enclosing => forest.assignEnclosing scope name value
  | _ => forest

namespace Evaluation

/-- The meaning of calls: the acting scope, the name and the argument texts give
a value, or nothing for a call without one. -/
abbrev Invoker (m : Type → Type) :=
  ScopeId → (name : Text) → (arguments : List Text) → m (Option Value)

def expectBoolean (value : Value) : Except Fault Bool :=
  match value.boolean? with
  | some truth => .ok truth
  | none => .error (.typeMismatch .boolean (.kind value.kind))

/-- A string with its named holes filled from a scope. -/
def interpolate (machine : Machine) (scope : ScopeId) (template : Text) :
    Except Fault Text :=
  match Text.interpolate
    (fun name => (machine.forest.value? scope name).map Value.text)
      template with
  | .ok text => .ok text
  | .error name => .error (.undefinedVariable name)

/-- The value of a name that stands alone.  A binding comes before the words for
the truth values. -/
def nameValue (machine : Machine) (scope : ScopeId) (name : Text) :
    Except Fault Value :=
  match machine.forest.value? scope name with
  | some value => .ok value
  | none =>
      if name = "true".toList then .ok (.boolean true)
      else if name = "false".toList then .ok (.boolean false)
      else .error (.undefinedVariable name)

def stringValue (machine : Machine) (scope : ScopeId) (template : Text) :
    Except Fault Value :=
  (interpolate machine scope template).map .string

def arithmeticValue (machine : Machine) (scope : ScopeId) (source : Text) :
    Except Fault Value :=
  (Arithmetic.evaluate (machine.lookupNumber scope) source).map .float64

/-- The value that `++` or `--` gives. -/
def stepped (direction : Step) (value : Value) : Except Fault Value :=
  match value with
  | .integer number =>
      let moved :=
        match direction with
        | .increment => number.toInt + 1
        | .decrement => number.toInt - 1
      match Decimal.int64? moved with
      | some result => .ok (.integer result)
      | none =>
          .error (.typeMismatch (.tag .int64) (.stepOverflow number.toInt))
  | .float32 number =>
      match direction with
      | .increment => .ok (.float32 (number + 1))
      | .decrement => .ok (.float32 (number - 1))
  | .float64 number =>
      match direction with
      | .increment => .ok (.float64 (number + 1))
      | .decrement => .ok (.float64 (number - 1))
  | other => .error (.typeMismatch .number (.kind other.kind))

def printLines : List Text → Action Unit
  | [] => pure ()
  | line :: later => do
      Action.print (line ++ ['\n'])
      printLines later

def runCommand (commands : Commands) (line : Text) : Action Unit :=
  match Text.words line with
  | [] => throw (.malformed .blankCommand)
  | program :: arguments => do
      let outcome := commands program arguments
      printLines outcome.lines
      match outcome.failure with
      | some failure => throw (.command line failure)
      | none => pure ()

/-- The function that a call of a name runs, and the scope it is defined in.  A
function comes before a variable that holds one. -/
def resolveCallee (forest : Forest) (caller : ScopeId) (name : Text) :
    Except Fault (Function × ScopeId) :=
  match forest.resolveFunction caller name with
  | some found => .ok found
  | none =>
      match forest.resolveVariable caller name with
      | some (.closure closure, owner) => .ok (closure.function, owner)
      | _ => .error (.undefinedFunction name)

section Clauses

variable {m : Type → Type} [Monad m] [MonadExceptOf Fault m]
  [MonadLiftT Action m]

def negate (operand : m Value) : m Value := do
  let value ← operand
  let truth ← Action.ofExcept (expectBoolean value)
  pure (.boolean !truth)

def choose (condition yes no : m Value) : m Value := do
  let value ← condition
  let truth ← Action.ofExcept (expectBoolean value)
  if truth then yes else no

/-- A call in an expression has to give a value. -/
def callValue (name : Text) (result : m (Option Value)) : m Value := do
  match ← result with
  | some value => pure value
  | none => throw (.typeMismatch .value (.voidCall name))

section Texts

variable (evaluate : Text → m Value)

def evaluateAll : List Text → m (List Value)
  | [] => pure []
  | source :: later => do
      let value ← evaluate source
      let values ← evaluateAll later
      pure (value :: values)

/-- The value of a template.  With arguments it has to be a string, and they
fill its numbered holes. -/
def render (template : Text) (arguments : List Text) : m Value := do
  let value ← evaluate template
  if arguments.isEmpty then
    pure value
  else
    match value with
    | .string text =>
        let values ← evaluateAll evaluate arguments
        pure (.string (Text.fill (values.map Value.text) text))
    | other => throw (.typeMismatch .template (.kind other.kind))

/-- A text that is no expression is passed over. -/
def forgive (fault : Fault) : m Unit :=
  if fault.isMalformed then pure () else throw fault

def runExpression (source : Text) : m Unit :=
  tryCatch
    (do
      let _ ← evaluate source
      pure ())
    forgive

/-- Runs what stands in a statement, and gives the value that the statement is
to store, if it is to store one. -/
def outcome
    (commands : Commands) (call : Text → List Text → m (Option Value))
    (scope : ScopeId) : Statement → m (Option Value)
  | .empty => pure none
  | .comment => pure none
  | .blockOpen _ => pure none
  | .blockClose => pure none
  | .returns _ => throw (.malformed .returnOutsideFunction)
  | .write template arguments newline => do
      let value ← render evaluate template arguments
      Action.print (if newline then value.text ++ ['\n'] else value.text)
      pure none
  | .system template arguments => do
      let value ← render evaluate template arguments
      match value with
      | .string line =>
          runCommand commands line
          pure none
      | other => throw (.typeMismatch (.tag .string) (.kind other.kind))
  | .arrow closure => pure (some (.closure closure))
  | .declare _ typeText expression => do
      let tag ← Action.ofExcept (TypeTag.read typeText)
      let value ← evaluate expression
      let stored ← Action.ofExcept (Conformance.check tag value)
      pure (some stored)
  | .declareBool _ expression => do
      let value ← evaluate expression
      let truth ← Action.ofExcept (expectBoolean value)
      pure (some (.boolean truth))
  | .declareList _ elements => pure (some (.strings elements))
  | .call name arguments => do
      let _ ← call name arguments
      pure none
  | .step name direction => do
      let value ← Action.inspect fun machine => machine.lookup scope name
      let moved ← Action.ofExcept (stepped direction value)
      pure (some moved)
  | .assign _ expression => do
      let value ← evaluate expression
      pure (some value)
  | .expression source => do
      runExpression evaluate source
      pure none

/-- What a statement does: it comes to its outcome, and stores it. -/
def effect
    (settings : Settings) (call : Text → List Text → m (Option Value))
    (scope : ScopeId) (statement : Statement) : m Unit := do
  match ← outcome evaluate settings.commands call scope statement with
  | some value =>
      Action.modifyForest fun forest =>
        statement.store settings.assignment scope value forest
  | none => pure ()

def returnValue (function : Function) : Option Text → m (Option Value)
  | none =>
      match function.returns with
      | .void => pure none
      | .value tag =>
          throw (.typeMismatch (.tag tag) (.bareReturn function.name))
  | some expression => do
      let value ← evaluate expression
      match function.returns with
      | .void => pure (some value)
      | .value tag =>
          let stored ← Action.ofExcept (Conformance.check tag value)
          pure (some stored)

/-- Evaluates the arguments and binds them to the parameters, one after the
other. -/
def bindArguments (scope : ScopeId) : List Parameter → List Text → m Unit
  | parameter :: parameters, argument :: arguments => do
      let value ← evaluate argument
      let stored ← Action.ofExcept (Conformance.check parameter.tag value)
      Action.modifyForest fun forest =>
        forest.setVariable scope parameter.name stored
      bindArguments scope parameters arguments
  | _, _ => pure ()

end Texts

def readThen (run : Statement → m Unit) (source : Text) : m Unit := do
  let statement ← Action.ofExcept (Statement.read source)
  run statement

/-- Goes through the lines of a body, the first `skipped` of them aside, up to a
`return` or the end.  The blocks of control-flow words are passed over. -/
def walkLines
    (unclosed : BlockKeyword → m (Option Value)) (run : Statement → m Unit)
    (answer : Option Text → m (Option Value)) :
    (skipped : Nat) → List Text → m (Option Value)
  | _, [] => pure none
  | skipped + 1, _ :: later => walkLines unclosed run answer skipped later
  | 0, line :: later => do
      match ← Action.ofExcept (Statement.read line) with
      | .blockOpen keyword =>
          match Text.blockLength? (line :: later) with
          | some length => walkLines unclosed run answer (length - 1) later
          | none => unclosed keyword
      | .returns value => answer value
      | statement =>
          run statement
          walkLines unclosed run answer 0 later

def failUnclosed (function : Function) (keyword : BlockKeyword) :
    m (Option Value) :=
  throw (.malformed (.unclosedBlock keyword.text function.name))

/-- Finds the callee, compares the number of arguments with that of its
parameters, and goes on with `start`. -/
def prepare (caller : ScopeId) (name : Text) (arguments : List Text)
    (start : Function → (owner : ScopeId) → m (Option Value)) :
    m (Option Value) := do
  let (function, owner) ←
    Action.inspect fun machine => resolveCallee machine.forest caller name
  if arguments.length = function.parameters.length then
    start function owner
  else
    throw (.argumentCount name function.parameters.length arguments.length)

variable (invoke : Invoker m) (scope : ScopeId)

def evaluate : Expression → m Value
  | .malformed cause => throw (.malformed cause)
  | .string template =>
      Action.inspect fun machine => stringValue machine scope template
  | .char character => pure (.char character)
  | .call callee arguments => callValue callee (invoke scope callee arguments)
  | .name identifier =>
      Action.inspect fun machine => nameValue machine scope identifier
  | .negation operand => negate (evaluate operand)
  | .conditional condition yes no =>
      choose (evaluate condition) (evaluate yes) (evaluate no)
  | .integer number => pure (.integer number)
  | .arithmetic source =>
      Action.inspect fun machine => arithmeticValue machine scope source

def evaluateText (source : Text) : m Value :=
  evaluate invoke scope (Expression.read source)

end Clauses

section Recursion

variable (settings : Settings) (invoke : Invoker Action) (scope : ScopeId)

def runStatement (statement : Statement) : Action Unit :=
  effect (evaluateText invoke scope) settings (invoke scope) scope statement

def runText (source : Text) : Action Unit :=
  readThen (runStatement settings invoke scope) source

def runLines (function : Function) (skipped : Nat) (lines : List Text) :
    Action (Option Value) :=
  walkLines (failUnclosed function) (runStatement settings invoke scope)
    (returnValue (evaluateText invoke scope) function) skipped lines

/-- The call of a function once it may start: its arguments, then its body. -/
def enter
    (caller : ScopeId) (function : Function) (arguments : List Text)
    (scope : ScopeId) : Action (Option Value) := do
  bindArguments (evaluateText invoke caller) scope function.parameters arguments
  runLines settings invoke scope function 0 function.body

end Recursion

/-- Calls with at most `room` more calls nested in each other. -/
def invoke (settings : Settings) : (room : Nat) → Invoker Action
  | 0 => fun caller name arguments =>
      prepare caller name arguments fun _ _ =>
        throw (.recursionLimit settings.callLimit)
  | room + 1 => fun caller name arguments =>
      prepare caller name arguments fun function owner =>
        Action.inCall owner
          (enter settings (invoke settings room) caller function arguments)

end Evaluation
end LineScript
