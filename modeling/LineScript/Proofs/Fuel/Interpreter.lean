import LineScript.Session

/-!
The interpreter with its recursion left open.

Here a text is read only when it is reached, a body is a loop over the index of
its next line, and a call is entered as long as the count of calls in progress
is below the limit.  Nothing in these definitions says that they end, so each of
them spends fuel whenever it goes on to another one, and nothing comes of a run
that has spent all of it.
-/

namespace LineScript

/-- A computation on the machine that may run out of fuel. -/
abbrev Attempt := ExceptT Fault (StateT Machine Option)

namespace Attempt

variable {α : Type}

def exhausted : Attempt α :=
  ExceptT.mk fun _ => none

def perform (action : Action α) : Attempt α :=
  ExceptT.mk fun machine => some (action.run machine)

/-- Runs a call inside a new scope, one call deeper, unless as many calls as the
limit allows are in progress. -/
def inCall (limit : Nat) (owner : ScopeId) (body : ScopeId → Attempt α) :
    Attempt α :=
  ExceptT.mk fun machine =>
    if limit ≤ machine.depth then
      some (.error (.recursionLimit limit), machine)
    else
      let entered : Machine :=
        { machine with forest := machine.forest.addChild owner, depth :=
          machine.depth + 1 }
      ((body machine.forest.size).run entered).map fun (result, left) =>
        (result, { left with forest := left.forest.dropLast, depth :=
          left.depth - 1 })

instance : MonadLift Action Attempt :=
  ⟨perform⟩

end Attempt

namespace Fuelled

open Evaluation

mutual

def evaluate (settings : Settings) :
    (fuel : Nat) → ScopeId → Text → Attempt Value
  | 0, _, _ => Attempt.exhausted
  | fuel + 1, scope, source =>
      let text := Text.trim source
      if text.isEmpty then
        throw (.malformed .emptyExpression)
      else
      match Text.stringLiteral? text with
      | some body =>
          Action.inspect fun machine =>
            stringValue machine scope (Text.unescape body)
      | none =>
      match Text.charLiteral? text with
      | some body =>
          match Text.unescape body with
          | [character] => pure (.char character)
          | _ => throw (.malformed (.characterLiteral text))
      | none =>
      match Text.splitCall? text with
      | some (callee, arguments) =>
          callValue callee (invoke settings fuel scope callee arguments)
      | none =>
      if Text.isName text then
        Action.inspect fun machine => nameValue machine scope text
      else
      match Expression.negated? text with
      | some operand => negate (evaluate settings fuel scope operand)
      | none =>
      match Text.splitConditional? text with
      | some (condition, yes, no) =>
          choose (evaluate settings fuel scope condition)
            (evaluate settings fuel scope yes) (evaluate settings fuel scope no)
      | none =>
      match Decimal.readInteger? text with
      | some number => pure (.integer number)
      | none => Action.inspect fun machine => arithmeticValue machine scope text

def runStatement (settings : Settings) :
    (fuel : Nat) → ScopeId → Statement → Attempt Unit
  | 0, _, _ => Attempt.exhausted
  | fuel + 1, scope, statement =>
      effect (evaluate settings fuel scope) settings
        (invoke settings fuel scope) scope statement

/-- The lines of a body from an index on, up to a `return` or the end. -/
def runBody (settings : Settings) :
    (fuel : Nat) → ScopeId → Function → (index : Nat) → Attempt (Option Value)
  | 0, _, _, _ => Attempt.exhausted
  | fuel + 1, scope, function, index =>
      match function.body[index]? with
      | none => pure none
      | some line => do
          match ← Action.ofExcept (Statement.read line) with
          | .blockOpen keyword =>
              match Text.blockEnd? function.body index with
              | some last => runBody settings fuel scope function (last + 1)
              | none => failUnclosed function keyword
          | .returns value =>
              returnValue (evaluate settings fuel scope) function value
          | statement =>
              runStatement settings fuel scope statement
              runBody settings fuel scope function (index + 1)

def invoke (settings : Settings) :
    (fuel : Nat) → ScopeId → Text → List Text → Attempt (Option Value)
  | 0, _, _, _ => Attempt.exhausted
  | fuel + 1, caller, name, arguments =>
      prepare caller name arguments fun function owner =>
        Attempt.inCall settings.callLimit owner fun scope => do
          bindArguments
            (evaluate settings fuel caller) scope function.parameters arguments
          runBody settings fuel scope function 0

end

def tryExecute
    (settings : Settings) (fuel : Nat) (scope : ScopeId) (source : Text) :
    Attempt Unit :=
  readThen (runStatement settings fuel scope) source

end Fuelled
end LineScript
