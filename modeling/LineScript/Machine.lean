import LineScript.Fault
import LineScript.Forest

/-!
The state that a running script changes, and actions on it.
-/

namespace LineScript

/-- Scopes, printed texts (the newest first) and the number of calls in
progress. -/
structure Machine where
  forest : Forest
  output : List Text
  depth : Nat

/-- A computation that changes the machine and may end with a fault.  What it
changed before the fault stays changed. -/
abbrev Action := ExceptT Fault (StateM Machine)

namespace Machine

def start : Machine :=
  { forest := Forest.empty.addRoot, output := [], depth := 0 }

def lookup (machine : Machine) (scope : ScopeId) (name : Text) :
    Except Fault Value :=
  match machine.forest.value? scope name with
  | some value => .ok value
  | none => .error (.undefinedVariable name)

/-- The value of a variable that has to be a number. -/
def lookupNumber (machine : Machine) (scope : ScopeId) (name : Text) :
    Except Fault Float :=
  match machine.lookup scope name with
  | .error fault => .error fault
  | .ok value =>
      match value.number? with
      | some number => .ok number
      | none => .error (.typeMismatch .number (.namedValue value.kind name))

end Machine

namespace Action

variable {α : Type}

def ofExcept (result : Except Fault α) : Action α :=
  ExceptT.mk (pure result)

def inspect (view : Machine → Except Fault α) : Action α :=
  ExceptT.mk fun machine => (view machine, machine)

def print (text : Text) : Action Unit :=
  ExceptT.mk fun machine =>
    (.ok (), { machine with output := text :: machine.output })

def modifyForest (change : Forest → Forest) : Action Unit :=
  ExceptT.mk fun machine =>
    (.ok (), { machine with forest := change machine.forest })

/-- Runs a call: inside a new scope within `owner`, one call deeper.  Afterwards
the scope is gone and the depth is what it was, with or without a fault. -/
def inCall (owner : ScopeId) (body : ScopeId → Action α) : Action α :=
  ExceptT.mk fun machine =>
    let scope := machine.forest.size
    let entered : Machine :=
      { machine with forest := machine.forest.addChild owner, depth :=
        machine.depth + 1 }
    let (result, left) := (body scope).run entered
    (result, { left with forest := left.forest.dropLast, depth := left.depth - 1 })

end Action
end LineScript
