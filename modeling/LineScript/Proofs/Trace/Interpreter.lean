import LineScript.Session

/-!
The interpreter with a record of what it does.

Each access to the machine is a moment of the record, and so are the start and
the end of every statement and of every body, and each call once its callee is
known: it is admitted or refused.
-/

namespace LineScript

inductive Event
  /-- The machine was read or changed, or a call was entered or left. -/
  | acts
  | refused (function : Function)
  | admitted (function : Function)
  /-- The arguments are bound and the body is reached. -/
  | starts (function : Function) (scope : ScopeId)
  | ends (function : Function) (result : Option Value)
  | runs (scope : ScopeId) (statement : Statement)
  /-- The statement has succeeded. -/
  | ran (scope : ScopeId) (statement : Statement)

structure Moment where
  event : Event
  machine : Machine

/-- A machine and its past, the newest moment first. -/
structure Recording where
  machine : Machine
  moments : List Moment

def Recording.noted (recording : Recording) (event : Event) : Recording :=
  { recording with
    moments :=
      { event := event, machine := recording.machine } :: recording.moments }

/-- A computation that changes the machine and keeps a record of it. -/
abbrev Traced := ExceptT Fault (StateM Recording)

namespace Traced

open Evaluation

section Recording

variable {α : Type}

def note (event : Event) : Traced Unit :=
  ExceptT.mk fun recording => (.ok (), recording.noted event)

/-- Adds a moment to the record once a computation has succeeded. -/
def noting (event : α → Event) (traced : Traced α) : Traced α := do
  let value ← traced
  note (event value)
  pure value

def perform (action : Action α) : Traced α :=
  ExceptT.mk fun recording =>
    let (result, machine) := action.run recording.machine
    (result, Recording.noted { recording with machine := machine } .acts)

instance : MonadLift Action Traced :=
  ⟨perform⟩

def inCall (owner : ScopeId) (body : ScopeId → Traced α) : Traced α :=
  ExceptT.mk fun recording =>
    let machine := recording.machine
    let entered : Machine :=
      { machine with forest := machine.forest.addChild owner, depth :=
        machine.depth + 1 }
    let (result, ending) :=
      (body machine.forest.size).run
        (Recording.noted { recording with machine := entered } .acts)
    let left : Machine :=
      { ending.machine with
        forest := ending.machine.forest.dropLast
        depth := ending.machine.depth - 1 }
    (result, Recording.noted { ending with machine := left } .acts)

end Recording

section Parts

variable (settings : Settings) (invoke : Invoker Traced) (scope : ScopeId)

def runStatement (statement : Statement) : Traced Unit := do
  note (.runs scope statement)
  noting (fun _ => .ran scope statement)
    (effect (evaluateText invoke scope) settings (invoke scope) scope statement)

def runText (source : Text) : Traced Unit :=
  readThen (runStatement settings invoke scope) source

variable (function : Function)

def runLines (skipped : Nat) (lines : List Text) : Traced (Option Value) :=
  walkLines (failUnclosed function) (runStatement settings invoke scope)
    (returnValue (evaluateText invoke scope) function) skipped lines

def enter (caller : ScopeId) (arguments : List Text) :
    Traced (Option Value) := do
  noting (fun _ => .starts function scope)
    (bindArguments (evaluateText invoke caller) scope function.parameters
      arguments)
  noting (fun result => .ends function result)
    (runLines settings invoke scope function 0 function.body)

end Parts

def invoke (settings : Settings) : (room : Nat) → Invoker Traced
  | 0 => fun caller name arguments =>
      prepare caller name arguments fun function _ => do
        note (.refused function)
        throw (.recursionLimit settings.callLimit)
  | room + 1 => fun caller name arguments =>
      prepare caller name arguments fun function owner => do
        note (.admitted function)
        inCall owner fun scope =>
          enter settings (invoke settings room) scope function caller arguments

end Traced
end LineScript
