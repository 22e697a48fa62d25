import LineScript.Evaluation

/-!
Sessions: a machine under fixed settings, and the failures of its statements.
-/

namespace LineScript

structure Report where
  statement : Text
  fault : Fault
deriving DecidableEq

namespace Report

def text (report : Report) : Text :=
  "error[".toList ++ report.fault.code ++ "]: ".toList ++
    report.fault.message ++
    "\n  --> in statement: ".toList ++ report.statement ++ ['\n']

end Report

/-- A running session.  Its reports are kept with the newest first. -/
structure Session where
  settings : Settings
  machine : Machine
  reports : List Report

namespace Session

def start (settings : Settings) : Session :=
  { settings := settings, machine := .start, reports := [] }

/-- The further calls that may be nested now. -/
def room (session : Session) : Nat :=
  session.settings.callLimit - session.machine.depth

def invoker (session : Session) : Evaluation.Invoker Action :=
  Evaluation.invoke session.settings session.room

def perform {α : Type} (session : Session) (action : Action α) :
    Except Fault α × Session :=
  let (result, machine) := action.run session.machine
  (result, { session with machine := machine })

def evaluate (session : Session) (scope : ScopeId) (source : Text) :
    Except Fault Value × Session :=
  session.perform (Evaluation.evaluateText session.invoker scope source)

def invoke
    (session : Session) (scope : ScopeId) (name : Text)
    (arguments : List Text) :
    Except Fault (Option Value) × Session :=
  session.perform (session.invoker scope name arguments)

/-- Runs a statement and gives back its fault. -/
def tryExecute (session : Session) (scope : ScopeId) (source : Text) :
    Except Fault Unit × Session :=
  session.perform
    (Evaluation.runText session.settings session.invoker scope source)

def execute (session : Session) (scope : ScopeId) (source : Text) : Session :=
  match session.tryExecute scope source with
  | (.ok (), after) => after
  | (.error fault, after) =>
      { after with reports :=
        { statement := Text.trim source, fault := fault } :: after.reports }

def modifyForest (session : Session) (change : Forest → Forest) : Session :=
  { session with machine :=
    { session.machine with forest := change session.machine.forest } }

def forest (session : Session) : Forest :=
  session.machine.forest

def addChild (session : Session) (scope : ScopeId) : ScopeId × Session :=
  (session.forest.size, session.modifyForest fun forest =>
    forest.addChild scope)

def output (session : Session) : Text :=
  session.machine.output.reverse.flatten

def reportsInOrder (session : Session) : List Report :=
  session.reports.reverse

def reportText (session : Session) : Text :=
  session.reportsInOrder.flatMap Report.text

def errorCount (session : Session) : Nat :=
  session.reports.length

def outputSince (session earlier : Session) : Text :=
  let count := session.machine.output.length - earlier.machine.output.length
  (session.machine.output.take count).reverse.flatten

def reportTextSince (session earlier : Session) : Text :=
  let count := session.reports.length - earlier.reports.length
  (session.reports.take count).reverse.flatMap Report.text

end Session
end LineScript
