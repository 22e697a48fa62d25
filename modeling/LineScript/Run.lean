import LineScript.Session
import LineScript.Source.Program

/-!
Running a program from its first item to its last.
-/

namespace LineScript

structure RunSummary where
  statements : Nat
  functions : Nat
  skippedBlocks : Nat
  errors : Nat
  ranMain : Bool
deriving DecidableEq

namespace RunSummary

def zero : RunSummary :=
  { statements := 0, functions := 0, skippedBlocks := 0, errors := 0, ranMain :=
    false }

def success (summary : RunSummary) : Bool :=
  summary.errors == 0

end RunSummary

structure Progress where
  summary : RunSummary
  session : Session

namespace Program

def rootScope : ScopeId := 0

def mainCall : Text := "main();".toList

/-- Runs one item and counts it: a function is defined, a statement executed,
all else passed over. -/
def runItem (progress : Progress) (item : Item) : Progress :=
  let { summary, session } := progress
  match item.kind with
  | .function _ definition =>
      { summary := { summary with functions := summary.functions + 1 }
        session := session.modifyForest fun forest =>
          forest.setFunction rootScope definition }
  | .statement text =>
      { summary := { summary with statements := summary.statements + 1 }
        session := session.execute rootScope text }
  | .skipped _ _ =>
      { summary := { summary with skippedBlocks := summary.skippedBlocks + 1 }
        session := session }
  | .importing _ => progress

def runMain (progress : Progress) : Progress :=
  { summary := { progress.summary with ranMain := true }
    session := progress.session.execute rootScope mainCall }

/-- Runs a program: its items in order, then `main` if it is to be called.  The
errors are counted by the session. -/
def run (settings : Settings) (program : Program) : Progress :=
  let items :=
    program.items.foldl runItem
      { summary := RunSummary.zero, session := Session.start settings }
  let ended := if program.autoMain then runMain items else items
  { ended with summary :=
    { ended.summary with errors := ended.session.errorCount } }

end Program

/-- Runs a source: nothing of it is executed unless all of it can be read. -/
def runSource (settings : Settings) (source : Text) :
    Except SourceFault (RunSummary × Session) :=
  (Program.parse source).map fun program =>
    let ended := program.run settings
    (ended.summary, ended.session)

end LineScript
