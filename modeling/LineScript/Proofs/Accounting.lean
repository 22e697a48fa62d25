import LineScript.Proofs.Source.Layout
import LineScript.Run

/-!
What a run reports.

A run carries out the tasks of its program one after another, whatever comes of
them: it defines functions and executes statements.  Each execution that fails
is counted and reported once, by the statement at the top, and nothing else is.
-/

namespace LineScript

open Text

/-- What a program asks for. -/
inductive Task
  | define (function : Function)
  | execute (statement : Text)
deriving DecidableEq

def Task.statement? : Task → Option Text
  | define _ => none
  | execute statement => some statement

namespace Item

/-- What an item asks for.  Blocks that are passed over and imports ask for
nothing. -/
def task? (item : Item) : Option Task :=
  match item.kind with
  | .function _ definition => some (.define definition)
  | .statement text => some (.execute text)
  | .skipped _ _ => none
  | .importing _ => none

def statement? (item : Item) : Option Text :=
  match item.kind with
  | .statement text => some text
  | _ => none

end Item

namespace Program

/-- The tasks of a program: those of its items in order, then the call of
`main`. -/
def tasks (program : Program) : List Task :=
  program.items.filterMap Item.task? ++
    if program.autoMain then [.execute mainCall] else []

/-- The statements that are executed at the top, in order. -/
def topStatements (program : Program) : List Text :=
  program.items.filterMap Item.statement? ++
    if program.autoMain then [mainCall] else []

end Program

structure Execution where
  statement : Text
  result : Except Fault Unit

namespace Execution

def failed (execution : Execution) : Bool :=
  match execution.result with
  | .ok _ => false
  | .error _ => true

def report? (execution : Execution) : Option Report :=
  match execution.result with
  | .ok _ => none
  | .error fault =>
      some { statement := trim execution.statement, fault := fault }

/-- The text that reports an execution: none unless it failed, and otherwise the
code and the message of its fault and the statement. -/
def reportText (execution : Execution) : Text :=
  match execution.result with
  | .ok _ => []
  | .error fault =>
      "error[".toList ++ fault.code ++ "]: ".toList ++ fault.message ++
        "\n  --> in statement: ".toList ++ trim execution.statement ++ ['\n']

theorem length_filterMap_report? (executions : List Execution) :
    (executions.filterMap report?).length = executions.countP failed := by
  induction executions with
  | nil => rfl
  | cons execution later inductionHypothesis =>
      rcases execution with ⟨statement, fault | done⟩
      · rw [List.countP_cons_of_pos rfl, ← inductionHypothesis]
        rfl
      · rw [List.countP_cons_of_neg Bool.false_ne_true, ← inductionHypothesis]
        rfl

theorem flatMap_filterMap_report? (executions : List Execution) :
    (executions.filterMap report?).flatMap Report.text =
      executions.flatMap reportText := by
  induction executions with
  | nil => rfl
  | cons execution later inductionHypothesis =>
      rw [List.flatMap_cons, ← inductionHypothesis]
      rcases execution with ⟨statement, fault | done⟩
      · rfl
      · rfl

end Execution

namespace Session

def reporting (session : Session) (reports : List Report) : Session :=
  { session with reports := reports }

/-- Carries out tasks one after another, each on the session that the one before
it left, and reports nothing. -/
def carryOut (session : Session) : List Task → List Execution × Session
  | [] => ([], session)
  | .define function :: later =>
      (session.modifyForest fun forest =>
        forest.setFunction Program.rootScope function).carryOut
        later
  | .execute statement :: later =>
      let outcome := session.tryExecute Program.rootScope statement
      let afterwards := outcome.2.carryOut later
      ({ statement := statement, result := outcome.1 } :: afterwards.1,
        afterwards.2)

/-- Carries out one task and reports its failure. -/
def runTask (session : Session) : Task → Session
  | .define function =>
      session.modifyForest fun forest =>
        forest.setFunction Program.rootScope function
  | .execute statement => session.execute Program.rootScope statement

/-- No statement that is run as part of another one reports anything. -/
theorem reports_tryExecute
    (session : Session) (scope : ScopeId) (source : Text) :
    (session.tryExecute scope source).2.reports = session.reports := rfl

/-- Carrying out tasks leaves the reports of the session alone. -/
theorem reports_carryOut (session : Session) (tasks : List Task) :
    (session.carryOut tasks).2.reports = session.reports := by
  induction tasks generalizing session with
  | nil => rfl
  | cons task later inductionHypothesis =>
      cases task with
      | define function =>
          rw [carryOut, inductionHypothesis]
          rfl
      | execute statement =>
          rw [carryOut, inductionHypothesis, reports_tryExecute]

/-- One execution: a failure is put in front of the reports. -/
theorem execute_reporting
    (session : Session) (reports : List Report) (scope : ScopeId)
    (source : Text) :
    (session.reporting reports).execute scope source =
      let outcome := session.tryExecute scope source
      outcome.2.reporting
        ((Execution.report? ⟨source, outcome.1⟩).toList ++ reports) := by
  have alike : (session.reporting reports).tryExecute scope source =
      ((session.tryExecute scope source).1,
        (session.tryExecute scope source).2.reporting reports) := rfl
  rw [execute, alike]
  rcases session.tryExecute scope source with ⟨fault | done, after⟩
  · rfl
  · rfl

/-- A run: the failures of all executions are put in front of the reports, one
after another. -/
theorem foldl_runTask
    (session : Session) (reports : List Report) (tasks : List Task) :
    tasks.foldl runTask (session.reporting reports) =
      (session.carryOut tasks).2.reporting
        (((session.carryOut tasks).1.filterMap Execution.report?).reverse ++
          reports) := by
  induction tasks generalizing session reports with
  | nil => rfl
  | cons task later inductionHypothesis =>
      cases task with
      | define function =>
          rw [List.foldl_cons, carryOut, ← inductionHypothesis]
          rfl
      | execute statement =>
          rw [List.foldl_cons, runTask, execute_reporting, inductionHypothesis,
            carryOut]
          rcases session.tryExecute Program.rootScope statement
            with ⟨fault | done, after⟩
          · simp [Execution.report?]
          · simp [Execution.report?, List.filterMap_cons]

/-- The statements of all tasks are executed, each once and in order. -/
theorem statements_carryOut (session : Session) (tasks : List Task) :
    (session.carryOut tasks).1.map Execution.statement =
      tasks.filterMap Task.statement? := by
  induction tasks generalizing session with
  | nil => rfl
  | cons task later inductionHypothesis =>
      cases task with
      | define function =>
          rw [carryOut, inductionHypothesis]
          rfl
      | execute statement =>
          rw [carryOut, List.map_cons, inductionHypothesis]
          rfl

end Session

/-! ## Whole runs -/

namespace Program

variable (program : Program)

/-- Every statement at the top of a program is asked for by a task, and no other
statement is. -/
theorem statements_tasks :
    program.tasks.filterMap Task.statement? = program.topStatements := by
  have ofItem : ∀ item :
      Item, item.task?.bind Task.statement? = item.statement? := by
    rintro ⟨line, _ | _ | _ | _⟩ <;> rfl
  rw [tasks, topStatements, List.filterMap_append, List.filterMap_filterMap]
  simp only [ofItem]
  by_cases callsMain : program.autoMain
  · rw [if_pos callsMain, if_pos callsMain]
    rfl
  · rw [if_neg callsMain, if_neg callsMain]
    rfl

/-- As far as the session goes, running items is carrying out the tasks among
them. -/
theorem session_foldl_runItem (progress : Progress) (items : List Item) :
    (items.foldl runItem progress).session =
      (items.filterMap Item.task?).foldl Session.runTask progress.session := by
  induction items generalizing progress with
  | nil => rfl
  | cons item later inductionHypothesis =>
      rw [List.foldl_cons, inductionHypothesis]
      rcases item with ⟨line, _ | _ | _ | _⟩
      · rfl
      · rfl
      · rfl
      · rfl

/-- A run carries out the tasks of its program. -/
theorem session_run (settings : Settings) :
    (program.run settings).session =
      program.tasks.foldl Session.runTask (Session.start settings) := by
  rw [run, tasks, List.foldl_append]
  by_cases callsMain : program.autoMain
  · rw [if_pos callsMain, if_pos callsMain, runMain, session_foldl_runItem]
    rfl
  · rw [if_neg callsMain, if_neg callsMain, session_foldl_runItem]
    rfl

/-- The counters after some items are ahead by the number of items of each
kind. -/
theorem summary_foldl_runItem (progress : Progress) (items : List Item) :
    (items.foldl runItem progress).summary =
      { progress.summary with
        statements :=
          progress.summary.statements + items.countP Item.isStatement
        functions :=
          progress.summary.functions + items.countP fun item =>
            item.function?.isSome
        skippedBlocks :=
          progress.summary.skippedBlocks + items.countP Item.isSkipped } := by
  induction items generalizing progress with
  | nil => rfl
  | cons item later inductionHypothesis =>
      rw [List.foldl_cons, inductionHypothesis, List.countP_cons,
        List.countP_cons, List.countP_cons, ← Nat.add_assoc, ← Nat.add_assoc,
        ← Nat.add_assoc]
      rcases item with ⟨line, _ | _ | _ | _⟩ <;>
        simp [runItem, Item.isStatement, Item.function?, Item.isSkipped,
          Nat.add_right_comm]

/-- A run ends with every item counted once. -/
theorem summary_run (settings : Settings) :
    (program.run settings).summary =
      { statements := program.items.countP Item.isStatement
        functions := program.items.countP fun item => item.function?.isSome
        skippedBlocks := program.items.countP Item.isSkipped
        errors := (program.run settings).session.errorCount
        ranMain := program.autoMain } := by
  rw [run]
  by_cases callsMain : program.autoMain
  · simp [callsMain, runMain, summary_foldl_runItem, RunSummary.zero]
  · simp [callsMain, summary_foldl_runItem, RunSummary.zero]

end Program

/-- What can be seen of a run. -/
structure Showing where
  summary : RunSummary
  output : Text
  reports : List Report
deriving DecidableEq

def showing (settings : Settings) (source : Text) :
    Except SourceFault Showing :=
  (runSource settings source).map fun ending =>
    { summary := ending.1
      output := ending.2.output
      reports := ending.2.reportsInOrder }

/-- A run that starts shows the summary, the output and the reports of its last
session. -/
theorem showing_of_parse
    (settings : Settings) {source : Text} {program : Program}
    (parsed : Program.parse source = .ok program) :
    showing settings source =
      .ok
        { summary := (program.run settings).summary
          output := (program.run settings).session.output
          reports := (program.run settings).session.reportsInOrder } := by
  rw [showing, runSource, parsed]
  rfl

/-- A source that cannot be read shows nothing but its fault. -/
theorem showing_of_fault
    (settings : Settings) {source : Text} {fault : SourceFault}
    (unreadable : Program.parse source = .error fault) :
    showing settings source = .error fault := by
  rw [showing, runSource, unreadable]
  rfl

/-- A run executes every statement of its program at the top once and in order,
and then `main` if it is to be called, whatever fails.  It counts the executions
that fail and reports each of them, and no statement that runs inside another
one is reported.  The other numbers of the summary are those of the items. -/
theorem runs_account_for_every_failure
    (settings : Settings) {source : Text} {program : Program}
    (parsed : Program.parse source = .ok program) :
    ∃ executions last session,
      (Session.start settings).carryOut program.tasks = (executions, last) ∧
      executions.map Execution.statement = program.topStatements ∧
      runSource settings source =
        .ok
          ({ statements := program.items.countP Item.isStatement
             functions := program.items.countP fun item => item.function?.isSome
             skippedBlocks := program.items.countP Item.isSkipped
             errors := executions.countP Execution.failed
             ranMain := program.autoMain },
            session) ∧
      session.reportText = executions.flatMap Execution.reportText ∧
      session.machine = last.machine ∧ last.reports = [] := by
  have ran : (program.run settings).session =
      ((Session.start settings).carryOut program.tasks).2.reporting
        (((Session.start settings).carryOut program.tasks).1.filterMap
          Execution.report?).reverse := by
    have folded :=
      Session.foldl_runTask (Session.start settings) [] program.tasks
    rw [List.append_nil] at folded
    rw [program.session_run]
    exact folded
  have listed :=
    Session.statements_carryOut (Session.start settings) program.tasks
  rw [program.statements_tasks] at listed
  refine ⟨_, _, (program.run settings).session, rfl, listed, ?_, ?_, ?_,
    Session.reports_carryOut _ _⟩
  · have counted : (program.run settings).session.errorCount =
        ((Session.start settings).carryOut program.tasks).1.countP
          Execution.failed := by
      rw [ran, Session.errorCount, Session.reporting, List.length_reverse,
        Execution.length_filterMap_report?]
    rw [runSource, parsed, ← counted, ← program.summary_run]
    rfl
  · rw [ran, Session.reportText, Session.reportsInOrder, Session.reporting,
      List.reverse_reverse, Execution.flatMap_filterMap_report?]
  · rw [ran]
    rfl

/-- A source whose statements fail inside two calls, at the top, and in `main`,
with a statement and a block between them. -/
def faltering : Text :=
  "fn inner() ".toList ++ '{' :: "\n x = missing;\n".toList ++
    '}' :: "\nfn outer() ".toList ++ '{' :: "\ninner();\n".toList ++
    '}' :: "\n  outer(); \nconsole.write(\"on\");\nif (a) ".toList ++
    '{' :: "\nb();\n".toList ++
    '}' :: "\nfn main() ".toList ++ '{' :: "\nouter();\n".toList ++ ['}', '\n']

def falteringProgram : Program :=
  let function (name line : String) : ItemKind :=
    .function .typed
      { name := name.toList, parameters := [], returns := .void, body :=
        [line.toList] }
  { items :=
      [{ line := 1, kind := function "inner" "x = missing;" },
        { line := 4, kind := function "outer" "inner();" },
        { line := 7, kind := .statement "outer();".toList },
        { line := 8, kind := .statement "console.write(\"on\");".toList },
        { line := 9, kind := .skipped .ifWord 3 },
        { line := 12, kind := function "main" "outer();" }] }

/-- Under all settings the functions, the statements and the skipped block of
`faltering` are counted, and each failure once. -/
theorem runs_account_for_every_failure_of_faltering :
    Program.parse faltering = .ok falteringProgram ∧
      ∀ settings, ∃ executions last session,
        (Session.start settings).carryOut falteringProgram.tasks =
          (executions, last) ∧
        executions.map Execution.statement = falteringProgram.topStatements ∧
        runSource settings faltering =
          .ok
            ({ statements := 2
               functions := 3
               skippedBlocks := 1
               errors := executions.countP Execution.failed
               ranMain := true },
              session) ∧
        session.reportText = executions.flatMap Execution.reportText ∧
        session.machine = last.machine ∧ last.reports = [] := by
  have parsed : Program.parse faltering = .ok falteringProgram := by
    decide +kernel
  exact ⟨parsed, fun settings => runs_account_for_every_failure settings parsed⟩

end LineScript
