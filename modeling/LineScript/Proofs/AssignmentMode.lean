import LineScript.Proofs.Accounting
import LineScript.Proofs.Trace.Mirroring
import LineScript.Proofs.Trace.Record

/-!
What the mode of assignment decides.

A run whose calls execute no step and no assignment shows the same under every
mode: the same summary, the same output and the same reports.
-/

namespace LineScript

namespace Session

variable (session : Session) (mode : AssignmentMode)

def underMode : Session :=
  { session with settings := session.settings.underMode mode }

def taskMoments (session : Session) : Task → List Moment
  | .define _ => []
  | .execute statement =>
      (session.recordExecute Program.rootScope statement).moments

def moments (session : Session) : List Task → List Moment
  | [] => []
  | task :: later =>
      session.taskMoments task ++ (session.runTask task).moments later

/-- One statement at the top, whatever comes of it. -/
theorem tryExecute_underMode
    {source : Text}
    (quiet : QuietCalls (session.recordExecute Program.rootScope source).moments) :
    (session.underMode mode).tryExecute Program.rootScope source =
      ((session.tryExecute Program.rootScope source).1,
        (session.tryExecute Program.rootScope source).2.underMode mode) := by
  have calls := Traced.invoke_mirrors session.settings session.room
  rcases Traced.runText_mirrors_zero calls mode source session.machine
    (Nat.zero_le _) [] with
    ⟨added, result, after, recorded, _, same⟩
  have isRecord : session.recordExecute Program.rootScope source =
      { result := result, ending := after, moments := added.reverse } := by
    rw [recordExecute, Traced.record, tracer, Program.rootScope, recorded,
      List.append_nil]
  have quietAdded : QuietCalls added := by
    intro moment member
    rw [isRecord] at quiet
    exact quiet moment (List.mem_reverse.mpr member)
  have tells := session.recordExecute_tells Program.rootScope source
  rw [isRecord] at tells
  have isResult : result = (session.tryExecute Program.rootScope source).1 :=
    tells.result
  have isEnding :
      after = (session.tryExecute Program.rootScope source).2.machine :=
        tells.ending
  have otherRun : (session.underMode mode).tryExecute Program.rootScope source =
      (result, { session.underMode mode with machine := after }) := by
    have ran := same quietAdded
    rw [tryExecute, perform]
    exact congrArg
      (fun outcome =>
        (outcome.1, { session.underMode mode with machine := outcome.2 })) ran
  rw [otherRun, isResult, isEnding]
  rfl

theorem execute_underMode
    {source : Text}
    (quiet : QuietCalls (session.recordExecute Program.rootScope source).moments) :
    (session.underMode mode).execute Program.rootScope source =
      (session.execute Program.rootScope source).underMode mode := by
  rw [execute, execute, session.tryExecute_underMode mode quiet]
  rcases session.tryExecute Program.rootScope source with ⟨fault | done, after⟩
  · rfl
  · rfl

/-- A task whose calls assign nothing ends alike under both modes. -/
theorem runTask_underMode
    {task : Task} (quiet : QuietCalls (session.taskMoments task)) :
    (session.underMode mode).runTask task =
      (session.runTask task).underMode mode := by
  cases task with
  | define function => rfl
  | execute statement => exact session.execute_underMode mode quiet

/-- A whole run: the sessions under the two modes stay the same after every
task. -/
theorem foldl_runTask_underMode
    {tasks : List Task} (quiet : QuietCalls (session.moments tasks)) :
    tasks.foldl runTask (session.underMode mode) =
      (tasks.foldl runTask session).underMode mode := by
  induction tasks generalizing session with
  | nil => rfl
  | cons task later inductionHypothesis =>
      rcases quietCalls_append.mp quiet with ⟨quietTask, quietLater⟩
      rw [List.foldl_cons, List.foldl_cons,
        session.runTask_underMode mode quietTask]
      exact inductionHypothesis (session.runTask task) quietLater

end Session

def runMoments (settings : Settings) (source : Text) : List Moment :=
  match Program.parse source with
  | .error _ => []
  | .ok program => (Session.start settings).moments program.tasks

/-- A program whose calls assign nothing ends alike under both modes. -/
theorem Program.session_run_underMode
    (program : Program) (settings : Settings) (mode : AssignmentMode)
    (quiet : QuietCalls ((Session.start settings).moments program.tasks)) :
    (program.run (settings.underMode mode)).session =
      (program.run settings).session.underMode mode := by
  rw [program.session_run, program.session_run]
  exact (Session.start settings).foldl_runTask_underMode mode quiet

/-- If no step and no assignment is executed inside a call while a source runs,
then it shows the same under every other mode of assignment, with the same limit
and the same commands. -/
theorem modes_agree_unless_calls_assign
    (settings : Settings) (mode : AssignmentMode) (source : Text)
    (quiet : QuietCalls (runMoments settings source)) :
    showing (settings.underMode mode) source = showing settings source := by
  cases parsed : Program.parse source with
  | error fault => rw [showing_of_fault _ parsed, showing_of_fault _ parsed]
  | ok program =>
      rw [runMoments, parsed] at quiet
      rw [showing_of_parse _ parsed, showing_of_parse _ parsed,
        program.summary_run, program.summary_run,
        program.session_run_underMode settings mode quiet]
      rfl

/-- A source that assigns at the top, and whose function declares a variable,
reads those around it and fails. -/
def reserved : Text :=
  "var count: Int32 = 1;\nfn tell(text: String) ".toList ++
    '{' :: "\nvar copy: String = text;\n".toList ++
    "console.write(\"{copy} {count}\");\nmissing();\n".toList ++
    '}' :: "\ntell(\"a\");\ncount = 5;\ncount++;\ntell(\"b\");\n".toList

def reservedSettings : Settings :=
  { assignment := .shadow
    callLimit := 2
    commands := fun _ _ => .refused .notFound }

/-- The source `reserved` assigns at the top and in no call, so both modes show
the same. -/
theorem modes_agree_unless_calls_assign_of_reserved :
    QuietCalls (runMoments reservedSettings reserved) ∧
      showing (reservedSettings.underMode .enclosing) reserved =
        showing reservedSettings reserved ∧
      (showing reservedSettings reserved).map Showing.output =
        .ok "a 1\nb 6\n".toList := by
  have quiet : QuietCalls (runMoments reservedSettings reserved) := by
    rw [QuietCalls]
    decide +kernel
  refine ⟨quiet,
    modes_agree_unless_calls_assign reservedSettings .enclosing reserved quiet,
      ?_⟩
  decide +kernel

/-- An assignment inside a call is seen outside it under one mode only. -/
example :
    let source :=
      "var x: Int32 = 1;\nfn f() ".toList ++ '{' :: "\nx = 2;\n".toList ++
        '}' :: "\nf();\nconsole.write(x);\n".toList
    (showing reservedSettings source).map Showing.output = .ok "1\n".toList ∧
      (showing (reservedSettings.underMode .enclosing) source).map
        Showing.output =
        .ok "2\n".toList := by
  decide +kernel

end LineScript
