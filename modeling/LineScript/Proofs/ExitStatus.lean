import LineScript.Cli
import LineScript.Proofs.Accounting

/-!
The exit status of the program.

The status is 1 if something failed and 0 otherwise, and something is written to
the standard error exactly if something failed: the command is unknown, the run
cannot start, or one of the statements at the top fails.  A run that cannot
start prints nothing.
-/

namespace LineScript
namespace Cli

open Text

/-- The words that ask the program about itself. -/
def informing : List String :=
  ["help", "--help", "-h", "version", "--version", "-V", "about"]

/-- Whether a first argument that is no known word is taken for the path of a
file. -/
def looksLikePath (command : Text) : Bool :=
  !startsWith ['-'] command && (Path.extension? command).isSome

/-- The arguments of the run that is asked for: they follow `run`, or they start
with what looks like a path. -/
inductive AsksForRun : List Text → List Text → Prop
  | word {command : Text} (isRun : isWord ["run"] command)
      (arguments : List Text) :
      AsksForRun (command :: arguments) arguments
  | path {command : Text} (notRun : isWord ["run"] command = false)
      (notInforming : isWord informing command = false)
        (isPath : looksLikePath command)
      (arguments : List Text) :
      AsksForRun (command :: arguments) (command :: arguments)

/-- The first argument is neither a known word nor looks like a path. -/
inductive Unknown : List Text → Prop
  | command {command : Text} (notRun : isWord ["run"] command = false)
      (notInforming : isWord informing command = false)
        (notPath : looksLikePath command = false)
      (arguments : List Text) :
      Unknown (command :: arguments)

section Runs

variable (read : Text → Except HostFailure Text)

/-- Why a run with the given arguments does not start, with `read` giving the
content of files. -/
inductive Prevents (arguments : List Text) : CliFault → Prop
  | option {fault : CliFault}
      (refused : RunOptions.read arguments = .error fault) :
      Prevents arguments fault
  | missing {options : RunOptions}
      (accepted : RunOptions.read arguments = .ok options)
      (noPath : options.path = none) :
      Prevents arguments .missingPath
  | extension {options : RunOptions} {path : Text}
      (accepted : RunOptions.read arguments = .ok options)
        (isPath : options.path = some path)
      (notScript : Path.isScript path = false) :
      Prevents arguments (.notScript path)
  | unreadable {options : RunOptions} {path : Text} {failure : HostFailure}
      (accepted : RunOptions.read arguments = .ok options)
        (isPath : options.path = some path)
      (isScript : Path.isScript path) (refused : read path = .error failure) :
      Prevents arguments (.unreadable path failure)
  | source {options : RunOptions} {path content : Text} {fault : SourceFault}
      (accepted : RunOptions.read arguments = .ok options)
        (isPath : options.path = some path)
      (isScript : Path.isScript path) (found : read path = .ok content)
      (malformed : Program.parse content = .error fault) :
      Prevents arguments (.source fault)

/-- A run with the given arguments starts: the options are accepted, and the
file can be read and holds a program. -/
structure Starts (arguments : List Text) (options : RunOptions)
    (program : Program) : Prop where
  accepted : RunOptions.read arguments = .ok options
  holdsProgram : ∃ path content, options.path = some path ∧ Path.isScript path ∧
    read path = .ok content ∧ Program.parse content = .ok program

inductive Fails (commands : Commands) (arguments : List Text) : Prop
  | unknown (isUnknown : Unknown arguments)
  | prevented {runArguments : List Text} {fault : CliFault}
      (asks : AsksForRun arguments runArguments)
        (prevents : Prevents read runArguments fault)
  | statement {runArguments : List Text} {options : RunOptions}
      {program : Program} {execution : Execution}
      (asks : AsksForRun arguments runArguments)
        (starts : Starts read runArguments options program)
      (executed : execution ∈
        ((Session.start (options.settings commands)).carryOut program.tasks).1)
      (failed : execution.failed)

end Runs

/-- The status is 1 and there is something on the standard error, or neither. -/
def Result.Honest (result : Result) : Prop :=
  (result.exit = 1 ∧ result.stderr ≠ []) ∨
    (result.exit = 0 ∧ result.stderr = [])

theorem complaint_ne_nil (fault : CliFault) : complaint fault ≠ [] :=
  List.cons_ne_nil _ _

def ending (commands : Commands) (options : RunOptions) (program : Program) :
    Result :=
  let ended := program.run (options.settings commands)
  { exit := if ended.summary.success then 0 else 1
    stdout := ended.session.output
    stderr := ended.session.reportText }

end Cli

theorem Report.text_ne_nil (report : Report) : report.text ≠ [] :=
  List.cons_ne_nil _ _

/-- Every report has a text, so silence means that there is none. -/
theorem Session.reportText_eq_nil_iff (session : Session) :
    session.reportText = [] ↔ session.reports = [] := by
  rw [reportText, reportsInOrder, List.flatMap_eq_nil_iff]
  constructor
  · intro silent
    apply List.eq_nil_iff_forall_not_mem.mpr
    intro report member
    exact report.text_ne_nil (silent report (List.mem_reverse.mpr member))
  · intro none
    rw [none]
    exact List.forall_mem_nil _

/-- The reports of a run are those of the executions that failed, the newest
first. -/
theorem Program.reports_run (program : Program) (settings : Settings) :
    (program.run settings).session.reports =
      (((Session.start settings).carryOut program.tasks).1.filterMap
        Execution.report?).reverse := by
  have folded := Session.foldl_runTask (Session.start settings) [] program.tasks
  rw [List.append_nil] at folded
  rw [program.session_run]
  exact congrArg Session.reports folded

theorem Execution.report?_eq_none_iff (execution : Execution) :
    execution.report? = none ↔ execution.failed = false := by
  rw [report?, failed]
  cases execution.result with
  | error fault => simp
  | ok done => simp

/-- A run is without reports exactly if no statement in it failed. -/
theorem Program.reports_run_eq_nil_iff
    (program : Program) (settings : Settings) :
    (program.run settings).session.reports = [] ↔
      ∀ execution ∈ ((Session.start settings).carryOut program.tasks).1,
        execution.failed = false := by
  rw [program.reports_run, List.reverse_eq_nil_iff, List.filterMap_eq_nil_iff]
  simp only [Execution.report?_eq_none_iff]

namespace Cli

section Ending

variable (commands : Commands) (options : RunOptions) (program : Program)

/-- A run without reports ends with status 0 and a silent standard error. -/
theorem ending_of_silent
    (silent : (program.run (options.settings commands)).session.reports = []) :
    (ending commands options program).exit = 0 ∧
      (ending commands options program).stderr = [] := by
  constructor
  · rw [ending, program.summary_run, RunSummary.success, Session.errorCount,
      silent]
    rfl
  · exact (Session.reportText_eq_nil_iff _).mpr silent

/-- A run with reports ends with status 1 and says so on the standard error. -/
theorem ending_of_reports
    (reported : (program.run (options.settings commands)).session.reports ≠ []) :
    (ending commands options program).exit = 1 ∧
      (ending commands options program).stderr ≠ [] := by
  constructor
  · have counted :
        (program.run (options.settings commands)).session.reports.length ≠ 0 :=
      fun zero => reported (List.eq_nil_of_length_eq_zero zero)
    simp [ending, program.summary_run, RunSummary.success, Session.errorCount,
      counted]
  · exact fun nothing => reported ((Session.reportText_eq_nil_iff _).mp nothing)

end Ending

/-! ## From arguments to results -/

section Arguments

variable (commands : Commands) (coloured : Bool)
    (read : Text → Except HostFailure Text)
  {arguments runArguments : List Text}

theorem isWord_append (words others : List String) (argument : Text) :
    isWord (words ++ others) argument =
      (isWord words argument || isWord others argument) :=
  List.any_append

theorem informing_eq :
    informing = ["help", "--help", "-h"] ++ (["version", "--version", "-V"] ++ ["about"]) := rfl

theorem plan_of_informing
    {command : Text} (notRun : isWord ["run"] command = false)
    (isInforming : isWord informing command) (arguments : List Text) :
    ∃ text, plan coloured (command :: arguments) =
      .finished (.printed text) := by
  rw [informing_eq, isWord_append, isWord_append] at isInforming
  rw [plan, notRun, if_neg Bool.false_ne_true]
  by_cases isHelp : isWord ["help", "--help", "-h"] command
  · exact ⟨_, if_pos isHelp⟩
  · rw [if_neg isHelp]
    by_cases isVersion : isWord ["version", "--version", "-V"] command
    · exact ⟨_, if_pos isVersion⟩
    · have isAbout : isWord ["about"] command := by
        simpa [isHelp, isVersion] using isInforming
      rw [if_neg isVersion]
      exact ⟨_, if_pos isAbout⟩

/-- A first argument that is no known word. -/
theorem plan_of_other
    {command : Text} (notRun : isWord ["run"] command = false)
    (notInforming : isWord informing command = false) (arguments : List Text) :
    plan coloured (command :: arguments) =
      if looksLikePath command then planRun (command :: arguments)
      else .finished (.failed
        ("Unknown command: ".toList ++ command ++ "\n\n".toList ++
          Usage.usage false)) := by
  rw [informing_eq, isWord_append, isWord_append, Bool.or_eq_false_iff,
    Bool.or_eq_false_iff]
    at notInforming
  rcases notInforming with ⟨notHelp, notVersion, notAbout⟩
  rw [plan, notRun, notHelp, notVersion, notAbout]
  rfl

theorem plan_of_asks (asks : AsksForRun arguments runArguments) :
    plan coloured arguments = planRun runArguments := by
  cases asks with
  | word isRun arguments => rw [plan, if_pos isRun]
  | path notRun notInforming isPath arguments =>
      rw [plan_of_other coloured notRun notInforming, if_pos isPath]

/-- The program tells about itself, knows no such command, or is asked for a
run. -/
theorem plan_cases (arguments : List Text) :
    (∃ text, plan coloured arguments = .finished (.printed text)) ∨
      Unknown arguments ∨
      ∃ runArguments, AsksForRun arguments runArguments := by
  cases arguments with
  | nil => exact .inl ⟨_, rfl⟩
  | cons command arguments =>
      by_cases isRun : isWord ["run"] command
      · exact .inr (.inr ⟨arguments, .word isRun arguments⟩)
      · rw [Bool.not_eq_true] at isRun
        by_cases isInforming : isWord informing command
        · exact .inl (plan_of_informing coloured isRun isInforming arguments)
        · rw [Bool.not_eq_true] at isInforming
          by_cases isPath : looksLikePath command
          · exact .inr (.inr ⟨_, .path isRun isInforming isPath arguments⟩)
          · rw [Bool.not_eq_true] at isPath
            exact .inr (.inl (.command isRun isInforming isPath arguments))

/-- Words that the program does not know are complained about. -/
theorem result_of_unknown (isUnknown : Unknown arguments) :
    ∃ text, result commands coloured read arguments = .failed text ∧
      text ≠ [] := by
  cases isUnknown with
  | command notRun notInforming notPath arguments =>
      rw [result, plan_of_other coloured notRun notInforming, notPath]
      exact ⟨_, rfl, List.cons_ne_nil _ _⟩

variable {read}

/-- A run that does not start only complains, whatever the commands of the host
would do. -/
theorem result_of_prevents
    (asks : AsksForRun arguments runArguments) {fault : CliFault}
    (prevents : Prevents read runArguments fault) :
    ∃ usage, ∀ commands,
      result commands coloured read arguments =
        .failed (complaint fault ++ usage) := by
  cases prevents with
  | option refused =>
      refine ⟨[], fun commands => ?_⟩
      rw [result, plan_of_asks coloured asks, planRun, refused, List.append_nil]
  | missing accepted noPath =>
      refine ⟨runUsage, fun commands => ?_⟩
      rw [result, plan_of_asks coloured asks, planRun, accepted]
      simp only [noPath]
  | extension accepted isPath notScript =>
      refine ⟨[], fun commands => ?_⟩
      rw [result, plan_of_asks coloured asks, planRun, accepted,
        List.append_nil]
      simp [isPath, notScript]
  | unreadable accepted isPath isScript refused =>
      refine ⟨[], fun commands => ?_⟩
      rw [result, plan_of_asks coloured asks, planRun, accepted,
        List.append_nil]
      simp [isPath, isScript, runContent, refused]
  | source accepted isPath isScript found malformed =>
      refine ⟨[], fun commands => ?_⟩
      rw [result, plan_of_asks coloured asks, planRun, accepted,
        List.append_nil]
      simp [isPath, isScript, runContent, found, runSource, malformed,
        Except.map]

/-- A run that starts ends as its program does. -/
theorem result_of_starts
    (asks : AsksForRun arguments runArguments) {options : RunOptions}
    {program : Program} (starts : Starts read runArguments options program) :
    result commands coloured read arguments =
      ending commands options program := by
  rcases starts with ⟨accepted, path, content, isPath, isScript, found, parsed⟩
  rw [result, plan_of_asks coloured asks, planRun, accepted]
  simp [isPath, isScript, runContent, found, runSource, parsed, Except.map,
    ending]

variable (read)

/-- A run starts unless something prevents it. -/
theorem prevents_or_starts (arguments : List Text) :
    (∃ fault, Prevents read arguments fault) ∨
      ∃ options program, Starts read arguments options program := by
  cases accepted : RunOptions.read arguments with
  | error fault => exact .inl ⟨fault, .option accepted⟩
  | ok options =>
      cases isPath : options.path with
      | none => exact .inl ⟨_, .missing accepted isPath⟩
      | some path =>
          by_cases isScript : Path.isScript path
          · cases found : read path with
            | error failure =>
                exact .inl ⟨_, .unreadable accepted isPath isScript found⟩
            | ok content =>
                cases parsed : Program.parse content with
                | error fault =>
                    exact .inl
                      ⟨_, .source accepted isPath isScript found parsed⟩
                | ok program =>
                    exact .inr
                      ⟨options, program, accepted, path, content, isPath,
                        isScript,
                      found, parsed⟩
          · rw [Bool.not_eq_true] at isScript
            exact .inl ⟨_, .extension accepted isPath isScript⟩

/-- Whatever fails makes the status 1. -/
theorem exit_of_fails (fails : Fails read commands arguments) :
    (result commands coloured read arguments).exit = 1 := by
  cases fails with
  | unknown isUnknown =>
      rcases result_of_unknown commands coloured read isUnknown
        with ⟨text, isResult, _⟩
      rw [isResult]
      rfl
  | prevented asks prevents =>
      rcases result_of_prevents coloured asks prevents with ⟨usage, isResult⟩
      rw [isResult]
      rfl
  | @statement runArguments options program execution asks starts executed
      failed =>
      rw [result_of_starts commands coloured asks starts]
      refine (ending_of_reports commands options program ?_).1
      intro silent
      rw [program.reports_run_eq_nil_iff] at silent
      rw [silent execution executed] at failed
      cases failed

/-- For all arguments something fails and the status is 1, or the status is 0
and nothing is on the standard error. -/
theorem fails_or_succeeds (arguments : List Text) :
    (Fails read commands arguments ∧
      (result commands coloured read arguments).exit = 1 ∧
        (result commands coloured read arguments).stderr ≠ []) ∨
      ((result commands coloured read arguments).exit = 0 ∧
        (result commands coloured read arguments).stderr = []) := by
  rcases plan_cases coloured arguments
    with ⟨text, informs⟩ | isUnknown | ⟨runArguments, asks⟩
  · rw [result, informs]
    exact .inr ⟨rfl, rfl⟩
  · rcases result_of_unknown commands coloured read isUnknown
      with ⟨text, isResult, nonempty⟩
    rw [isResult]
    exact .inl ⟨.unknown isUnknown, rfl, nonempty⟩
  · rcases prevents_or_starts read runArguments with
      ⟨fault, prevents⟩ | ⟨options, program, starts⟩
    · rcases result_of_prevents coloured asks prevents with ⟨usage, isResult⟩
      rw [isResult]
      exact .inl ⟨.prevented asks prevents, rfl,
        List.append_ne_nil_of_left_ne_nil (complaint_ne_nil fault) usage⟩
    · rw [result_of_starts commands coloured asks starts]
      by_cases silent :
        (program.run (options.settings commands)).session.reports = []
      · exact .inr (ending_of_silent commands options program silent)
      · have reported := ending_of_reports commands options program silent
        rw [program.reports_run_eq_nil_iff] at silent
        have someFails : ∃ execution ∈
            ((Session.start (options.settings commands)).carryOut
              program.tasks).1,
            execution.failed := by
          simpa using silent
        rcases someFails with ⟨execution, executed, failed⟩
        exact .inl ⟨.statement asks starts executed failed, reported⟩

end Arguments

/-- The status is 1 exactly if something is written to the standard error, and 0
otherwise; it is 1 exactly if something fails.  A run that cannot start prints
nothing and runs no command, and what it writes to the standard error starts
with the complaint about what prevents it. -/
theorem exit_status_reflects_failure
    (commands : Commands) (coloured : Bool)
    (read : Text → Except HostFailure Text) (arguments : List Text) :
    (result commands coloured read arguments).Honest ∧
    ((result commands coloured read arguments).exit = 1 ↔
      Fails read commands arguments) ∧
    ∀ runArguments fault, AsksForRun arguments runArguments →
      Prevents read runArguments fault →
      ∃ usage, ∀ others, result others coloured read arguments =
        { exit := 1, stdout := [], stderr := complaint fault ++ usage } := by
  rw [← and_assoc]
  refine ⟨?_, fun _ _ asks prevents =>
    result_of_prevents coloured asks prevents⟩
  rcases fails_or_succeeds commands coloured read arguments with
    ⟨fails, isOne, written⟩ | ⟨isZero, nothing⟩
  · exact ⟨.inl ⟨isOne, written⟩, fun _ => fails, fun _ => isOne⟩
  · refine ⟨.inr ⟨isZero, nothing⟩, ?_, exit_of_fails commands coloured read⟩
    intro isOne
    rw [isZero] at isOne
    cases isOne

/-- The files of a host: a program with a statement that fails, and a text that
is no program although its first statement could be run. -/
def twoFiles (path : Text) : Except HostFailure Text :=
  if path =
    "a.mus".toList then .ok "console.write(\"on\");\nmissing();\n".toList
  else if path =
    "b.mus".toList then
      .ok ("console.write(\"on\");\nfn f( ".toList ++ ['{', '\n'])
  else .error .notFound

def noCommands : Commands := fun _ _ => .refused .notFound

/-- The arguments that ask for a run of the first file, and of the second
one. -/
def firstArguments : List Text := ["run".toList, "a.mus".toList]

def secondArguments : List Text := ["b.mus".toList, "--max-depth=5".toList]

def secondFault : CliFault :=
  .source (.header 2 ("fn f( ".toList ++ ['{']))

theorem prevents_second : Prevents twoFiles secondArguments secondFault := by
  have accepted : RunOptions.read secondArguments =
      .ok { assignment := .shadow, callLimit := 5, path :=
        some "b.mus".toList } := by
    decide +kernel
  have isScript : Path.isScript "b.mus".toList := by decide +kernel
  have malformed :
      Program.parse ("console.write(\"on\");\nfn f( ".toList ++ ['{', '\n']) =
        .error (.header 2 ("fn f( ".toList ++ ['{'])) := by
    decide +kernel
  exact .source accepted rfl isScript rfl malformed

/-- The first run fails in a statement, and the second one does not start,
whatever commands the host has. -/
theorem exit_status_reflects_failure_of_twoFiles :
    ((result noCommands false twoFiles firstArguments).exit = 1 ∧
      (result noCommands false twoFiles firstArguments).Honest ∧
      Fails twoFiles noCommands firstArguments) ∧
    AsksForRun secondArguments secondArguments ∧
      Prevents twoFiles secondArguments secondFault ∧
      ∃ usage, ∀ others, result others true twoFiles secondArguments =
        { exit := 1, stdout := [], stderr :=
          complaint secondFault ++ usage } := by
  have isOne : (result noCommands false twoFiles firstArguments).exit = 1 := by
    decide +kernel
  have isPath : looksLikePath "b.mus".toList := by decide +kernel
  have asks : AsksForRun secondArguments secondArguments :=
    .path rfl rfl isPath _
  rcases exit_status_reflects_failure noCommands false twoFiles
    firstArguments with
    ⟨honest, failing, _⟩
  rcases exit_status_reflects_failure noCommands true twoFiles
    secondArguments with
    ⟨_, _, preventing⟩
  exact ⟨⟨isOne, honest, failing.mp isOne⟩, asks, prevents_second,
    preventing _ _ asks prevents_second⟩

end Cli
end LineScript
