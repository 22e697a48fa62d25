import LineScript.Proofs.Conduct
import LineScript.Proofs.Forest
import LineScript.Session

/-!
Sessions in which an assignment writes into the scope it stands in.

Expressions and calls then leave every scope as it was: a body writes only into
the scope of its call, and that scope is gone when the call ends.  A statement
that fails changes nothing, and one that succeeds changes at most what it
targets in the scope it runs in.
-/

namespace LineScript

namespace Statement

/-- The variable that a statement binds when it succeeds. -/
def target? : Statement → Option Text
  | .arrow closure => some closure.name
  | .declare name _ _ => some name
  | .declareBool name _ => some name
  | .declareList name _ => some name
  | .step name _ => some name
  | .assign name _ => some name
  | _ => none

def definition? : Statement → Option Text
  | .arrow closure => some closure.name
  | _ => none

end Statement

namespace Forest

/-- The forests agree on everything but the variable `written` and the function
`defined` of the scope at `index`. -/
structure Footprint
    (index : ScopeId) (written defined : Option Text) (before after : Forest) :
    Prop
    extends AgreesOff index before after where
  parent : after.parent? index = before.parent? index
  otherVariables : ∀ name, written ≠ some name →
    after.localVariable? index name = before.localVariable? index name
  otherFunctions : ∀ name, defined ≠ some name →
    after.localFunction? index name = before.localFunction? index name

namespace Footprint

variable {index : ScopeId} {written defined : Option Text}

theorem refl
    (index : ScopeId) (written defined : Option Text) (forest : Forest) :
    Footprint index written defined forest forest :=
  ⟨.refl index forest, rfl, fun _ _ => rfl, fun _ _ => rfl⟩

theorem trans
    {first second third : Forest}
    (start : Footprint index written defined first second)
    (ending : Footprint index written defined second third) :
    Footprint index written defined first third := by
  refine ⟨start.toAgreesOff.trans ending.toAgreesOff,
    ending.parent.trans start.parent, ?_, ?_⟩
  · intro name different
    exact (ending.otherVariables name different).trans
      (start.otherVariables name different)
  · intro name different
    exact (ending.otherFunctions name different).trans
      (start.otherFunctions name different)

theorem setVariable
    (index : ScopeId) (name : Text) (defined : Option Text) (forest : Forest)
    (value : Value) :
    Footprint index (some name) defined forest
      (forest.setVariable index name value) := by
  refine ⟨.modify forest index _ _, parent?_modify .., ?_, ?_⟩
  · intro other different
    have otherName : other ≠ name :=
      fun same => different (congrArg some same.symm)
    exact localVariable?_setVariable_of_ne forest index value otherName
  · intro other _
    exact localFunction?_setVariable forest index name value other

theorem setFunction
    (index : ScopeId) (written : Option Text) (function : Function)
    (forest : Forest) :
    Footprint index written (some function.name) forest
      (forest.setFunction index function) := by
  refine ⟨.modify forest index _ _, parent?_modify .., ?_, ?_⟩
  · intro other _
    exact localVariable?_setFunction forest index function other
  · intro other different
    have otherName : other ≠ function.name :=
      fun same => different (congrArg some same.symm)
    exact localFunction?_setFunction_of_ne forest index otherName

/-- The store of a statement stays on its targets. -/
theorem store
    (statement : Statement) (scope : ScopeId) (value : Value)
    (forest : Forest) :
    Footprint scope statement.target? statement.definition? forest
      (statement.store .shadow scope value forest) := by
  cases statement with
  | arrow closure =>
      have stored :=
        setFunction scope (some closure.name) closure.function forest
      exact stored.trans
        (setVariable scope closure.name (some closure.name) _ _)
  | declare name typeText expression =>
      exact setVariable scope name none forest value
  | declareBool name expression =>
      exact setVariable scope name none forest value
  | declareList name elements => exact setVariable scope name none forest value
  | step name direction => exact setVariable scope name none forest value
  | assign name expression => exact setVariable scope name none forest value
  | _ => exact refl scope none none forest

end Footprint
end Forest

/-- Calls change no scope, and statements only the one they run in. -/
def Conduct.shadowing {mode : AssignmentMode} (shadow : mode = .shadow) :
    Conduct mode where
  calls before after := after.forest = before.forest
  acts scope before after := Forest.AgreesOff scope before.forest after.forest
  refl _ := rfl
  trans start ending := ending.trans start
  acts_of_calls {scope before after} same := by
    rw [same]
    exact .refl scope before.forest
  acts_trans start ending := start.trans ending
  prints _ _ := rfl
  stores statement scope machine value := by
    subst shadow
    exact (Forest.Footprint.store statement scope value
      machine.forest).toAgreesOff
  binds scope machine name value :=
    (Forest.Footprint.setVariable scope name none machine.forest
      value).toAgreesOff
  returns agrees := agrees.dropLast_eq

namespace Session

/-- The calls of a session abide by every conduct. -/
theorem admits_invoker
    {session : Session} (conduct : Conduct session.settings.assignment) :
    conduct.Admits session.invoker :=
  conduct.admits_invoke session.room

/-- A shadowing session with a function that assigns to the variable `x` of the
scope around it and then calls itself. -/
def runaway : Session :=
  let settings : Settings :=
    { assignment := .shadow
      callLimit := 3
      commands := fun _ _ => { lines := [], failure := none } }
  let function : Function :=
    { name := ['f']
      parameters := []
      returns := .void
      body := ["x = 2;".toList, "return f();".toList] }
  (start settings).modifyForest fun forest =>
    (forest.setVariable 0 ['x'] (.integer 1)).setFunction 0 function

/-- In a shadowing session expressions and calls leave every scope as it was,
whether they fail or not. -/
theorem evaluate_and_invoke_keep_scopes
    (session : Session) (shadow : session.settings.assignment = .shadow)
    (scope : ScopeId) :
    (∀ source, (session.evaluate scope source).2.forest = session.forest) ∧
      ∀ name arguments, (session.invoke scope name arguments).2.forest =
        session.forest := by
  have admits := admits_invoker (Conduct.shadowing shadow)
  constructor
  · intro source
    exact Conduct.evaluateText_within admits scope source session.machine
  · intro name arguments
    exact admits scope name arguments session.machine

/-- The function of `runaway` calls itself until the limit, and no scope is left
behind. -/
theorem evaluate_and_invoke_keep_scopes_of_runaway :
    runaway.settings.assignment = .shadow ∧
      (∀ source, (runaway.evaluate 0 source).2.forest = runaway.forest) ∧
        ∀ name arguments, (runaway.invoke 0 name arguments).2.forest =
          runaway.forest :=
  ⟨rfl, runaway.evaluate_and_invoke_keep_scopes rfl 0⟩

theorem tryExecute_of_unreadable
    (session : Session) (scope : ScopeId) {source : Text} {fault : Fault}
    (unreadable : Statement.read source = .error fault) :
    session.tryExecute scope source = (.error fault, session) := by
  rw [tryExecute, Evaluation.runText, Evaluation.readThen, unreadable]
  rfl

theorem tryExecute_of_read
    (session : Session) (scope : ScopeId) {source : Text}
    {statement : Statement} (reads : Statement.read source = .ok statement) :
    session.tryExecute scope source =
      session.perform
        (Evaluation.runStatement session.settings session.invoker scope
          statement) := by
  rw [tryExecute, Evaluation.runText, Evaluation.readThen, reads]
  rfl

/-- In a shadowing session a statement that fails leaves every scope as it was,
and one that succeeds changes at most its own targets in the scope it runs
in. -/
theorem tryExecute_is_atomic
    (session : Session) (shadow : session.settings.assignment = .shadow)
    (scope : ScopeId) (source : Text) :
    match session.tryExecute scope source with
    | (.error _, after) => after.forest = session.forest
    | (.ok (), after) =>
        ∃ statement, Statement.read source = .ok statement ∧
          Forest.Footprint scope statement.target? statement.definition?
            session.forest after.forest := by
  cases reading : Statement.read source with
  | error fault =>
      rw [tryExecute_of_unreadable session scope reading]
  | ok statement =>
      rw [tryExecute_of_read session scope reading, perform]
      have admits := admits_invoker (Conduct.shadowing shadow)
      obtain ⟨middle, kept, ⟨fault, failed⟩ | done | ⟨value, stored⟩⟩ :=
        Conduct.exists_of_run_runStatement admits scope statement
          session.machine
      · rw [failed]
        exact kept
      · rw [done]
        have sameScopes : middle.forest = session.forest := kept
        refine ⟨statement, rfl, ?_⟩
        rw [← sameScopes]
        exact .refl scope _ _ middle.forest
      · rw [stored, shadow]
        have sameScopes : middle.forest = session.forest := kept
        refine ⟨statement, rfl, ?_⟩
        rw [← sameScopes]
        exact .store statement scope value middle.forest

/-- An assignment from a call that fails at the limit leaves the scopes as they
were. -/
theorem tryExecute_is_atomic_of_runaway :
    runaway.settings.assignment = .shadow ∧
      match runaway.tryExecute 0 "x = f();".toList with
      | (.error _, after) => after.forest = runaway.forest
      | (.ok (), after) =>
          ∃ statement, Statement.read "x = f();".toList = .ok statement ∧
            Forest.Footprint 0 statement.target? statement.definition?
              runaway.forest after.forest :=
  ⟨rfl, runaway.tryExecute_is_atomic rfl 0 "x = f();".toList⟩

end Session
end LineScript
