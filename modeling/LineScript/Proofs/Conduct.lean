import LineScript.Proofs.Correspondence

/-!
What evaluation can do to the machine.

An expression changes the machine only through the calls in it.  A statement
does what its expressions do and then, if nothing failed, makes at most one
store that its form fixes.  A `Conduct` says what calls may do and what
statements in a scope may do; if it allows printing and every store, and a call
may do whatever its body may do in the scope of the call, then all of evaluation
abides by it.
-/

namespace LineScript

namespace Correspondence

variable {relation : Machine → Machine → Prop}

def ofRelation
    (refl : ∀ machine, relation machine machine)
    (trans : ∀ {first second third},
      relation first second → relation second third → relation first third)
    (prints : ∀ machine text, relation machine (machine.printed text)) :
    Correspondence Action where
  fits _ := True
  Relates _ _ action := action.Within relation
  fits_plain _ := trivial
  relates_pure _ := .of_unchanged refl fun _ => rfl
  relates_throw _ := .of_unchanged refl fun _ => rfl
  relates_bind always stays goesOn :=
    stays.bind trans fun found => goesOn found (always (fun _ => trivial) found)
  relates_catch stays handled := stays.tryCatch trans handled
  relates_ofExcept _ := .of_unchanged refl fun _ => rfl
  relates_prints := by
    rintro action ⟨result, texts, ran⟩ machine
    rw [ran]
    clear ran
    induction texts generalizing machine with
    | nil => exact refl machine
    | cons text later laterWithin =>
        exact trans (prints machine text) (laterWithin (machine.printed text))

theorem sees_ofRelation
    (refl : ∀ machine, relation machine machine)
    (trans : ∀ {first second third},
      relation first second → relation second third → relation first third)
    (prints : ∀ machine text, relation machine (machine.printed text))
    (here there : ScopeId) :
    (ofRelation refl trans prints).Sees here there where
  string _ := .of_unchanged refl fun _ => rfl
  name _ := .of_unchanged refl fun _ => rfl
  arithmetic _ := .of_unchanged refl fun _ => rfl
  lookup _ := .of_unchanged refl fun _ => rfl

end Correspondence

/-- What calls, and statements in a scope, may do to the machine. -/
structure Conduct (mode : AssignmentMode) where
  calls : Machine → Machine → Prop
  acts : ScopeId → Machine → Machine → Prop
  refl : ∀ machine, calls machine machine
  trans : ∀ {first second third}, calls first second → calls second third →
    calls first third
  acts_of_calls : ∀ {scope before after}, calls before after →
    acts scope before after
  acts_trans : ∀ {scope first second third},
    acts scope first second → acts scope second third → acts scope first third
  prints : ∀ machine text, calls machine (machine.printed text)
  stores : ∀ (statement : Statement) scope machine value,
    acts scope machine
      (machine.withForest (statement.store mode scope value machine.forest))
  binds : ∀ scope machine name value,
    acts scope machine
      (machine.withForest (machine.forest.setVariable scope name value))
  returns : ∀ {machine owner ending},
    acts machine.forest.size (machine.entered owner) ending →
      calls machine ending.left

namespace Conduct

open Evaluation

variable {mode : AssignmentMode} (conduct : Conduct mode)

/-- The meaning of calls abides by the conduct. -/
def Admits (invoke : Invoker Action) : Prop :=
  ∀ caller name arguments, (invoke caller name arguments).Within conduct.calls

def calling : Correspondence Action :=
  .ofRelation conduct.refl conduct.trans conduct.prints

def acting (scope : ScopeId) : Correspondence Action :=
  @Correspondence.ofRelation (conduct.acts scope)
    (fun machine => conduct.acts_of_calls (conduct.refl machine))
    conduct.acts_trans
    fun machine text => conduct.acts_of_calls (conduct.prints machine text)

variable {conduct}

theorem within_of_relates
    {α : Type} {suits : α → Prop} {action : Action α}
    (relates : conduct.calling.Relates suits action action) :
    action.Within conduct.calls :=
  relates

theorem acts_of_relates
    {α : Type} {suits : α → Prop} {scope : ScopeId} {action : Action α}
    (relates : (conduct.acting scope).Relates suits action action) :
    action.Within (conduct.acts scope) :=
  relates

theorem acts_of_within
    {α : Type} (scope : ScopeId) {action : Action α}
    (stays : action.Within conduct.calls) :
    action.Within (conduct.acts scope) :=
  stays.mono conduct.acts_of_calls

theorem evaluateText_within
    {invoke : Invoker Action} (admits : conduct.Admits invoke) (scope : ScopeId)
    (source : Text) :
    (evaluateText invoke scope source).Within conduct.calls :=
  within_of_relates
    (Correspondence.evaluate (Correspondence.sees_ofRelation _ _ _ scope scope)
      (admits scope) (Expression.read source))

section Statements

variable {settings : Settings} {conduct : Conduct settings.assignment}
  {invoke : Invoker Action} (admits : conduct.Admits invoke)

include admits

/-- A statement does what its expressions do, and then fails, or is done, or
makes its store. -/
theorem exists_of_run_runStatement
    (scope : ScopeId) (statement : Statement) (machine : Machine) :
    ∃ middle, conduct.calls machine middle ∧
      ((∃ fault, (runStatement settings invoke scope statement).run machine =
          (.error fault, middle)) ∨
        (runStatement settings invoke scope statement).run machine =
          (.ok (), middle) ∨
        ∃ value, (runStatement settings invoke scope statement).run machine =
          (.ok (), middle.withForest
            (statement.store settings.assignment scope value
              middle.forest))) := by
  have comes :
      (outcome (evaluateText invoke scope) settings.commands (invoke scope)
        scope statement).Within conduct.calls := by
    apply within_of_relates
    apply Correspondence.outcome
    · exact Correspondence.sees_ofRelation _ _ _ scope scope
    · exact fun source _ => evaluateText_within admits scope source
    · exact fun name arguments _ => admits scope name arguments
    · exact fun _ _ => trivial
  have start := comes machine
  rw [runStatement, effect, Action.run_bind]
  rcases ran : (outcome (evaluateText invoke scope) settings.commands
    (invoke scope) scope statement).run machine with ⟨fault | stored, middle⟩
  · rw [ran] at start
    exact ⟨middle, start, .inl ⟨fault, rfl⟩⟩
  · rw [ran] at start
    cases stored with
    | none => exact ⟨middle, start, .inr (.inl rfl)⟩
    | some value => exact ⟨middle, start, .inr (.inr ⟨value, rfl⟩)⟩

/-- A statement does what statements in its scope may do. -/
theorem runStatement_acts (scope : ScopeId) (statement : Statement) :
    (runStatement settings invoke scope statement).Within
      (conduct.acts scope) := by
  intro machine
  obtain ⟨middle, start, ⟨fault, failed⟩ | done | ⟨value, stored⟩⟩ :=
    exists_of_run_runStatement admits scope statement machine
  · rw [failed]
    exact conduct.acts_of_calls start
  · rw [done]
    exact conduct.acts_of_calls start
  · rw [stored]
    exact conduct.acts_trans (conduct.acts_of_calls start)
      (conduct.stores statement scope middle value)

/-- So do the lines of a body, whichever of them are run. -/
theorem runLines_acts
    (scope : ScopeId) (function : Function) (skipped : Nat)
    (lines : List Text) :
    (runLines settings invoke scope function skipped lines).Within
      (conduct.acts scope) := by
  apply acts_of_relates
  apply Correspondence.walkLines
  · exact fun keyword => (conduct.acting scope).relates_throw _
  · exact runStatement_acts admits scope
  · intro source
    apply Correspondence.returnValue
    intro text _
    exact acts_of_within scope (evaluateText_within admits scope text)

/-- So does a call, in the new scope that it is given. -/
theorem enter_acts
    (caller : ScopeId) (function : Function) (arguments : List Text)
    (scope : ScopeId) :
    (enter settings invoke caller function arguments scope).Within
      (conduct.acts scope) := by
  refine .bind conduct.acts_trans ?_ fun _ =>
    runLines_acts admits scope function 0 function.body
  apply acts_of_relates
  apply Correspondence.bindArguments
  · intro source _
    exact acts_of_within scope (evaluateText_within admits caller source)
  · exact fun name value _ machine => conduct.binds scope machine name value

end Statements

/-- Calls of every depth abide by the conduct. -/
theorem admits_invoke
    {settings : Settings} (conduct : Conduct settings.assignment) (room : Nat) :
    conduct.Admits (invoke settings room) := by
  have resolves (view : Machine → Except Fault (Function × ScopeId)) :
      (Action.inspect view).Within conduct.calls :=
    .of_unchanged conduct.refl fun _ => rfl
  have prepares
      (caller : ScopeId) (name : Text) (arguments : List Text)
      {start : Function → ScopeId → Action (Option Value)}
      (starts : ∀ function owner,
        (start function owner).Within conduct.calls) :
      (prepare caller name arguments start).Within conduct.calls :=
    within_of_relates
      (Correspondence.prepare arguments (resolves _) starts)
  induction room with
  | zero =>
      intro caller name arguments
      exact prepares caller name arguments fun _ _ =>
        .of_unchanged conduct.refl fun _ => rfl
  | succ room admits =>
      intro caller name arguments
      refine prepares caller name arguments fun function owner machine => ?_
      exact conduct.returns (enter_acts admits caller function arguments _ _)

end Conduct
end LineScript
