import LineScript.Proofs.Insertion
import LineScript.Proofs.Trace.Following

/-!
Runs under two modes of assignment, side by side.

Only steps and assignments ask for the mode, and in the outermost scope both
modes write to the same place.  A recorded run under one mode is therefore
mirrored by the run under another mode, as long as no moment of the record
starts a step or an assignment inside a call.
-/

namespace LineScript

open Evaluation

/-- Whether the statement writes where the mode of assignment says. -/
def Statement.assigns : Statement → Bool
  | .step _ _ => true
  | .assign _ _ => true
  | _ => false

/-- Whether the moment starts a step or an assignment while a call is in
progress. -/
def Moment.assignsInCall (moment : Moment) : Bool :=
  match moment.event with
  | .runs _ statement => statement.assigns && decide (0 < moment.machine.depth)
  | _ => false

/-- No moment starts a step or an assignment inside a call. -/
def QuietCalls (moments : List Moment) : Prop :=
  ∀ moment ∈ moments, moment.assignsInCall = false

theorem quietCalls_append {later earlier : List Moment} :
    QuietCalls (later ++ earlier) ↔ QuietCalls later ∧ QuietCalls earlier :=
  List.forall_mem_append

def Settings.underMode (settings : Settings) (mode : AssignmentMode) :
    Settings :=
  { settings with assignment := mode }

/-- Nothing is around the oldest scope. -/
theorem Forest.parent?_zero (forest : Forest) : forest.parent? 0 = none := by
  cases isParent : forest.parent? 0 with
  | none => rfl
  | some parent =>
      exact absurd (lt_of_parent? isParent) (Nat.not_lt_zero parent)

/-- At a root there is no scope around to assign to, so both modes do the
same. -/
theorem Forest.assignEnclosing_of_root
    {forest : Forest} {index : ScopeId} (isRoot : forest.parent? index = none)
    (name : Text) (value : Value) :
    forest.assignEnclosing index name value =
      forest.setVariable index name value := by
  rw [assignEnclosing, resolveVariable, chain_of_root isRoot]
  cases found : forest.localVariable? index name with
  | none => simp [found]
  | some bound => simp [found]

/-- In the oldest scope all modes write to the same place. -/
theorem Statement.store_zero
    (mode other : AssignmentMode) (value : Value) (forest : Forest)
    (statement : Statement) :
    statement.store mode 0 value forest =
      statement.store other 0 value forest := by
  have sameWrite (name : Text) :
      forest.assignEnclosing 0 name value = forest.setVariable 0 name value :=
    Forest.assignEnclosing_of_root forest.parent?_zero name value
  cases statement with
  | step name direction =>
      cases mode <;> cases other <;> simp only [store, sameWrite]
  | assign name expression =>
      cases mode <;> cases other <;> simp only [store, sameWrite]
  | _ => rfl

/-- The mode only matters to statements that assign. -/
theorem Statement.store_of_not_assigns
    {statement : Statement} (stays : ¬ statement.assigns)
    (mode other : AssignmentMode) (scope : ScopeId) (value : Value)
    (forest : Forest) :
    statement.store mode scope value forest =
      statement.store other scope value forest := by
  cases statement with
  | step name direction => exact absurd rfl stays
  | assign name expression => exact absurd rfl stays
  | _ => rfl

/-! ## Mirroring -/

namespace Traced

variable {α β : Type} {least : Nat}

/-- With at least `least` calls in progress the action ends as the computation
does, unless the record that the computation adds starts a step or an assignment
inside a call. -/
def Mirrors (least : Nat) (traced : Traced α) (action : Action α) : Prop :=
  ∀ machine : Machine, least ≤ machine.depth → ∀ past, ∃ added result after,
    traced.run ⟨machine, past⟩ = (result, ⟨after, added ++ past⟩) ∧
      after.depth = machine.depth ∧
      (QuietCalls added → action.run machine = (result, after))

namespace Mirrors

theorem mono
    {traced : Traced α} {action : Action α} (mirrors : Mirrors 0 traced action)
    (least : Nat) :
    Mirrors least traced action :=
  fun machine _ past => mirrors machine (Nat.zero_le _) past

theorem pure (value : α) : Mirrors least (Pure.pure value) (Pure.pure value) :=
  fun machine _ _ => ⟨[], .ok value, machine, rfl, rfl, fun _ => rfl⟩

theorem throw (fault : Fault) :
    Mirrors least (MonadExcept.throw fault : Traced α)
      (MonadExcept.throw fault) :=
  fun machine _ _ => ⟨[], .error fault, machine, rfl, rfl, fun _ => rfl⟩

theorem perform
    {action : Action α}
    (keeps : action.Within fun before after => after.depth = before.depth) :
    Mirrors least (.perform action) action :=
  fun machine _ _ =>
    ⟨[⟨.acts, (action.run machine).2⟩], (action.run machine).1,
      (action.run machine).2, rfl,
      keeps machine, fun _ => rfl⟩

theorem prints {action : Action Unit} (onlyPrints : action.OnlyPrints) :
    Mirrors least (.perform action) action := by
  obtain ⟨result, texts, ran⟩ := onlyPrints
  refine perform fun machine => ?_
  rw [ran, Machine.foldl_printed]

theorem bind
    {traced : Traced α} {action : Action α} {next : α → Traced β}
    {actions : α → Action β} (first : Mirrors least traced action)
    (later : ∀ value, Mirrors least (next value) (actions value)) :
    Mirrors least (traced >>= next) (action >>= actions) := by
  intro machine deep past
  rcases first machine deep past
    with ⟨added, result, middle, recorded, kept, same⟩
  cases result with
  | error fault =>
      refine ⟨added, .error fault, middle, ?_, kept, ?_⟩
      · rw [run_bind, recorded]
      · intro quiet
        rw [Action.run_bind, same quiet]
  | ok value =>
      rcases later value middle (kept ▸ deep) (added ++ past) with
        ⟨addedLater, result, after, recordedLater, keptLater, sameLater⟩
      refine ⟨addedLater ++ added, result, after, ?_, keptLater.trans kept, ?_⟩
      · rw [run_bind, recorded, List.append_assoc]
        exact recordedLater
      · intro quiet
        rw [quietCalls_append] at quiet
        rw [Action.run_bind, same quiet.2]
        exact sameLater quiet.1

theorem tryCatch
    {traced : Traced α} {action : Action α} {handler : Fault → Traced α}
    {handlers : Fault → Action α}
    (first : Mirrors least traced action)
    (later : ∀ fault, Mirrors least (handler fault) (handlers fault)) :
    Mirrors least (MonadExcept.tryCatch traced handler)
      (MonadExcept.tryCatch action handlers) := by
  intro machine deep past
  rcases first machine deep past
    with ⟨added, result, middle, recorded, kept, same⟩
  cases result with
  | ok value =>
      refine ⟨added, .ok value, middle, ?_, kept, ?_⟩
      · rw [run_tryCatch, recorded]
      · intro quiet
        rw [Action.run_tryCatch, same quiet]
  | error fault =>
      rcases later fault middle (kept ▸ deep) (added ++ past) with
        ⟨addedLater, result, after, recordedLater, keptLater, sameLater⟩
      refine ⟨addedLater ++ added, result, after, ?_, keptLater.trans kept, ?_⟩
      · rw [run_tryCatch, recorded, List.append_assoc]
        exact recordedLater
      · intro quiet
        rw [quietCalls_append] at quiet
        rw [Action.run_tryCatch, same quiet.2]
        exact sameLater quiet.1

/-- A moment noted before a computation. -/
theorem noted
    {traced : Traced α} {action : Action α} (event : Event)
    (mirrors : Mirrors least traced action) :
    Mirrors least (do note event; traced) action := by
  intro machine deep past
  rcases mirrors machine deep (⟨event, machine⟩ :: past) with
    ⟨added, result, after, recorded, kept, same⟩
  refine ⟨added ++ [⟨event, machine⟩], result, after, ?_, kept, ?_⟩
  · rw [run_note_bind, List.append_assoc]
    exact recorded
  · intro quiet
    exact same (quietCalls_append.mp quiet).1

/-- A moment noted after a computation that succeeds. -/
theorem noting
    {traced : Traced α} {action : Action α} (event : α → Event)
    (mirrors : Mirrors least traced action) :
    Mirrors least (.noting event traced) action := by
  have whole : Mirrors least (.noting event traced) (action >>= Pure.pure) :=
    mirrors.bind fun value => (pure value).noted (event value)
  rw [bind_pure] at whole
  exact whole

/-- The body of a call runs with one call more in progress. -/
theorem inCall
    {owner : ScopeId} {body : ScopeId → Traced α} {bodies : ScopeId → Action α}
    (mirrors : ∀ scope, Mirrors 1 (body scope) (bodies scope)) :
    Mirrors 0 (Traced.inCall owner body) (Action.inCall owner bodies) := by
  intro machine _ past
  have deep : 1 ≤ (machine.entered owner).depth :=
    Nat.le_add_left 1 machine.depth
  rcases mirrors machine.forest.size (machine.entered owner) deep
      (⟨.acts, machine.entered owner⟩ :: past) with
    ⟨added, result, ending, recorded, kept, same⟩
  have keptOutside : ending.left.depth = machine.depth := congrArg (· - 1) kept
  refine ⟨⟨.acts, ending.left⟩ :: (added ++ [⟨.acts, machine.entered owner⟩]),
    result,
    ending.left, ?_, keptOutside, ?_⟩
  · rw [run_inCall, recorded, List.cons_append, List.append_assoc]
    rfl
  · intro quiet
    have quietBody : QuietCalls added :=
      (quietCalls_append.mp (List.forall_mem_cons.mp quiet).2).1
    rw [Action.run_inCall, same quietBody]

end Mirrors

def mirroring (least : Nat) : Correspondence Traced where
  fits _ := True
  Relates _ := Mirrors least
  fits_plain _ := trivial
  relates_pure _ := .pure _
  relates_throw := .throw
  relates_bind always first later :=
    first.bind fun found => later found (always (fun _ => trivial) found)
  relates_catch first handled := first.tryCatch handled
  relates_ofExcept _ := .perform fun _ => rfl
  relates_prints := .prints

theorem sees_mirroring (least : Nat) (scope : ScopeId) :
    (mirroring least).Sees scope scope where
  string _ := .perform fun _ => rfl
  name _ := .perform fun _ => rfl
  arithmetic _ := .perform fun _ => rfl
  lookup _ := .perform fun _ => rfl

section Interpreter

variable {settings : Settings} {room : Nat}

/-- The records of calls are mirrored by calls under every mode. -/
def CallsMirror (settings : Settings) (room : Nat) : Prop :=
  ∀ mode caller name arguments,
    Mirrors 0 (Traced.invoke settings room caller name arguments)
      (Evaluation.invoke (settings.underMode mode) room caller name arguments)

variable (calls : CallsMirror settings room) (mode : AssignmentMode)
  (least : Nat) (scope : ScopeId)

include calls

theorem evaluateText_mirrors (source : Text) :
    Mirrors least (evaluateText (Traced.invoke settings room) scope source)
      (evaluateText (Evaluation.invoke (settings.underMode mode) room) scope
        source) :=
  (mirroring least).evaluate (sees_mirroring least scope)
    (fun name arguments => (calls mode scope name arguments).mono least)
    (Expression.read source)

/-- What a statement does is mirrored if both modes store to the same place. -/
theorem effect_mirrors
    (statement : Statement)
    (sameStore : ∀ value forest,
      statement.store mode scope value forest =
        statement.store settings.assignment scope value forest) :
    Mirrors least
      (effect (evaluateText (Traced.invoke settings room) scope) settings
        (Traced.invoke settings room scope) scope statement)
      (Evaluation.runStatement (settings.underMode mode)
        (Evaluation.invoke (settings.underMode mode) room) scope
          statement) := by
  refine (mirroring least).effect (sees_mirroring least scope) ?_ ?_
    (fun _ _ => trivial) rfl fun value _ => ?_
  · exact fun source _ => evaluateText_mirrors calls mode least scope source
  · exact fun name arguments _ => (calls mode scope name arguments).mono least
  · show Mirrors least _ (Action.modifyForest fun forest =>
      statement.store mode scope value forest)
    rw [funext (sameStore value)]
    exact .perform fun _ => rfl

/-- In the oldest scope every statement is mirrored. -/
theorem runStatement_mirrors_zero (statement : Statement) :
    Mirrors 0
      (Traced.runStatement settings (Traced.invoke settings room) 0 statement)
      (Evaluation.runStatement (settings.underMode mode)
        (Evaluation.invoke (settings.underMode mode) room) 0 statement) := by
  have effects := effect_mirrors calls mode 0 0 statement fun value forest =>
    statement.store_zero mode settings.assignment value forest
  exact (effects.noting _).noted _

theorem runText_mirrors_zero (source : Text) :
    Mirrors 0
      (Traced.runText settings (Traced.invoke settings room) 0 source)
      (Evaluation.runText (settings.underMode mode)
        (Evaluation.invoke (settings.underMode mode) room) 0 source) :=
  (mirroring 0).readThen (runStatement_mirrors_zero calls mode) source

/-- A step or an assignment inside a call breaks the promise with its first
moment, after which nothing has to be mirrored. -/
theorem runStatement_mirrors_of_assigns
    {statement : Statement} (assigns : statement.assigns) :
    Mirrors 1
      (Traced.runStatement settings (Traced.invoke settings room) scope
        statement)
      (Evaluation.runStatement (settings.underMode mode)
        (Evaluation.invoke (settings.underMode mode) room) scope
          statement) := by
  intro machine deep past
  let start : Moment := ⟨.runs scope statement, machine⟩
  -- Under its own mode the statement is mirrored, which tells what it adds to the record.
  have ownEffect :=
    effect_mirrors calls settings.assignment 1 scope statement fun _ _ => rfl
  rcases ownEffect.noting (fun _ => .ran scope statement) machine deep
    (start :: past) with
    ⟨added, result, after, recorded, kept, _⟩
  refine ⟨added ++ [start], result, after, ?_, kept, ?_⟩
  · rw [Traced.runStatement, run_note_bind, List.append_assoc]
    exact recorded
  · intro quiet
    have notQuiet : start.assignsInCall = true :=
      Bool.and_eq_true_iff.mpr ⟨assigns, decide_eq_true deep⟩
    have isQuiet : start.assignsInCall = false :=
      (quietCalls_append.mp quiet).2 start List.mem_cons_self
    rw [notQuiet] at isQuiet
    cases isQuiet

/-- Inside a call every statement is mirrored. -/
theorem runStatement_mirrors (statement : Statement) :
    Mirrors 1
      (Traced.runStatement settings (Traced.invoke settings room) scope
        statement)
      (Evaluation.runStatement (settings.underMode mode)
        (Evaluation.invoke (settings.underMode mode) room) scope
          statement) := by
  by_cases assigns : statement.assigns
  · exact runStatement_mirrors_of_assigns calls mode scope assigns
  · have effects :=
      effect_mirrors calls mode 1 scope statement
        (Statement.store_of_not_assigns assigns mode settings.assignment scope)
    exact (effects.noting _).noted _

/-- The lines of a body are mirrored as long as none of them assigns. -/
theorem runLines_mirrors
    (function : Function) (skipped : Nat) (lines : List Text) :
    Mirrors 1
      (Traced.runLines settings (Traced.invoke settings room) scope function
        skipped lines)
      (Evaluation.runLines (settings.underMode mode)
        (Evaluation.invoke (settings.underMode mode) room) scope function
          skipped lines) := by
  refine (mirroring 1).walkLines (fun keyword => ?_)
    (runStatement_mirrors calls mode scope) (fun source => ?_) skipped lines
  · exact (mirroring 1).relates_throw _
  · exact (mirroring 1).returnValue function fun text _ =>
      evaluateText_mirrors calls mode 1 scope text

/-- So is a call, from the binding of its arguments on. -/
theorem enter_mirrors
    (function : Function) (caller : ScopeId) (arguments : List Text) :
    Mirrors 1
      (Traced.enter settings (Traced.invoke settings room) scope function caller
        arguments)
      (Evaluation.enter (settings.underMode mode)
        (Evaluation.invoke (settings.underMode mode) room) caller function
          arguments scope) := by
  have runs := runLines_mirrors calls mode scope function 0 function.body
  refine .bind (.noting _ ?_) fun _ => runs.noting _
  refine (mirroring 1).bindArguments function.parameters
    (fun source _ => ?_) fun _ _ _ => .perform fun _ => rfl
  exact evaluateText_mirrors calls mode 1 caller source

end Interpreter

/-- The records of calls are mirrored, by induction on the calls that may still
be nested. -/
theorem invoke_mirrors (settings : Settings) (room : Nat) :
    CallsMirror settings room := by
  induction room with
  | zero =>
      intro mode caller name arguments
      rw [invoke, Evaluation.invoke]
      refine (mirroring 0).prepare arguments (.perform fun _ => rfl)
        fun function owner => ?_
      exact (Mirrors.throw _).noted _
  | succ room calls =>
      intro mode caller name arguments
      rw [invoke, Evaluation.invoke]
      refine (mirroring 0).prepare arguments (.perform fun _ => rfl)
        fun function owner => ?_
      apply Mirrors.noted
      exact .inCall fun scope =>
        enter_mirrors calls mode scope function caller arguments

end Traced
end LineScript
