import LineScript.Proofs.Conduct
import LineScript.Proofs.Trace.Interpreter

/-!
What can stand in a record.

The interpreter that keeps a record does what the interpreter does.  In its
record calls are admitted below a fixed number of calls in progress and refused
at this number, which is never passed, a body is reached with the arguments of
its call bound, and what a body or a statement has done is what evaluation says.
-/

namespace LineScript

open Evaluation

namespace Traced

variable {α β : Type}

private theorem recording_bind_apply
    (traced : StateM Recording α) (next : α → StateM Recording β)
    (recording : Recording) :
    (traced >>= next) recording =
      next (traced recording).1 (traced recording).2 :=
  rfl

theorem run_bind
    (traced : Traced α) (next : α → Traced β) (recording : Recording) :
    (traced >>= next).run recording =
      match traced.run recording with
      | (.ok value, after) => (next value).run after
      | (.error fault, after) => (.error fault, after) := by
  rw [ExceptT.run_bind, recording_bind_apply]
  rcases traced.run recording with ⟨fault | value, after⟩
  · rfl
  · rfl

theorem run_tryCatch
    (traced : Traced α) (handler : Fault → Traced α) (recording : Recording) :
    (tryCatch traced handler : Traced α).run recording =
      match traced.run recording with
      | (.ok value, after) => (.ok value, after)
      | (.error fault, after) => (handler fault).run after := by
  rw [ExceptT.run_tryCatch, recording_bind_apply]
  rcases traced.run recording with ⟨fault | value, after⟩
  · rfl
  · rfl

theorem run_note_bind
    (event : Event) (traced : Traced α) (recording : Recording) :
    (do note event; traced : Traced α).run recording =
      traced.run (recording.noted event) :=
  rfl

/-- Entering and leaving a call are moments of the record. -/
theorem run_inCall
    (owner : ScopeId) (body : ScopeId → Traced α) (machine : Machine)
    (past : List Moment) :
    (inCall owner body).run ⟨machine, past⟩ =
      let ending :=
        (body machine.forest.size).run
          ⟨machine.entered owner, ⟨.acts, machine.entered owner⟩ :: past⟩
      (ending.1,
        Recording.noted ⟨ending.2.machine.left, ending.2.moments⟩ .acts) :=
  rfl

end Traced

/-- The moments of a run in which at most `top` calls are in progress. -/
inductive Moment.Lawful (settings : Settings) (top : Nat) : Moment → Prop
  | acts {machine : Machine} (bounded : machine.depth ≤ top) :
      Lawful settings top ⟨.acts, machine⟩
  | refused {machine : Machine} (function : Function)
      (full : machine.depth = top) :
      Lawful settings top ⟨.refused function, machine⟩
  | admitted {machine : Machine} (function : Function)
      (shallow : machine.depth < top) :
      Lawful settings top ⟨.admitted function, machine⟩
  | starts {room : Nat} {machine bound : Machine} {caller owner : ScopeId}
      {name : Text} {function : Function} {arguments : List Text}
      (bounded : bound.depth ≤ top)
      (resolves :
        resolveCallee machine.forest caller name = .ok (function, owner))
      (matching : arguments.length = function.parameters.length)
      (binds :
        (bindArguments (evaluateText (invoke settings room) caller)
            machine.forest.size function.parameters arguments).run
            (machine.entered owner) =
          (.ok (), bound)) :
      Lawful settings top ⟨.starts function machine.forest.size, bound⟩
  | ends {room : Nat} {machine after : Machine} {scope : ScopeId}
      {function : Function} {result : Option Value}
      (bounded : after.depth ≤ top)
      (returns :
        (runLines settings
          (invoke settings room) scope function 0 function.body).run
          machine =
        (.ok result, after)) :
      Lawful settings top ⟨.ends function result, after⟩
  | runs {machine : Machine} (scope : ScopeId) (statement : Statement)
      (bounded : machine.depth ≤ top) :
      Lawful settings top ⟨.runs scope statement, machine⟩
  | ran {room : Nat} {machine after : Machine} {scope : ScopeId}
      {statement : Statement} (bounded : after.depth ≤ top)
      (succeeds :
        (runStatement settings (invoke settings room) scope statement).run
          machine =
        (.ok (), after)) :
      Lawful settings top ⟨.ran scope statement, after⟩

/-- No moment of a run is deeper than the run may go. -/
theorem Moment.Lawful.depth_le
    {settings : Settings} {top : Nat} {moment : Moment}
    (lawful : moment.Lawful settings top) :
    moment.machine.depth ≤ top := by
  cases lawful with
  | acts bounded => exact bounded
  | refused _ full => exact Nat.le_of_eq full
  | admitted _ shallow => exact Nat.le_of_lt shallow
  | starts bounded => exact bounded
  | ends bounded => exact bounded
  | runs _ _ bounded => exact bounded
  | ran bounded => exact bounded

/-! ## Following -/

namespace Traced

variable {α β : Type} {settings : Settings} {top room : Nat} {machine : Machine}

/-- On this machine the computation ends as the action does, with as many calls
in progress as before, and adds lawful moments to the record. -/
def FollowsAt (settings : Settings) (top : Nat) (machine : Machine)
    (traced : Traced α) (action : Action α) : Prop :=
  (action.run machine).2.depth = machine.depth ∧
    ∀ past, ∃ added : List Moment,
      traced.run ⟨machine, past⟩ =
        ((action.run machine).1, ⟨(action.run machine).2, added ++ past⟩) ∧
      ∀ moment ∈ added, moment.Lawful settings top

/-- The computation follows the action on every machine on which `room` further
calls may be nested. -/
def Follows
    (settings : Settings) (top room : Nat) (traced : Traced α)
    (action : Action α) :
    Prop :=
  ∀ machine : Machine, machine.depth + room = top →
    FollowsAt settings top machine traced action

namespace FollowsAt

theorem pure (value : α) :
    FollowsAt settings top machine (Pure.pure value) (Pure.pure value) :=
  ⟨rfl, fun _ => ⟨[], rfl, List.forall_mem_nil _⟩⟩

theorem throw (fault : Fault) :
    FollowsAt settings top machine (MonadExcept.throw fault : Traced α)
      (MonadExcept.throw fault) :=
  ⟨rfl, fun _ => ⟨[], rfl, List.forall_mem_nil _⟩⟩

theorem perform
    {action : Action α} (keeps : (action.run machine).2.depth = machine.depth)
    (bounded : machine.depth ≤ top) :
    FollowsAt settings top machine (.perform action) action := by
  refine ⟨keeps, fun past => ⟨[⟨.acts, (action.run machine).2⟩], rfl, ?_⟩⟩
  rw [List.forall_mem_singleton]
  exact .acts (keeps ▸ bounded)

theorem depth_eq
    {traced : Traced α} {action : Action α} {result : Except Fault α}
    {after : Machine} (follows : FollowsAt settings top machine traced action)
    (ran : action.run machine = (result, after)) :
    after.depth = machine.depth := by
  have kept := follows.1
  rw [ran] at kept
  exact kept

/-- A computation that is over where the first part of it is. -/
theorem ended
    {traced : Traced α} {action : Action α} {whole : Traced β}
    {wholeAction : Action β}
    {result : Except Fault α} {ending : Except Fault β} {after : Machine}
    (first : FollowsAt settings top machine traced action)
    (ran : action.run machine = (result, after))
    (ends : ∀ past recording, traced.run ⟨machine, past⟩ = (result, recording) →
      whole.run ⟨machine, past⟩ = (ending, recording))
    (endsToo : wholeAction.run machine = (ending, after)) :
    FollowsAt settings top machine whole wholeAction := by
  have kept := first.depth_eq ran
  rcases first with ⟨_, records⟩
  rw [ran] at records
  refine ⟨by rw [endsToo]; exact kept, fun past => ?_⟩
  rcases records past with ⟨added, recorded, lawful⟩
  exact ⟨added, by rw [ends past _ recorded, endsToo], lawful⟩

/-- A computation that goes on where the first part of it is over: what its
second part records stands behind what the first part did. -/
theorem continued
    {traced : Traced α} {action : Action α} {rest whole : Traced β}
    {restAction wholeAction : Action β} {result : Except Fault α}
    {after : Machine} (first : FollowsAt settings top machine traced action)
    (ran : action.run machine = (result, after))
    (later : FollowsAt settings top after rest restAction)
    (goesOn :
      ∀ past recording, traced.run ⟨machine, past⟩ = (result, recording) →
      whole.run ⟨machine, past⟩ = rest.run recording)
    (goesOnToo : wholeAction.run machine = restAction.run after) :
    FollowsAt settings top machine whole wholeAction := by
  have kept := first.depth_eq ran
  rcases first with ⟨_, records⟩
  rcases later with ⟨keptLater, recordsLater⟩
  rw [ran] at records
  refine ⟨by rw [goesOnToo, keptLater, kept], fun past => ?_⟩
  rcases records past with ⟨added, recorded, lawful⟩
  rcases recordsLater
    (added ++ past) with ⟨addedLater, recordedLater, lawfulLater⟩
  refine ⟨addedLater ++ added, ?_,
    List.forall_mem_append.mpr ⟨lawfulLater, lawful⟩⟩
  rw [goesOn past _ recorded, goesOnToo, List.append_assoc]
  exact recordedLater

theorem bind
    {traced : Traced α} {action : Action α} {next : α → Traced β}
    {actions : α → Action β}
    (first : FollowsAt settings top machine traced action)
    (later : ∀ value after, action.run machine = (.ok value, after) →
      FollowsAt settings top after (next value) (actions value)) :
    FollowsAt settings top machine (traced >>= next) (action >>= actions) := by
  rcases ran : action.run machine with ⟨fault | value, after⟩
  · apply first.ended ran
    · intro past recording recorded
      rw [run_bind, recorded]
    · rw [Action.run_bind, ran]
  · apply first.continued ran (later value after ran)
    · intro past recording recorded
      rw [run_bind, recorded]
    · rw [Action.run_bind, ran]

theorem tryCatch
    {traced : Traced α} {action : Action α} {handler : Fault → Traced α}
    {handlers : Fault → Action α}
    (first : FollowsAt settings top machine traced action)
    (later : ∀ fault after, action.run machine = (.error fault, after) →
      FollowsAt settings top after (handler fault) (handlers fault)) :
    FollowsAt settings top machine (MonadExcept.tryCatch traced handler)
      (MonadExcept.tryCatch action handlers) := by
  rcases ran : action.run machine with ⟨fault | value, after⟩
  · apply first.continued ran (later fault after ran)
    · intro past recording recorded
      rw [run_tryCatch, recorded]
    · rw [Action.run_tryCatch, ran]
  · apply first.ended ran
    · intro past recording recorded
      rw [run_tryCatch, recorded]
    · rw [Action.run_tryCatch, ran]

/-- A moment noted before a computation. -/
theorem noted
    {event : Event} {traced : Traced α} {action : Action α}
    (lawful : Moment.Lawful settings top ⟨event, machine⟩)
    (follows : FollowsAt settings top machine traced action) :
    FollowsAt settings top machine (do note event; traced) action := by
  rcases follows with ⟨kept, records⟩
  refine ⟨kept, fun past => ?_⟩
  rcases records (⟨event, machine⟩ :: past) with ⟨added, recorded, lawfulAdded⟩
  refine ⟨added ++ [⟨event, machine⟩], ?_, ?_⟩
  · rw [run_note_bind, List.append_assoc]
    exact recorded
  · exact List.forall_mem_append.mpr
      ⟨lawfulAdded, List.forall_mem_singleton.mpr lawful⟩

/-- A moment noted after a computation that succeeds. -/
theorem noting
    {event : α → Event} {traced : Traced α} {action : Action α}
    (follows : FollowsAt settings top machine traced action)
    (lawful : ∀ value after, action.run machine = (.ok value, after) →
      Moment.Lawful settings top ⟨event value, after⟩) :
    FollowsAt settings top machine (.noting event traced) action := by
  have whole :
      FollowsAt settings top machine (.noting event traced)
        (action >>= Pure.pure) := by
    refine follows.bind fun value after ran => ?_
    exact (pure value).noted (lawful value after ran)
  rw [bind_pure] at whole
  exact whole

end FollowsAt

/-- A call: what its body records stands between the moments of entering and
leaving it. -/
theorem FollowsAt.inCall
    {owner : ScopeId} {body : ScopeId → Traced α} {bodies : ScopeId → Action α}
    (shallow : machine.depth < top)
    (follows : FollowsAt settings top (machine.entered owner) (body machine.forest.size)
      (bodies machine.forest.size)) :
    FollowsAt settings top machine (Traced.inCall owner body)
      (Action.inCall owner bodies) := by
  rcases follows with ⟨kept, records⟩
  have depthLeft :
      ((bodies machine.forest.size).run (machine.entered owner)).2.left.depth =
      machine.depth := congrArg (· - 1) kept
  refine ⟨depthLeft, fun past => ?_⟩
  rcases records
    (⟨.acts, machine.entered owner⟩ :: past) with ⟨added, recorded, lawful⟩
  refine ⟨⟨.acts, ((bodies machine.forest.size).run (machine.entered owner)).2.left⟩ ::
    (added ++ [⟨.acts, machine.entered owner⟩]), ?_, ?_⟩
  · rw [run_inCall, recorded, Action.run_inCall, List.cons_append,
      List.append_assoc]
    rfl
  · refine List.forall_mem_cons.mpr
      ⟨.acts (depthLeft ▸ Nat.le_of_lt shallow), ?_⟩
    exact List.forall_mem_append.mpr
      ⟨lawful, List.forall_mem_singleton.mpr
        (.acts (Nat.succ_le_of_lt shallow))⟩

namespace Follows

theorem pure (value : α) :
    Follows settings top room (Pure.pure value) (Pure.pure value) :=
  fun _ _ => .pure value

theorem throw (fault : Fault) :
    Follows settings top room (MonadExcept.throw fault : Traced α)
      (MonadExcept.throw fault) :=
  fun _ _ => .throw fault

theorem perform
    {action : Action α}
    (keeps : action.Within fun before after => after.depth = before.depth) :
    Follows settings top room (.perform action) action := by
  intro machine together
  exact .perform (keeps machine) (by omega)

theorem prints {action : Action Unit} (onlyPrints : action.OnlyPrints) :
    Follows settings top room (.perform action) action := by
  obtain ⟨result, texts, ran⟩ := onlyPrints
  refine perform fun machine => ?_
  rw [ran, Machine.foldl_printed]

theorem bind
    {traced : Traced α} {action : Action α} {next : α → Traced β}
    {actions : α → Action β} (first : Follows settings top room traced action)
    (later : ∀ value, Follows settings top room (next value) (actions value)) :
    Follows settings top room (traced >>= next) (action >>= actions) := by
  intro machine together
  have followsFirst := first machine together
  refine followsFirst.bind fun value after ran => later value after ?_
  rw [followsFirst.depth_eq ran, together]

theorem tryCatch
    {traced : Traced α} {action : Action α} {handler : Fault → Traced α}
    {handlers : Fault → Action α}
    (first : Follows settings top room traced action)
    (later : ∀ fault, Follows settings top room (handler fault) (handlers fault)) :
    Follows settings top room (MonadExcept.tryCatch traced handler)
      (MonadExcept.tryCatch action handlers) := by
  intro machine together
  have followsFirst := first machine together
  refine followsFirst.tryCatch fun fault after ran => later fault after ?_
  rw [followsFirst.depth_eq ran, together]

end Follows

def following (settings : Settings) (top room : Nat) :
    Correspondence Traced where
  fits _ := True
  Relates _ := Follows settings top room
  fits_plain _ := trivial
  relates_pure _ := .pure _
  relates_throw := .throw
  relates_bind always first later :=
    first.bind fun found => later found (always (fun _ => trivial) found)
  relates_catch first handled := first.tryCatch handled
  relates_ofExcept _ := .perform fun _ => rfl
  relates_prints := .prints

theorem sees_following
    (settings : Settings) (top room : Nat) (scope : ScopeId) :
    (following settings top room).Sees scope scope where
  string _ := .perform fun _ => rfl
  name _ := .perform fun _ => rfl
  arithmetic _ := .perform fun _ => rfl
  lookup _ := .perform fun _ => rfl

section Interpreter

def CallsFollow (settings : Settings) (top room : Nat) : Prop :=
  ∀ caller name arguments,
    Follows settings top room
      (Traced.invoke settings room caller name arguments)
      (Evaluation.invoke settings room caller name arguments)

variable (calls : CallsFollow settings top room) (scope : ScopeId)

include calls

theorem evaluateText_follows (source : Text) :
    Follows settings top room
      (evaluateText (Traced.invoke settings room) scope source)
      (evaluateText (Evaluation.invoke settings room) scope source) :=
  (following settings top room).evaluate
    (sees_following settings top room scope) (calls scope)
    (Expression.read source)

theorem effect_follows (statement : Statement) :
    Follows settings top room
      (effect (evaluateText (Traced.invoke settings room) scope) settings
        (Traced.invoke settings room scope) scope statement)
      (Evaluation.runStatement settings (Evaluation.invoke settings room) scope
        statement) := by
  refine (following settings top room).effect
    (sees_following settings top room scope) ?_ ?_ (fun _ _ => trivial) rfl ?_
  · exact fun source _ => evaluateText_follows calls scope source
  · exact fun name arguments _ => calls scope name arguments
  · exact fun _ _ => .perform fun _ => rfl

/-- The record of a statement follows it, and notes when it starts and when it
has succeeded. -/
theorem runStatement_follows (statement : Statement) :
    Follows settings top room
      (Traced.runStatement settings (Traced.invoke settings room) scope
        statement)
      (Evaluation.runStatement settings (Evaluation.invoke settings room) scope
        statement) := by
  intro machine together
  have follows := effect_follows calls scope statement machine together
  apply FollowsAt.noted (.runs scope statement (by omega))
  apply follows.noting
  intro value after ran
  have kept := follows.depth_eq ran
  exact .ran (by omega) ran

theorem runText_follows (source : Text) :
    Follows settings top room
      (Traced.runText settings (Traced.invoke settings room) scope source)
      (Evaluation.runText settings (Evaluation.invoke settings room) scope
        source) :=
  (following settings top room).readThen (runStatement_follows calls scope)
    source

/-- The record of the lines of a body follows them. -/
theorem runLines_follows
    (function : Function) (skipped : Nat) (lines : List Text) :
    Follows settings top room
      (Traced.runLines settings (Traced.invoke settings room) scope function
        skipped lines)
      (Evaluation.runLines settings (Evaluation.invoke settings room) scope
        function skipped lines) := by
  refine (following settings top room).walkLines (fun keyword => ?_)
    (runStatement_follows calls scope) (fun source => ?_) skipped lines
  · exact (following settings top room).relates_throw _
  · exact (following settings top room).returnValue function fun text _ =>
      evaluateText_follows calls scope text

theorem bindArguments_follows
    (caller : ScopeId) (parameters : List Parameter) (arguments : List Text) :
    Follows settings top room
      (bindArguments (evaluateText (Traced.invoke settings room) caller) scope
        parameters arguments)
      (bindArguments (evaluateText (Evaluation.invoke settings room) caller)
        scope parameters arguments) := by
  refine (following settings top room).bindArguments parameters
    (fun source _ => ?_) fun _ _ _ => .perform fun _ => rfl
  exact evaluateText_follows calls caller source

/-- The body of a call is reached with what binding the arguments left. -/
theorem enter_followsAt
    {machine : Machine} {caller owner : ScopeId} {name : Text}
    {function : Function}
    {arguments : List Text} (together : machine.depth + 1 + room = top)
    (resolves : resolveCallee machine.forest caller name = .ok (function, owner))
    (matching : arguments.length = function.parameters.length) :
    FollowsAt settings top (machine.entered owner)
      (enter settings
        (invoke settings room) machine.forest.size function caller arguments)
      (Evaluation.enter settings
        (Evaluation.invoke settings room) caller function arguments
        machine.forest.size) := by
  have binds :=
    bindArguments_follows calls machine.forest.size caller function.parameters
    arguments (machine.entered owner) together
  have bindsAndNotes : FollowsAt settings top (machine.entered owner)
      (.noting (fun _ => .starts function machine.forest.size)
        (bindArguments (evaluateText (Traced.invoke settings room) caller)
          machine.forest.size function.parameters arguments))
      (bindArguments (evaluateText (Evaluation.invoke settings room) caller)
        machine.forest.size function.parameters arguments) := by
    apply binds.noting
    intro value bound ran
    have kept : bound.depth = machine.depth + 1 := binds.depth_eq ran
    exact .starts (by omega) resolves matching ran
  refine bindsAndNotes.bind fun value bound ran => ?_
  have atLevel : bound.depth + room = top := by
    rw [show bound.depth = machine.depth + 1 from binds.depth_eq ran, together]
  have follows :=
    runLines_follows calls machine.forest.size function 0 function.body bound
      atLevel
  apply follows.noting
  intro result after returns
  have kept := follows.depth_eq returns
  exact .ends (by omega) returns

omit calls in
/-- The record of a call follows it once the rest of the call does for its
callee. -/
theorem prepare_followsAt
    {machine : Machine} {caller : ScopeId} {name : Text} {arguments : List Text}
    {start : Function → ScopeId → Traced (Option Value)}
    {starts : Function → ScopeId → Action (Option Value)}
    (bounded : machine.depth ≤ top)
    (follows : ∀ function owner,
      resolveCallee machine.forest caller name = .ok (function, owner) →
      arguments.length = function.parameters.length →
      FollowsAt settings top machine (start function owner)
        (starts function owner)) :
    FollowsAt settings top machine (prepare caller name arguments start)
      (Evaluation.prepare caller name arguments starts) := by
  have resolving : FollowsAt settings top machine
      (.perform
        (.inspect fun machine => resolveCallee machine.forest caller name))
      (.inspect fun machine => resolveCallee machine.forest caller name) :=
    .perform rfl bounded
  refine resolving.bind fun found after ran => ?_
  rcases found with ⟨function, owner⟩
  have resolves :
      resolveCallee machine.forest caller name = .ok (function, owner) :=
    congrArg Prod.fst ran
  have unchanged : machine = after := congrArg Prod.snd ran
  rw [← unchanged]
  by_cases matching : arguments.length = function.parameters.length
  · simpa only [if_pos matching] using follows function owner resolves matching
  · simpa only [if_neg matching] using FollowsAt.throw _

end Interpreter

/-- The interpreter that keeps a record does what the interpreter does. -/
theorem invoke_follows (settings : Settings) (top room : Nat) :
    CallsFollow settings top room := by
  induction room with
  | zero =>
      intro caller name arguments machine together
      rw [invoke, Evaluation.invoke]
      apply prepare_followsAt (Nat.le_of_eq together)
      intro function owner _ _
      exact (FollowsAt.throw _).noted (.refused function together)
  | succ room calls =>
      intro caller name arguments machine together
      have shallow : machine.depth < top := by omega
      rw [invoke, Evaluation.invoke]
      apply prepare_followsAt (Nat.le_of_lt shallow)
      intro function owner resolves matching
      apply FollowsAt.noted (.admitted function shallow)
      exact .inCall shallow (enter_followsAt calls (by omega) resolves matching)

end Traced
end LineScript
