import LineScript.Proofs.Insertion
import LineScript.Proofs.Pairing
import LineScript.Session

/-!
Calls are statically scoped: of the caller a body sees the values of its
arguments and nothing else.

The arguments are evaluated in the scope of the caller while the scope of the
call already exists.  That scope is inserted into the forest the caller knows,
so that the arguments have the values they have without it.  What remains of a
call then depends on those values, the function and the scope it is defined in.
-/

namespace LineScript

namespace Forest.Inserted

variable {position : ScopeId} {extra : Scope} {level : Nat}
    {smaller larger : Forest}

theorem store
    (inserted : Inserted position extra level smaller larger)
    (mode : AssignmentMode) (scope : ScopeId) (value : Value)
    (statement : Statement) :
    Inserted position extra level
      (statement.store mode scope value smaller)
      (statement.store mode (skip position scope) value larger) := by
  cases statement with
  | arrow closure =>
      have defined := inserted.setFunction scope closure.function
      exact defined.setVariable scope closure.name (.closure closure)
  | declare name typeText expression =>
      exact inserted.setVariable scope name value
  | declareBool name expression => exact inserted.setVariable scope name value
  | declareList name elements => exact inserted.setVariable scope name value
  | step name direction =>
      cases mode with
      | shadow => exact inserted.setVariable scope name value
      | enclosing => exact inserted.assignEnclosing scope name value
  | assign name expression =>
      cases mode with
      | shadow => exact inserted.setVariable scope name value
      | enclosing => exact inserted.assignEnclosing scope name value
  | _ => exact inserted

/-- A callee is found in its own scope, the inserted one aside. -/
theorem sameCallee
    (inserted : Inserted position extra level smaller larger) (scope : ScopeId)
    (name : Text) :
    SameCallee (fun here there => there = skip position here)
      (Evaluation.resolveCallee smaller scope name)
      (Evaluation.resolveCallee larger (skip position scope) name) := by
  rw [Evaluation.resolveCallee, Evaluation.resolveCallee,
    inserted.resolveFunction_skip, inserted.resolveVariable_skip]
  rcases smaller.resolveFunction scope name with _ | ⟨function, owner⟩
  · rcases smaller.resolveVariable scope name with _ | ⟨value, owner⟩
    · exact rfl
    · cases value with
      | closure closure => exact ⟨rfl, rfl⟩
      | _ => exact rfl
  · exact ⟨rfl, rfl⟩

end Forest.Inserted

/-- The machines are alike, except that the second one has the scope `extra` at
`position`, below the scopes of at least `level` calls. -/
structure Machine.Beside
    (position : ScopeId) (extra : Scope) (level : Nat)
      (first second : Machine) : Prop where
  forests : Forest.Inserted position extra level first.forest second.forest
  output : second.output = first.output
  depth : second.depth = first.depth

/-- A machine with one more scope is determined by the machine and the scope. -/
theorem Machine.Beside.unique
    {position : ScopeId} {extra : Scope} {level : Nat}
    {first second other : Machine}
    (left : Beside position extra level first second)
    (right : Beside position extra level first other) :
    other = second := by
  have forests := left.forests.unique right.forests
  have output := right.output.trans left.output.symm
  have depth := right.depth.trans left.depth.symm
  cases second
  cases other
  cases forests
  cases output
  cases depth
  rfl

/-- A run beside another one that has one scope more. -/
def Pairing.beside (settings : Settings) (position : ScopeId) (extra : Scope) :
    Pairing settings settings where
  excused _ := False
  scopes here there := there = skip position here
  machines := Machine.Beside position extra
  not_excused _ := id
  commands := rfl
  value together related name := by
    rw [related, together.forests.value?_skip]
  callee together related name := by
    rw [related]
    exact together.forests.sameCallee _ name
  prints together text :=
    ⟨together.forests, congrArg (text :: ·) together.output, together.depth⟩
  stores together related statement value := by
    rw [related]
    exact ⟨together.forests.store _ _ value statement, together.output,
      together.depth⟩
  binds together related name value := by
    rw [related]
    exact ⟨together.forests.setVariable _ name value, together.output,
      together.depth⟩
  enters {_ first second here _} together related := by
    have newest : second.forest.size = skip position first.forest.size := by
      rw [skip_of_le together.forests.position_le, together.forests.size]
    rw [related]
    refine ⟨⟨together.forests.addChild here, together.output, ?_⟩, newest⟩
    exact congrArg (· + 1) together.depth
  leaves together :=
    ⟨together.forests.dropLast, together.output,
      congrArg (· - 1) together.depth⟩

def Machine.calling (machine : Machine) : Machine :=
  { machine with depth := machine.depth + 1 }

namespace Evaluation

/-- Binds values to the parameters, one after the other. -/
def bindValues (scope : ScopeId) : List Parameter → List Value → Action Unit
  | parameter :: parameters, value :: values => do
      let stored ← Action.ofExcept (Conformance.check parameter.tag value)
      Action.modifyForest fun forest =>
        forest.setVariable scope parameter.name stored
      bindValues scope parameters values
  | _, _ => pure ()

variable {settings : Settings} {room : Nat} {caller : ScopeId}
    {bare machine : Machine}
  {extra : Scope}

/-- What an argument comes to does not depend on the scope of the call. -/
theorem evaluateText_beside
    {source : Text} {value : Value}
    (evaluates :
      (evaluateText (invoke settings room) caller source).run bare =
        (.ok value, bare))
    (known : caller < bare.forest.size)
    (together : bare.Beside bare.forest.size extra 0 machine) :
    (evaluateText (invoke settings room) caller source).run machine =
      (.ok value, machine) := by
  have calls :=
    (Pairing.beside settings bare.forest.size extra).invoke_pairs_of_limit
      rfl room
  have sameCaller : caller = skip bare.forest.size caller :=
    (skip_of_lt known).symm
  have pairs :=
    Pairing.evaluateText_pairs calls sameCaller source 0 bare machine together
  rcases pairs with ⟨fault, _, impossible⟩ | ⟨sameResult, stillTogether⟩
  · exact impossible.elim
  · rw [evaluates] at sameResult stillTogether
    exact Prod.ext sameResult.symm (together.unique stillTogether)

/-- Arguments with known values are bound as the values are. -/
theorem run_bindArguments
    (known : caller < bare.forest.size) (parameters : List Parameter)
    {arguments : List Text} {values : List Value}
    (evaluate :
      arguments.map
          (fun source =>
            (evaluateText (invoke settings room) caller source).run bare) =
        values.map fun value => (.ok value, bare))
    (together : bare.Beside bare.forest.size extra 0 machine) :
    (bindArguments (evaluateText (invoke settings room) caller)
        bare.forest.size parameters arguments).run machine =
      (bindValues bare.forest.size parameters values).run machine := by
  induction parameters generalizing arguments values extra machine with
  | nil => rfl
  | cons parameter parameters inductionHypothesis =>
      cases arguments with
      | nil =>
          cases values with
          | nil => rfl
          | cons value values => cases evaluate
      | cons argument arguments =>
          cases values with
          | nil => cases evaluate
          | cons value values =>
              obtain ⟨first, later⟩ := List.cons.inj evaluate
              rw [bindArguments, bindValues, Action.run_bind,
                evaluateText_beside first known together]
              dsimp only
              rw [Action.run_bind, Action.run_bind]
              rcases checked :
                Conformance.check parameter.tag value with fault | stored
              · rfl
              · -- The scope of the call has one binding more, and is still beside the others.
                have bound :
                    bare.Beside bare.forest.size
                      (extra.setVariable parameter.name stored) 0
                      (machine.withForest
                        (machine.forest.setVariable bare.forest.size
                          parameter.name stored)) :=
                  ⟨together.forests.setVariable_extra _ stored, together.output,
                    together.depth⟩
                exact inductionHypothesis later bound

/-- Calls a function that was found in `owner`, with values in place of argument
texts. -/
def callWith
    (settings : Settings) (room : Nat) (name : Text) (function : Function)
    (owner : ScopeId)
    (values : List Value) : Action (Option Value) :=
  if values.length = function.parameters.length then
    match room with
    | 0 => throw (.recursionLimit settings.callLimit)
    | room + 1 =>
        Action.inCall owner fun scope => do
          bindValues scope function.parameters values
          runLines settings
            (invoke settings room) scope function 0 function.body
  else
    throw (.argumentCount name function.parameters.length values.length)

/-- The arguments matter to a call only through their values. -/
theorem run_inCall_enter
    (known : caller < machine.forest.size) (owner : ScopeId)
    (function : Function) {arguments : List Text} {values : List Value}
    (evaluate :
      arguments.map
          (fun source =>
            (evaluateText (invoke settings room) caller source).run
              machine.calling) =
        values.map fun value => (.ok value, machine.calling)) :
    (Action.inCall owner
      (enter settings (invoke settings room) caller function arguments)).run
        machine =
      (Action.inCall owner fun scope => do
        bindValues scope function.parameters values
        runLines settings
          (invoke settings room) scope function 0 function.body).run
            machine := by
  obtain ⟨parent, inserted⟩ :=
    Forest.Inserted.addChild_self machine.forest owner
  have together :
      machine.calling.Beside machine.forest.size (.fresh parent) 0
        (machine.entered owner) :=
    ⟨inserted, rfl, rfl⟩
  have stillKnown : caller < machine.calling.forest.size := known
  have binds :
      (bindArguments (evaluateText (invoke settings room) caller)
          machine.forest.size function.parameters arguments).run
            (machine.entered owner) =
        (bindValues machine.forest.size function.parameters values).run
          (machine.entered owner) :=
    run_bindArguments stillKnown function.parameters evaluate together
  rw [Action.run_inCall, Action.run_inCall, enter, Action.run_bind,
    Action.run_bind, binds]

end Evaluation

/-! ## Sessions -/

namespace Session

def calling (session : Session) : Session :=
  { session with machine := session.machine.calling }

/-- In the scope the texts have these values, and evaluating them does nothing
else. -/
def Evaluates
    (session : Session) (scope : ScopeId) (sources : List Text)
      (values : List Value) : Prop :=
  sources.map (session.evaluate scope) = values.map fun value =>
    (.ok value, session)

theorem Evaluates.run
    {session : Session} {scope : ScopeId} {sources : List Text}
    {values : List Value} (evaluates : session.Evaluates scope sources values) :
    sources.map
        (fun source =>
          (Evaluation.evaluateText session.invoker scope source).run
            session.machine) =
      values.map fun value => (.ok value, session.machine) := by
  have projected := congrArg
    (List.map fun outcome : Except Fault Value × Session => (outcome.1, outcome.2.machine))
    evaluates
  rw [List.map_map, List.map_map] at projected
  exact projected

theorem Evaluates.length_eq
    {session : Session} {scope : ScopeId} {sources : List Text}
    {values : List Value} (evaluates : session.Evaluates scope sources values) :
    sources.length = values.length := by
  have lengths := congrArg List.length evaluates
  rw [List.length_map, List.length_map] at lengths
  exact lengths

theorem room_calling
    {session : Session} {room : Nat} (more : session.room = room + 1) :
    session.calling.room = room := by
  have oneLess : session.calling.room = session.room - 1 := Nat.sub_add_eq ..
  rw [oneLess, more, Nat.add_sub_cancel]

/-- What a call does depends on the function, the scope it is defined in and the
values that the arguments have during the call. -/
theorem invoke_eq_callWith
    {session : Session} {caller : ScopeId}
    (known : caller < session.forest.size)
    {name : Text} {function : Function} {owner : ScopeId}
    (resolves :
      Evaluation.resolveCallee session.forest caller name =
        .ok (function, owner))
    {arguments : List Text} {values : List Value}
    (evaluates : session.calling.Evaluates caller arguments values) :
    session.invoke caller name arguments =
      session.perform
        (Evaluation.callWith session.settings session.room name function owner
          values) := by
  have resolvesHere :
      Evaluation.resolveCallee session.machine.forest caller name =
        .ok (function, owner) :=
    resolves
  have sameRun :
      (session.invoker caller name arguments).run session.machine =
        (Evaluation.callWith session.settings session.room name function owner
          values).run
          session.machine := by
    rw [invoker, Evaluation.callWith.eq_def, ← evaluates.length_eq]
    cases more : session.room with
    | zero =>
        rw [Evaluation.invoke, Evaluation.run_prepare, resolvesHere]
        dsimp only
        split
        · rfl
        · rfl
    | succ room =>
        have evaluate := evaluates.run
        rw [invoker, room_calling more] at evaluate
        rw [Evaluation.invoke, Evaluation.run_prepare, resolvesHere]
        dsimp only
        split
        · exact Evaluation.run_inCall_enter known owner function evaluate
        · rfl
  rw [invoke, perform, sameRun, perform]

/-- A session that allows one call at a time.  Its outermost scope defines `f`,
which gives one, and `g`, which gives its argument `x` back.  Of the two scopes
in it the first one binds an `x` of its own. -/
def shallow : Session :=
  let settings : Settings :=
    { assignment := .shadow
      callLimit := 1
      commands := fun _ _ => { lines := [], failure := none } }
  (start settings).modifyForest fun forest =>
    let outermost := (forest.setFunction 0 giveOne).setFunction 0 giveBack
    ((outermost.addChild 0).addChild 0).setVariable 1 ['x'] (.integer 1)
where
  giveOne : Function :=
    { name := ['f'], parameters := [], returns := .void, body := ["return 1;".toList] }
  giveBack : Function :=
    { name := ['g']
      parameters := [{ name := ['x'], tag := .int64 }]
      returns := .void
      body := ["return x;".toList] }

theorem resolveCallee_shallow :
    Evaluation.resolveCallee shallow.forest 1 ['g'] =
      .ok (shallow.giveBack, 0) ∧
      Evaluation.resolveCallee shallow.forest 2 ['g'] =
        .ok (shallow.giveBack, 0) := by
  constructor
  · with_unfolding_all rfl
  · with_unfolding_all rfl

/-- A call goes the same way from any two scopes from which the name means the
same function, defined in the same scope, as long as the arguments have the same
values where the call evaluates them: while it is already in progress. -/
theorem calls_are_statically_scoped
    (session : Session) {first second : ScopeId}
    (firstExists : first < session.forest.size)
    (secondExists : second < session.forest.size)
    {name : Text} {function : Function} {owner : ScopeId}
    (firstResolves :
      Evaluation.resolveCallee session.forest first name =
        .ok (function, owner))
    (secondResolves :
      Evaluation.resolveCallee session.forest second name =
        .ok (function, owner))
    {arguments otherArguments : List Text} {values : List Value}
    (firstEvaluates : session.calling.Evaluates first arguments values)
    (secondEvaluates : session.calling.Evaluates second otherArguments values) :
    session.invoke first name arguments =
      session.invoke second name otherArguments := by
  rw [invoke_eq_callWith firstExists firstResolves firstEvaluates,
    invoke_eq_callWith secondExists secondResolves secondEvaluates]

/-- Two calls of `g` from different scopes, with arguments of one value, do the
same. -/
theorem calls_are_statically_scoped_of_shallow :
    shallow.calling.Evaluates 1 [['x']] [.integer 1] ∧
      shallow.calling.Evaluates 2 [['1']] [.integer 1] ∧
        shallow.invoke 1 ['g'] [['x']] = shallow.invoke 2 ['g'] [['1']] := by
  have named : shallow.calling.Evaluates 1 [['x']] [.integer 1] := by
    with_unfolding_all rfl
  have written : shallow.calling.Evaluates 2 [['1']] [.integer 1] := by
    with_unfolding_all rfl
  have firstExists : 1 < shallow.forest.size := by decide
  have secondExists : 2 < shallow.forest.size := by decide
  obtain ⟨firstResolves, secondResolves⟩ := resolveCallee_shallow
  exact ⟨named, written,
    shallow.calls_are_statically_scoped firstExists secondExists firstResolves
      secondResolves
      named written⟩

/-- The values of the arguments before the call are not enough: an argument that
makes a call itself has a value there, and exceeds the limit inside the call. -/
theorem values_before_the_call_do_not_suffice :
    ¬ ∀ (session : Session) (first second : ScopeId) (name : Text)
      (function : Function)
        (owner : ScopeId) (arguments otherArguments : List Text)
          (values : List Value),
      first < session.forest.size → second < session.forest.size →
        Evaluation.resolveCallee session.forest first name =
          .ok (function, owner) →
          Evaluation.resolveCallee session.forest second name =
            .ok (function, owner) →
            session.Evaluates first arguments values →
              session.Evaluates second otherArguments values →
                session.invoke first name arguments =
                  session.invoke second name otherArguments := by
  intro claimed
  obtain ⟨firstResolves, secondResolves⟩ := resolveCallee_shallow
  have calledValue : shallow.Evaluates 1 ["f()".toList] [.integer 1] := by
    with_unfolding_all rfl
  have writtenValue : shallow.Evaluates 2 ["1".toList] [.integer 1] := by
    with_unfolding_all rfl
  have same :=
    claimed shallow 1 2 ['g'] shallow.giveBack 0 _ _ _ (by decide) (by decide)
    firstResolves secondResolves calledValue writtenValue
  have refused :
      (shallow.invoke 1 ['g'] ["f()".toList]).1 =
        .error (.recursionLimit 1) := by
    with_unfolding_all rfl
  have given :
      (shallow.invoke 2 ['g'] ["1".toList]).1 = .ok (some (.integer 1)) := by
    with_unfolding_all rfl
  rw [same, given] at refused
  cases refused

end Session
end LineScript
