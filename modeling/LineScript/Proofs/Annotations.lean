import Mathlib.Control.Monad.Basic
import LineScript.Proofs.Shadow
import LineScript.Proofs.StaticScope
import LineScript.Proofs.Trace.Record

/-!
Type annotations.

A value that passes the check of an annotation is of the type that it names.  So
the parameters of a call are bound to such values when its body is reached, a
function with a return type returns nothing else, and a declaration binds its
variable to such a value.
-/

namespace LineScript

open Evaluation

/-- The value is of the type that an annotation names. -/
inductive Value.Conforms : TypeTag → Value → Prop
  | string (text : Text) : Conforms .string (.string text)
  | char (character : Char) : Conforms .char (.char character)
  | int32 {number : Int64} (low : -2147483648 ≤ number.toInt)
      (high : number.toInt ≤ 2147483647) :
      Conforms .int32 (.integer number)
  | int64 (number : Int64) : Conforms .int64 (.integer number)
  | float32 (number : Float32) : Conforms .float32 (.float32 number)
  | float64 (number : Float) : Conforms .float64 (.float64 number)

namespace Conformance

variable {tag : TypeTag} {low high : Int} {value stored : Value}

theorem exists_of_bounded
    {number : Int} (checked : bounded tag low high number = .ok stored) :
    low ≤ number ∧ number ≤ high ∧ stored = .integer (Int64.ofInt number) := by
  rw [bounded] at checked
  by_cases inRange : low ≤ number ∧ number ≤ high
  · rw [if_pos inRange] at checked
    cases checked
    exact ⟨inRange.1, inRange.2, rfl⟩
  · rw [if_neg inRange] at checked
    cases checked

theorem exists_of_asInteger
    (checked : asInteger tag low high value = .ok stored) :
    ∃ number, low ≤ number ∧ number ≤ high ∧
      stored = .integer (Int64.ofInt number) := by
  have fromDouble :
      ∀ double, asInteger.fromDouble tag low high value double = .ok stored →
      ∃ number, low ≤ number ∧ number ≤ high ∧
        stored = .integer (Int64.ofInt number) := by
    intro double isStored
    rw [asInteger.fromDouble] at isStored
    cases integral : integral? double with
    | none =>
        rw [integral] at isStored
        cases isStored
    | some number =>
        rw [integral] at isStored
        exact ⟨number, exists_of_bounded isStored⟩
  cases value with
  | integer number => exact ⟨number.toInt, exists_of_bounded checked⟩
  | float32 number => exact fromDouble _ checked
  | float64 number => exact fromDouble _ checked
  | _ => cases checked

/-- What passes a check is stored as a value of the type. -/
theorem conforms_of_check (checked : check tag value = .ok stored) :
    stored.Conforms tag := by
  cases tag with
  | string =>
      cases value with
      | string text =>
          cases checked
          exact .string text
      | _ => cases checked
  | char =>
      rw [check] at checked
      rcases value with _ | _ | _ | _ | character | text | _ | _
      case char =>
          cases checked
          exact .char character
      case string =>
          rcases text with _ | ⟨character, _ | ⟨next, later⟩⟩
          · cases checked
          · cases checked
            exact .char character
          · cases checked
      all_goals cases checked
  | int32 =>
      rcases exists_of_asInteger checked with ⟨number, low, high, rfl⟩
      rw [int32Min] at low
      rw [int32Max] at high
      have same : (Int64.ofInt number).toInt = number :=
        Int64.toInt_ofInt_of_le (by omega) (by omega)
      refine .int32 ?_ ?_
      · rw [same]
        omega
      · rw [same]
        omega
  | int64 =>
      rcases exists_of_asInteger checked with ⟨number, _, _, rfl⟩
      exact .int64 _
  | float32 =>
      rw [check] at checked
      cases isNumber : value.number? with
      | none =>
          rw [isNumber] at checked
          cases checked
      | some number =>
          rw [isNumber] at checked
          cases checked
          exact .float32 _
  | float64 =>
      rw [check] at checked
      cases isNumber : value.number? with
      | none =>
          rw [isNumber] at checked
          cases checked
      | some number =>
          rw [isNumber] at checked
          cases checked
          exact .float64 _

end Conformance

/-! ## Parameters -/

/-- Each name of the parameters is bound in the scope, to a value of the type
that its last declaration names. -/
def Scope.BindsParameters (scope : Scope) (parameters : List Parameter) :
    Prop :=
  ∀ before parameter after, parameters = before ++ parameter :: after →
    (∀ later ∈ after, later.name ≠ parameter.name) →
      ∃ value, scope.values.get? parameter.name = some value ∧
        value.Conforms parameter.tag

theorem Scope.BindsParameters.cons
    {scope : Scope} {parameter : Parameter} {parameters : List Parameter}
    (binds : scope.BindsParameters parameters)
    (bound : (∀ later ∈ parameters, later.name ≠ parameter.name) →
      ∃ value, scope.values.get? parameter.name = some value ∧
        value.Conforms parameter.tag) :
    scope.BindsParameters (parameter :: parameters) := by
  intro before other after whole last
  cases before with
  | nil =>
      cases whole
      exact bound last
  | cons first before =>
      cases whole
      exact binds before other after rfl last

namespace Evaluation

variable {settings : Settings} {room : Nat} {caller position : ScopeId}
  {bare machine after : Machine} {extra : Scope}

/-- An argument leaves the scope of the call alone. -/
theorem evaluateText_keeps_extra
    (known : caller < position)
    (together : bare.Beside position extra 0 machine)
    {source : Text} {result : Except Fault Value}
    (ran : (evaluateText (invoke settings room) caller source).run machine = (result, after)) :
    ∃ bareAfter : Machine, bareAfter.Beside position extra 0 after := by
  have calls :=
    (Pairing.beside settings position extra).invoke_pairs_of_limit rfl room
  have sameCaller : caller = skip position caller := (skip_of_lt known).symm
  rcases Pairing.evaluateText_pairs calls sameCaller source 0 bare machine
    together with
    ⟨fault, _, impossible⟩ | ⟨_, stillTogether⟩
  · exact impossible.elim
  · rw [ran] at stillTogether
    exact ⟨_, stillTogether⟩

/-- Arguments are bound one after the other, a later one over an earlier one of
its name. -/
theorem bindArguments_binds
    (known : caller < position)
    (together : bare.Beside position extra 0 machine)
    {parameters : List Parameter} {arguments : List Text}
    (matching : arguments.length = parameters.length)
    (ran : (bindArguments (evaluateText (invoke settings room) caller)
        position parameters arguments).run machine =
      (.ok (), after)) :
    ∃ (bareAfter : Machine) (bound : Scope),
      bareAfter.Beside position bound 0 after ∧
      (∀ name, (∀ parameter ∈ parameters, parameter.name ≠ name) →
        bound.values.get? name = extra.values.get? name) ∧
      bound.BindsParameters parameters := by
  induction parameters generalizing arguments bare machine extra with
  | nil =>
      rw [List.eq_nil_of_length_eq_zero matching] at ran
      cases ran
      refine ⟨bare, extra, together, fun _ _ => rfl, ?_⟩
      intro before parameter later whole
      cases before <;> cases whole
  | cons parameter parameters inductionHypothesis =>
      cases arguments with
      | nil => cases matching
      | cons argument arguments =>
          rw [bindArguments] at ran
          rcases Action.exists_of_run_bind ran
            with ⟨value, evaluated, ranValue, ran⟩
          rcases Action.exists_of_run_bind ran
            with ⟨stored, checked, ranCheck, ran⟩
          rcases Action.exists_of_run_bind ran with ⟨_, written, ranWrite, ran⟩
          have isStored : Conformance.check parameter.tag value = .ok stored :=
            congrArg Prod.fst ranCheck
          cases congrArg Prod.snd ranCheck
          cases congrArg Prod.snd ranWrite
          rcases evaluateText_keeps_extra known together ranValue
            with ⟨bareAfter, stillTogether⟩
          have bound :
              bareAfter.Beside position
                (extra.setVariable parameter.name stored) 0
              (evaluated.withForest
                (evaluated.forest.setVariable position parameter.name
                  stored)) :=
            ⟨stillTogether.forests.setVariable_extra _ stored,
              stillTogether.output,
              stillTogether.depth⟩
          rcases inductionHypothesis bound (Nat.succ.inj matching) ran with
            ⟨ending, scope, togetherAfter, untouched, binds⟩
          refine ⟨ending, scope, togetherAfter, ?_, binds.cons ?_⟩
          · intro name others
            rcases List.forall_mem_cons.mp others with ⟨other, laterOthers⟩
            rw [untouched name laterOthers]
            exact Table.get?_set_of_ne _ _ (Ne.symm other)
          · intro last
            refine ⟨stored, ?_, Conformance.conforms_of_check isStored⟩
            rw [untouched parameter.name last]
            exact Table.get?_set_self _ _ _

/-- A scope from which a callee is found exists. -/
theorem lt_size_of_resolveCallee
    {forest : Forest} {name : Text} {function : Function} {owner : ScopeId}
    (resolves : resolveCallee forest caller name = .ok (function, owner)) :
    caller < forest.size := by
  rcases Nat.lt_or_ge caller forest.size with known | beyond
  · exact known
  · have missing := Forest.scope?_eq_none beyond
    have isRoot : forest.parent? caller = none := by
      rw [Forest.parent?, missing]
      rfl
    have noFunction : forest.resolveFunction caller name = none := by
      rw [Forest.resolveFunction, Forest.chain_of_root isRoot,
        List.findSome?_singleton, Forest.localFunction?, missing]
      rfl
    have noVariable : forest.resolveVariable caller name = none := by
      rw [Forest.resolveVariable, Forest.chain_of_root isRoot,
        List.findSome?_singleton, Forest.localVariable?, missing]
      rfl
    rw [resolveCallee, noFunction, noVariable] at resolves
    cases resolves

/-- When the body of a call is reached, its parameters are bound. -/
theorem exists_scope_of_bindArguments
    {name : Text} {function : Function} {owner : ScopeId}
    {arguments : List Text}
    (resolves : resolveCallee machine.forest caller name = .ok (function, owner))
    (matching : arguments.length = function.parameters.length)
    (ran : (bindArguments (evaluateText (invoke settings room) caller)
        machine.forest.size function.parameters arguments).run
          (machine.entered owner) =
      (.ok (), after)) :
    ∃ scope, after.forest.scope? machine.forest.size = some scope ∧
      scope.BindsParameters function.parameters := by
  rcases Forest.Inserted.addChild_self machine.forest owner
    with ⟨parent, inserted⟩
  have together :
      machine.calling.Beside machine.forest.size (.fresh parent) 0
        (machine.entered owner) :=
    ⟨inserted, rfl, rfl⟩
  rcases bindArguments_binds
    (lt_size_of_resolveCallee resolves) together matching ran with
    ⟨_, scope, togetherAfter, _, binds⟩
  exact ⟨scope, togetherAfter.forests.inserted, binds⟩

/-- A `return` of a function with a return type gives a value of that type. -/
theorem conforms_of_returnValue
    {evaluate : Text → Action Value} {function : Function}
    {source : Option Text} {value : Value} {tag : TypeTag}
    (typed : function.returns = .value tag)
    (ran : (returnValue evaluate function source).run machine =
      (.ok (some value), after)) :
    value.Conforms tag := by
  cases source with
  | none =>
      rw [returnValue, typed] at ran
      cases ran
  | some expression =>
      rw [returnValue] at ran
      rcases Action.exists_of_run_bind ran with ⟨found, evaluated, _, ran⟩
      rw [typed] at ran
      rcases Action.exists_of_run_bind ran with ⟨stored, checked, ranCheck, ran⟩
      cases ran
      exact Conformance.conforms_of_check (congrArg Prod.fst ranCheck)

/-- A body returns only what fits the return type, wherever its `return`
stands. -/
theorem conforms_of_runLines
    {invoke : Invoker Action} {scope : ScopeId} {function : Function} {skipped : Nat}
    {lines : List Text} {value : Value} {tag : TypeTag}
    (typed : function.returns = .value tag)
    (ran : (runLines settings invoke scope function skipped lines).run machine =
      (.ok (some value), after)) :
    value.Conforms tag := by
  induction lines generalizing skipped machine with
  | nil =>
      rw [runLines, walkLines] at ran
      cases ran
  | cons line later inductionHypothesis =>
      cases skipped with
      | succ skipped => exact inductionHypothesis ran
      | zero =>
          rw [runLines, walkLines] at ran
          rcases Action.exists_of_run_bind ran with ⟨statement, read, _, ran⟩
          cases statement with
          | blockOpen keyword =>
              cases found : Text.blockLength? (line :: later) with
              | none =>
                  simp only [found] at ran
                  cases ran
              | some length =>
                  simp only [found] at ran
                  exact inductionHypothesis ran
          | returns source => exact conforms_of_returnValue typed ran
          | _ =>
              rcases Action.exists_of_run_bind ran with ⟨_, executed, _, ran⟩
              exact inductionHypothesis ran

/-- A call that succeeds has got past the check of its arguments. -/
theorem run_start_of_run_prepare
    {name : Text} {function : Function} {owner : ScopeId}
    {arguments : List Text}
    {start : Function → ScopeId → Action (Option Value)} {result : Option Value}
    (resolves : resolveCallee machine.forest caller name = .ok (function, owner))
    (ran : (prepare caller name arguments start).run machine = (.ok result, after)) :
    (start function owner).run machine = (.ok result, after) := by
  rw [run_prepare, resolves] at ran
  by_cases matching : arguments.length = function.parameters.length
  · simpa only [if_pos matching] using ran
  · simp only [if_neg matching] at ran
    cases ran

/-- What a call returns is of the return type of its callee. -/
theorem conforms_of_invoke
    {name : Text} {function : Function} {owner : ScopeId}
    {arguments : List Text} {value : Value} {tag : TypeTag}
    (resolves : resolveCallee machine.forest caller name = .ok (function, owner))
    (typed : function.returns = .value tag)
    (ran : (invoke settings room caller name arguments).run machine = (.ok (some value), after)) :
    value.Conforms tag := by
  cases room with
  | zero =>
      rw [invoke] at ran
      cases run_start_of_run_prepare resolves ran
  | succ room =>
      rw [invoke] at ran
      have called := run_start_of_run_prepare resolves ran
      rw [Action.run_inCall] at called
      rcases entered :
        (enter settings (invoke settings room) caller function arguments
          machine.forest.size).run (machine.entered owner) with ⟨result, ending⟩
      rw [entered] at called
      cases called
      rcases Action.exists_of_run_bind entered with ⟨_, bound, _, ranBody⟩
      exact conforms_of_runLines typed ranBody

/-- A statement that succeeds has come to its outcome and stored it. -/
theorem exists_of_run_effect
    {evaluate : Text → Action Value} {scope : ScopeId}
    {call : Text → List Text → Action (Option Value)} {statement : Statement}
    (ran : (effect evaluate settings call scope statement).run machine =
      (.ok (), after)) :
    ∃ given middle,
      (outcome evaluate settings.commands call scope statement).run machine =
        (.ok given, middle) ∧
      after = given.elim middle fun value => middle.withForest
        (statement.store settings.assignment scope value middle.forest) := by
  rcases Action.exists_of_run_bind ran with ⟨given, middle, comes, stores⟩
  refine ⟨given, middle, comes, (congrArg Prod.snd stores).symm.trans ?_⟩
  cases given with
  | none => rfl
  | some value => rfl

/-- A declaration that succeeds has bound a value of the type it names. -/
theorem exists_of_declare
    {invoke : Invoker Action} {scope : ScopeId} {name typeText expression : Text}
    (ran : (runStatement settings invoke scope (.declare name typeText expression)).run machine =
      (.ok (), after)) (known : scope < after.forest.size) :
    ∃ tag value, TypeTag.read typeText = .ok tag ∧
      after.forest.localVariable? scope name = some value ∧
        value.Conforms tag := by
  rcases exists_of_run_effect ran with ⟨given, middle, comes, rfl⟩
  rcases Action.exists_of_run_bind comes with ⟨tag, _, ranType, comes⟩
  rcases Action.exists_of_run_bind comes with ⟨value, _, _, comes⟩
  rcases Action.exists_of_run_bind comes with ⟨stored, _, ranCheck, comes⟩
  cases congrArg Prod.fst comes
  have isStored : Conformance.check tag value = .ok stored :=
    congrArg Prod.fst ranCheck
  refine ⟨tag, stored, congrArg Prod.fst ranType, ?_,
    Conformance.conforms_of_check isStored⟩
  have inside : scope < middle.forest.size :=
    Nat.lt_of_lt_of_eq known
      (Forest.size_setVariable middle.forest scope name stored)
  exact Forest.localVariable?_setVariable_self inside name stored

end Evaluation

theorem Statement.size_store
    (mode : AssignmentMode) (scope : ScopeId) (value : Value) (forest : Forest)
    (statement : Statement) :
    (statement.store mode scope value forest).size = forest.size := by
  cases statement with
  | arrow closure => simp [store]
  | declare => simp [store]
  | declareBool => simp [store]
  | declareList => simp [store]
  | step => cases mode <;> simp [store]
  | assign => cases mode <;> simp [store]
  | _ => rfl

/-- Whatever is done, there are as many scopes afterwards as before. -/
def Conduct.keepsSize (mode : AssignmentMode) : Conduct mode where
  calls before after := after.forest.size = before.forest.size
  acts _ before after := after.forest.size = before.forest.size
  refl _ := rfl
  trans start ending := ending.trans start
  acts_of_calls same := same
  acts_trans start ending := ending.trans start
  prints _ _ := rfl
  stores statement scope machine value :=
    statement.size_store mode scope value machine.forest
  binds scope machine name value :=
    Forest.size_setVariable machine.forest scope name value
  returns {machine owner ending} same := by
    have entered :
        (machine.entered owner).forest.size = machine.forest.size + 1 :=
      Forest.size_addChild machine.forest owner
    show ending.forest.dropLast.size = machine.forest.size
    rw [Forest.size_dropLast, same, entered, Nat.add_sub_cancel]

/-! ## Boundaries -/

/-- What the annotations promise at a moment: to a body that is reached, of a
value that a body returns, and of a variable that has been declared. -/
structure Moment.Annotated (moment : Moment) : Prop where
  parameters : ∀ function scope, moment.event = .starts function scope →
    ∀ before parameter after, function.parameters =
      before ++ parameter :: after →
      (∀ later ∈ after, later.name ≠ parameter.name) →
        ∃ value, moment.machine.forest.localVariable? scope parameter.name =
          some value ∧
          value.Conforms parameter.tag
  returned : ∀ function value tag, moment.event = .ends function (some value) →
    function.returns = .value tag → value.Conforms tag
  declared : ∀ scope name typeText expression,
    moment.event = .ran scope (.declare name typeText expression) →
      scope < moment.machine.forest.size →
        ∃ tag value, TypeTag.read typeText = .ok tag ∧
          moment.machine.forest.localVariable? scope name = some value ∧
            value.Conforms tag

/-- The annotations hold at each moment that a run can come to. -/
theorem Moment.Lawful.annotated
    {settings : Settings} {top : Nat} {moment : Moment}
    (lawful : moment.Lawful settings top) :
    moment.Annotated := by
  refine ⟨?_, ?_, ?_⟩
  · rintro function scope isStart before parameter after whole last
    cases lawful with
    | starts _ resolves matching ran =>
        cases isStart
        rcases exists_scope_of_bindArguments resolves matching ran
          with ⟨scope, found, binds⟩
        rw [Forest.localVariable?, found]
        exact binds before parameter after whole last
    | _ => cases isStart
  · rintro function value tag isEnd typed
    cases lawful with
    | ends _ ran =>
        cases isEnd
        exact conforms_of_runLines typed ran
    | _ => cases isEnd
  · rintro scope name typeText expression isDeclaration known
    cases lawful with
    | ran _ ran =>
        cases isDeclaration
        exact exists_of_declare ran known
    | _ => cases isDeclaration

structure Record.Annotated {α : Type} (record : Record α)
    (outcome : Except Fault α × Session) :
    Prop extends record.Recounts outcome where
  moments : ∀ moment ∈ record.moments, moment.Annotated

theorem Record.Tells.annotated
    {α : Type} {record : Record α} {session : Session}
    {outcome : Except Fault α × Session}
    (tells : record.Tells session outcome) : record.Annotated outcome :=
  ⟨tells.toRecounts, fun moment member =>
    (tells.lawful moment member).annotated⟩

def Record.reaches {α : Type} (record : Record α) (function : Function)
    (scope : ScopeId) : Bool :=
  record.moments.any fun moment =>
    match moment.event with
    | .starts reached place => reached == function && place == scope
    | _ => false

theorem Record.exists_of_reaches
    {α : Type} {record : Record α} {function : Function} {scope : ScopeId}
    (reached : record.reaches function scope) :
    ∃ moment ∈ record.moments, moment.event = .starts function scope := by
  rcases List.any_eq_true.mp reached with ⟨⟨event, machine⟩, member, isStart⟩
  refine ⟨⟨event, machine⟩, member, ?_⟩
  cases event with
  | starts other place =>
      rcases Bool.and_eq_true_iff.mp isStart with ⟨sameFunction, samePlace⟩
      rw [beq_iff_eq.mp sameFunction, beq_iff_eq.mp samePlace]
  | _ => cases isStart

/-- Whether a call gives an integer.  Values have no decidable equality, since
floats are among them. -/
def givesInteger (number : Int64) : Except Fault (Option Value) → Bool
  | .ok (some (.integer given)) => given == number
  | _ => false

theorem eq_of_givesInteger
    {number : Int64} {result : Except Fault (Option Value)}
    (gives : givesInteger number result) :
    result = .ok (some (.integer number)) := by
  rcases result with fault | _ | value
  · cases gives
  · cases gives
  · cases value with
    | integer given => rw [eq_of_beq gives]
    | _ => cases gives

namespace Session

/-- Annotations hold at every boundary of everything that a session does,
however deep in calls: the parameters of a call are bound to values of their
types when its body is reached, a function with a return type returns a value of
it, and a variable that was declared with a type is bound to a value of it. -/
theorem annotations_hold_at_every_boundary
    (session : Session) (scope : ScopeId) :
    (∀ source,
      (session.recordEvaluate scope source).Annotated
        (session.evaluate scope source)) ∧
    (∀ source, (session.recordExecute scope source).Annotated
      (session.tryExecute scope source)) ∧
    (∀ name arguments, (session.recordInvoke scope name arguments).Annotated
      (session.invoke scope name arguments)) ∧
    (∀ name arguments function owner tag value,
      resolveCallee session.forest scope name = .ok (function, owner) →
      function.returns = .value tag →
      (session.invoke scope name arguments).1 = .ok (some value) →
        value.Conforms tag) ∧
    ∀ source name typeText expression, scope < session.forest.size →
      Statement.read source = .ok (.declare name typeText expression) →
      (session.tryExecute scope source).1 = .ok () →
        ∃ tag value, TypeTag.read typeText = .ok tag ∧
          (session.tryExecute scope source).2.forest.localVariable? scope name =
            some value ∧
          value.Conforms tag := by
  refine ⟨?_, ?_, ?_, ?_, ?_⟩
  · exact fun source => (session.recordEvaluate_tells scope source).annotated
  · exact fun source => (session.recordExecute_tells scope source).annotated
  · exact fun name arguments =>
      (session.recordInvoke_tells scope name arguments).annotated
  · intro name arguments function owner tag value resolves typed returned
    exact conforms_of_invoke resolves typed (Prod.ext returned rfl)
  · intro source name typeText expression known reads succeeded
    have admits :=
      admits_invoker (Conduct.keepsSize session.settings.assignment)
    have keeps :=
      Conduct.runStatement_acts admits scope (.declare name typeText expression)
      session.machine
    rw [tryExecute_of_read session scope reads, perform] at succeeded ⊢
    rcases ran : (runStatement session.settings session.invoker scope
        (.declare name typeText expression)).run session.machine
          with ⟨result, after⟩
    rw [ran] at succeeded keeps
    cases succeeded
    exact exists_of_declare ran (Nat.lt_of_lt_of_eq known keeps.symm)

/-- A session with a function that has two parameters of one name, declares a
variable and returns the second of the two. -/
def selective : Session :=
  let settings : Settings :=
    { assignment := .enclosing
      callLimit := 2
      commands := fun _ _ => { lines := [], failure := none } }
  (start settings).modifyForest fun forest => forest.setFunction 0 last
where
  last : Function :=
    { name := ['f']
      parameters :=
        [{ name := ['x'], tag := .char },
          { name := ['c'], tag := .char },
          { name := ['x'], tag := .int32 }]
      returns := .value .int32
      body := ["var d: Char = c;".toList, "return x;".toList] }

/-- Calling the function of `selective` binds its second `x` over the first one,
a character, and returns it as an integer. -/
theorem annotations_hold_at_every_boundary_of_selective :
    (∃ moment ∈ (selective.recordInvoke 0 ['f']
          ["'a'".toList, "\"b\"".toList, "7".toList]).moments,
      moment.event = .starts selective.last 1 ∧
        ∃ value, moment.machine.forest.localVariable? 1 ['x'] = some value ∧
          value.Conforms .int32) ∧
    (resolveCallee selective.forest 0 ['f'] = .ok (selective.last, 0) ∧
      selective.last.returns = .value .int32 ∧
      (selective.invoke 0 ['f'] ["'a'".toList, "\"b\"".toList, "7".toList]).1 =
        .ok (some (.integer 7)) ∧
      (Value.integer 7).Conforms .int32) ∧
    0 < selective.forest.size ∧
      Statement.read "var d: Char = \"b\";".toList =
        .ok (.declare ['d'] "Char".toList "\"b\"".toList) ∧
      (selective.tryExecute 0 "var d: Char = \"b\";".toList).1 = .ok () ∧
      ∃ tag value, TypeTag.read "Char".toList = .ok tag ∧
        (selective.tryExecute 0
          "var d: Char = \"b\";".toList).2.forest.localVariable? 0 ['d'] =
          some value ∧
        value.Conforms tag := by
  have resolves :
      resolveCallee selective.forest 0 ['f'] = .ok (selective.last, 0) := by
    with_unfolding_all rfl
  have returned :
      (selective.invoke 0 ['f'] ["'a'".toList, "\"b\"".toList, "7".toList]).1 =
      .ok (some (.integer 7)) :=
    eq_of_givesInteger (by decide +kernel)
  have known : 0 < selective.forest.size := by decide
  have reads : Statement.read "var d: Char = \"b\";".toList =
      .ok (.declare ['d'] "Char".toList "\"b\"".toList) := by
    with_unfolding_all rfl
  have succeeded :
      (selective.tryExecute 0 "var d: Char = \"b\";".toList).1 = .ok () := by
    decide +kernel
  have reached : (selective.recordInvoke 0 ['f']
      ["'a'".toList, "\"b\"".toList, "7".toList]).reaches selective.last 1 := by
    decide +kernel
  rcases selective.annotations_hold_at_every_boundary 0
    with ⟨_, _, invokes, returns, declares⟩
  rcases Record.exists_of_reaches reached with ⟨moment, member, isStart⟩
  have bound := ((invokes _ _).moments moment member).parameters _ _ isStart
    [{ name := ['x'], tag := .char }, { name := ['c'], tag := .char }]
    { name := ['x'], tag := .int32 } [] rfl (List.forall_mem_nil _)
  exact ⟨⟨moment, member, isStart, bound⟩,
    ⟨resolves, rfl, returned, returns _ _ _ _ _ _ resolves rfl returned⟩, known,
      reads,
    succeeded, declares _ _ _ _ known reads succeeded⟩

end Session
end LineScript
