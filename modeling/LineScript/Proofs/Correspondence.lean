import LineScript.Evaluation
import LineScript.Proofs.Action

/-!
The clauses of evaluation, each looked at once.

A `Correspondence` relates computations of some monad to actions on the machine.
It respects results, faults, sequences and everything that only prints.  Every
clause of evaluation then respects it, provided that the parts do which the
clause refers to.  What holds of evaluation step by step is an instance: what it
can do to the machine, two runs side by side, a run and its record, a run and
its fuel.
-/

namespace LineScript

namespace Action

/-- The action prints texts and does nothing else. -/
def OnlyPrints (action : Action Unit) : Prop :=
  ∃ result, ∃ texts : List Text, ∀ machine,
    action.run machine = (result, texts.foldl Machine.printed machine)

theorem onlyPrints_print (text : Text) : (print text).OnlyPrints :=
  ⟨.ok (), [text], fun _ => rfl⟩

end Action

theorem Machine.foldl_printed (machine : Machine) (texts : List Text) :
    texts.foldl printed machine =
      { machine with output := texts.reverse ++ machine.output } := by
  induction texts generalizing machine with
  | nil => rfl
  | cons text later inductionHypothesis =>
      rw [List.foldl_cons, inductionHypothesis, List.reverse_cons,
        List.append_assoc]
      rfl

def Statement.sources : Statement → List Text
  | .write template arguments _ => template :: arguments
  | .system template arguments => template :: arguments
  | .declare _ _ source => [source]
  | .declareBool _ source => [source]
  | .assign _ source => [source]
  | .expression source => [source]
  | _ => []

namespace Conformance

variable {tag : TypeTag} {low high number : Int} {value stored : Value}

theorem kind_of_bounded (fits : bounded tag low high number = .ok stored) :
    stored.kind ≠ .closure := by
  unfold bounded at fits
  split at fits
  · cases fits
    nofun
  · cases fits

theorem kind_of_asInteger (fits : asInteger tag low high value = .ok stored) :
    stored.kind ≠ .closure := by
  unfold asInteger asInteger.fromDouble at fits
  split at fits
  · exact kind_of_bounded fits
  · split at fits
    · exact kind_of_bounded fits
    · cases fits
  · split at fits
    · exact kind_of_bounded fits
    · cases fits
  · cases fits

theorem kind_of_asChar (fits : asChar value = .ok stored) :
    stored.kind ≠ .closure := by
  unfold asChar at fits
  split at fits
  · cases fits
    nofun
  · cases fits
    nofun
  · cases fits
  · cases fits

/-- No function conforms to an annotation. -/
theorem kind_of_check (fits : check tag value = .ok stored) :
    stored.kind ≠ .closure := by
  cases tag with
  | char => exact kind_of_asChar fits
  | int32 => exact kind_of_asInteger fits
  | int64 => exact kind_of_asInteger fits
  | string | float32 | float64 =>
      unfold check at fits
      dsimp only at fits
      split at fits
      · cases fits
        nofun
      · cases fits

end Conformance

namespace Evaluation

theorem kind_of_stepped
    {direction : Step} {value moved : Value}
    (steps : stepped direction value = .ok moved) :
    moved.kind ≠ .closure := by
  intro isClosure
  unfold stepped at steps
  split at steps
  · dsimp only at steps
    split at steps
    · cases steps
      cases isClosure
    · cases steps
  · cases direction <;>
      · cases steps
        cases isClosure
  · cases direction <;>
      · cases steps
        cases isClosure
  · cases steps

theorem run_printLines (lines : List Text) (machine : Machine) :
    (printLines lines).run machine =
      (.ok (), (lines.map (· ++ ['\n'])).foldl Machine.printed machine) := by
  induction lines generalizing machine with
  | nil => rfl
  | cons line later laterPrint =>
      exact laterPrint (machine.printed (line ++ ['\n']))

/-- A command of the host only prints. -/
theorem onlyPrints_runCommand (commands : Commands) (line : Text) :
    (runCommand commands line).OnlyPrints := by
  unfold runCommand
  split
  · exact ⟨_, [], fun _ => rfl⟩
  · next program arguments _ =>
      dsimp only
      let texts := (commands program arguments).lines.map (· ++ ['\n'])
      have prints := run_printLines (commands program arguments).lines
      cases (commands program arguments).failure with
      | none =>
          refine ⟨.ok (), texts, fun machine => ?_⟩
          rw [Action.run_bind, prints]
          rfl
      | some failure =>
          refine ⟨.error (.command line failure), texts, fun machine => ?_⟩
          rw [Action.run_bind, prints]
          rfl

end Evaluation

/-- A relation between computations and actions that clauses respect.  It may
promise something of the results: of a value that it fits, which every value but
a function does. -/
structure Correspondence (m : Type → Type)
    [Monad m] [MonadExceptOf Fault m] [MonadLiftT Action m] where
  fits : Value → Prop
  Relates : {α : Type} → (suits : α → Prop) → m α → Action α → Prop
  fits_plain : ∀ {value : Value}, value.kind ≠ .closure → fits value
  relates_pure : ∀ {α : Type} {suits : α → Prop} {found : α}, suits found →
    Relates suits (pure found) (pure found)
  relates_throw : ∀ {α : Type} {suits : α → Prop} (fault : Fault),
    Relates suits (throw fault) (throw fault)
  /-- A promise is of use only if it is about values. -/
  relates_bind : ∀ {α β : Type} {suits : α → Prop} {suitsNext : β → Prop}
    {first : m α} {action : Action α} {next : α → m β} {actions : α → Action β},
    ((∀ value, fits value) → ∀ found, suits found) →
    Relates suits first action →
    (∀ found, suits found → Relates suitsNext (next found) (actions found)) →
      Relates suitsNext (first >>= next) (action >>= actions)
  relates_catch : ∀ {first : m Unit} {action : Action Unit},
    Relates (fun _ => True) first action →
    (∀ fault, Relates (fun _ => True) (Evaluation.forgive fault)
      (Evaluation.forgive fault)) →
      Relates (fun _ => True) (tryCatch first Evaluation.forgive)
        (tryCatch action Evaluation.forgive)
  relates_ofExcept : ∀ {α : Type} {suits : α → Prop} {result : Except Fault α},
    (∀ found, result = .ok found → suits found) →
      Relates suits (liftM (Action.ofExcept result)) (Action.ofExcept result)
  relates_prints : ∀ {action : Action Unit}, action.OnlyPrints →
    Relates (fun _ => True) (liftM action) action

namespace Correspondence

open Evaluation

variable {m : Type → Type} [Monad m] [MonadExceptOf Fault m]
  [MonadLiftT Action m] (R : Correspondence m)

/-- A call without a value, or with one that fits. -/
def FitsResult (result : Option Value) : Prop :=
  ∀ value ∈ result, R.fits value

/-- Reading a value in the one scope and in the other is related. -/
structure Sees (here there : ScopeId) : Prop where
  string : ∀ template, R.Relates R.fits
    (liftM (Action.inspect fun machine => stringValue machine here template))
    (Action.inspect fun machine => stringValue machine there template)
  name : ∀ name, R.Relates R.fits
    (liftM (Action.inspect fun machine => nameValue machine here name))
    (Action.inspect fun machine => nameValue machine there name)
  arithmetic : ∀ source, R.Relates R.fits
    (liftM (Action.inspect fun machine => arithmeticValue machine here source))
    (Action.inspect fun machine => arithmeticValue machine there source)
  lookup : ∀ name, R.Relates (fun _ => True)
    (liftM (Action.inspect fun machine => machine.lookup here name))
    (Action.inspect fun machine => machine.lookup there name)

variable {R}

section Sequences

variable {α β : Type} {suits : β → Prop} {next : α → m β}
  {actions : α → Action β}

/-- Sequences correspond if the second parts do for every value of the first. -/
theorem bind_any
    {first : m α} {action : Action α}
    (start : R.Relates (fun _ => True) first action)
    (goesOn : ∀ found, R.Relates suits (next found) (actions found)) :
    R.Relates suits (first >>= next) (action >>= actions) :=
  R.relates_bind (fun _ _ => trivial) start fun found _ => goesOn found

/-- Sequences correspond if the second parts do for every value that fits. -/
theorem bind_value
    {first : m Value} {action : Action Value} {next : Value → m β}
    {actions : Value → Action β} (start : R.Relates R.fits first action)
    (goesOn : ∀ value, R.fits value →
      R.Relates suits (next value) (actions value)) :
    R.Relates suits (first >>= next) (action >>= actions) :=
  R.relates_bind id start goesOn

theorem bind_result
    {first : m (Option Value)} {action : Action (Option Value)}
    {next : Option Value → m β} {actions : Option Value → Action β}
    (start : R.Relates R.FitsResult first action)
    (goesOn : ∀ result, R.FitsResult result →
      R.Relates suits (next result) (actions result)) :
    R.Relates suits (first >>= next) (action >>= actions) :=
  R.relates_bind (fun always _ value _ => always value) start goesOn

theorem relates_anyway (result : Except Fault α) :
    R.Relates (fun _ => True) (liftM (Action.ofExcept result))
      (Action.ofExcept result) :=
  R.relates_ofExcept fun _ _ => trivial

/-- What passes a check fits, since an arrow function passes none. -/
theorem relates_check (tag : TypeTag) (value : Value) :
    R.Relates R.fits (liftM (Action.ofExcept (Conformance.check tag value)))
      (Action.ofExcept (Conformance.check tag value)) :=
  R.relates_ofExcept fun _ checked =>
    R.fits_plain (Conformance.kind_of_check checked)

theorem relates_forgive (fault : Fault) :
    R.Relates (fun _ => True) (forgive fault) (Evaluation.forgive fault) := by
  unfold Evaluation.forgive
  by_cases malformed : fault.isMalformed
  · rw [if_pos malformed, if_pos malformed]
    exact R.relates_pure trivial
  · rw [if_neg malformed, if_neg malformed]
    exact R.relates_throw fault

theorem relates_none :
    R.Relates R.FitsResult (pure none) (pure none) :=
  R.relates_pure nofun

theorem relates_some {value : Value} (fits : R.fits value) :
    R.Relates R.FitsResult (pure (some value)) (pure (some value)) := by
  refine R.relates_pure fun found isFound => ?_
  cases isFound
  exact fits

end Sequences

section Expressions

variable {first : m Value} {action : Action Value}

theorem negate (operand : R.Relates R.fits first action) :
    R.Relates R.fits (negate first) (Evaluation.negate action) := by
  refine bind_value operand fun value _ => ?_
  refine bind_any (relates_anyway _) fun truth => ?_
  exact R.relates_pure (R.fits_plain nofun)

theorem choose
    {yes no : m Value} {yesAction noAction : Action Value}
    (condition : R.Relates R.fits first action)
    (ifYes : R.Relates R.fits yes yesAction)
    (ifNo : R.Relates R.fits no noAction) :
    R.Relates R.fits (choose first yes no)
      (Evaluation.choose action yesAction noAction) := by
  refine bind_value condition fun value _ => ?_
  refine bind_any (relates_anyway _) fun truth => ?_
  cases truth with
  | true => exact ifYes
  | false => exact ifNo

theorem callValue
    (name : Text) {call : m (Option Value)} {callAction : Action (Option Value)}
    (called : R.Relates R.FitsResult call callAction) :
    R.Relates R.fits (callValue name call)
      (Evaluation.callValue name callAction) := by
  refine bind_result called fun result fits => ?_
  cases result with
  | none => exact R.relates_throw _
  | some value => exact R.relates_pure (fits value rfl)

/-- Expressions differ by what the names in them mean and what calls do. -/
theorem evaluate
    {invoke : Invoker m} {other : Invoker Action} {here there : ScopeId}
    (sees : R.Sees here there)
    (calls : ∀ name arguments, R.Relates R.FitsResult
      (invoke here name arguments) (other there name arguments))
    (expression : Expression) :
    R.Relates R.fits (evaluate invoke here expression)
      (Evaluation.evaluate other there expression) := by
  induction expression with
  | malformed cause => exact R.relates_throw _
  | string template => exact sees.string template
  | char character => exact R.relates_pure (R.fits_plain nofun)
  | call callee arguments => exact callValue callee (calls callee arguments)
  | name identifier => exact sees.name identifier
  | negation operand operandRelates => exact negate operandRelates
  | conditional condition yes no conditionRelates yesRelates noRelates =>
      exact choose conditionRelates yesRelates noRelates
  | integer number => exact R.relates_pure (R.fits_plain nofun)
  | arithmetic source => exact sees.arithmetic source

end Expressions

section Statements

variable {evaluate : Text → m Value} {other : Text → Action Value}

theorem evaluateAll
    {sources : List Text}
    (evaluates : ∀ source ∈ sources,
      R.Relates R.fits (evaluate source) (other source)) :
    R.Relates (fun _ => True) (evaluateAll evaluate sources)
      (Evaluation.evaluateAll other sources) := by
  induction sources with
  | nil => exact R.relates_pure trivial
  | cons source later laterRelates =>
      obtain ⟨ofFirst, ofLater⟩ := List.forall_mem_cons.mp evaluates
      refine bind_value ofFirst fun value _ => ?_
      exact bind_any (laterRelates ofLater) fun values => R.relates_pure trivial

theorem render
    {template : Text} {arguments : List Text}
    (evaluates : ∀ source ∈ template :: arguments,
      R.Relates R.fits (evaluate source) (other source)) :
    R.Relates (fun _ => True) (render evaluate template arguments)
      (Evaluation.render other template arguments) := by
  obtain ⟨ofTemplate, ofArguments⟩ := List.forall_mem_cons.mp evaluates
  refine bind_value ofTemplate fun value _ => ?_
  by_cases noArguments : arguments.isEmpty
  · rw [if_pos noArguments, if_pos noArguments]
    exact R.relates_pure trivial
  · rw [if_neg noArguments, if_neg noArguments]
    cases value with
    | string text =>
        exact bind_any (evaluateAll ofArguments) fun values =>
          R.relates_pure trivial
    | _ => exact R.relates_throw _

theorem runExpression
    {source : Text} (evaluates : R.Relates R.fits (evaluate source) (other source)) :
    R.Relates (fun _ => True) (runExpression evaluate source)
      (Evaluation.runExpression other source) :=
  R.relates_catch (bind_value evaluates fun _ _ => R.relates_pure trivial)
    relates_forgive

variable {call : Text → List Text → m (Option Value)}
  {otherCall : Text → List Text → Action (Option Value)}
  {here there : ScopeId} {statement : Statement} (sees : R.Sees here there)
  (evaluates : ∀ source ∈ statement.sources,
    R.Relates R.fits (evaluate source) (other source))
  (calls : ∀ name arguments, statement = .call name arguments →
    R.Relates R.FitsResult (call name arguments) (otherCall name arguments))
  (closures : ∀ closure, statement = .arrow closure →
    R.fits (.closure closure))

include sees evaluates calls closures

/-- The outcome of a statement corresponds if its expressions and its call
do. -/
theorem outcome (commands : Commands) :
    R.Relates R.FitsResult (outcome evaluate commands call here statement)
      (Evaluation.outcome other commands otherCall there statement) := by
  cases statement with
  | empty => exact relates_none
  | comment => exact relates_none
  | blockOpen keyword => exact relates_none
  | blockClose => exact relates_none
  | returns value => exact R.relates_throw _
  | write template arguments newline =>
      refine bind_any (render evaluates) fun value => ?_
      refine bind_any (R.relates_prints (Action.onlyPrints_print _)) fun _ => ?_
      exact relates_none
  | system template arguments =>
      refine bind_any (render evaluates) fun value => ?_
      cases value with
      | string line =>
          refine bind_any (R.relates_prints ?_) fun _ => relates_none
          exact onlyPrints_runCommand commands line
      | _ => exact R.relates_throw _
  | arrow closure => exact relates_some (closures closure rfl)
  | declare name typeText expression =>
      refine bind_any (relates_anyway _) fun tag => ?_
      refine bind_value (evaluates _ List.mem_cons_self) fun value _ => ?_
      exact bind_value (relates_check tag value) fun stored => relates_some
  | declareBool name expression =>
      refine bind_value (evaluates _ List.mem_cons_self) fun value _ => ?_
      refine bind_any (relates_anyway _) fun truth => ?_
      exact relates_some (R.fits_plain nofun)
  | declareList name elements => exact relates_some (R.fits_plain nofun)
  | call name arguments =>
      exact bind_result (calls name arguments rfl) fun _ _ => relates_none
  | step name direction =>
      refine bind_any (sees.lookup name) fun value => ?_
      refine bind_value (R.relates_ofExcept fun moved steps => ?_) fun moved =>
        relates_some
      exact R.fits_plain (kind_of_stepped steps)
  | assign name expression =>
      exact bind_value (evaluates _ List.mem_cons_self) fun value =>
        relates_some
  | expression source =>
      refine bind_any (runExpression (evaluates _ List.mem_cons_self)) fun _ => ?_
      exact relates_none

/-- The effect of a statement corresponds if its outcome and the store do. -/
theorem effect
    {settings otherSettings : Settings}
    (sameCommands : settings.commands = otherSettings.commands)
    (stores : ∀ value, R.fits value → R.Relates (fun _ => True)
      (liftM (Action.modifyForest fun forest =>
        statement.store settings.assignment here value forest))
      (Action.modifyForest fun forest =>
        statement.store otherSettings.assignment there value forest)) :
    R.Relates (fun _ => True) (effect evaluate settings call here statement)
      (Evaluation.effect other otherSettings otherCall there statement) := by
  have comes := outcome sees evaluates calls closures settings.commands
  rw [Evaluation.effect, Evaluation.effect, ← sameCommands]
  refine bind_result comes fun stored fits => ?_
  cases stored with
  | none => exact R.relates_pure trivial
  | some value => exact stores value (fits value rfl)

end Statements

section Calls

variable {evaluate : Text → m Value} {other : Text → Action Value}

theorem returnValue
    (function : Function) {source : Option Text}
    (evaluates : ∀ text ∈ source,
      R.Relates R.fits (evaluate text) (other text)) :
    R.Relates R.FitsResult (returnValue evaluate function source)
      (Evaluation.returnValue other function source) := by
  cases source with
  | none =>
      rw [Evaluation.returnValue, Evaluation.returnValue]
      cases function.returns with
      | void => exact relates_none
      | value tag => exact R.relates_throw _
  | some expression =>
      refine bind_value (evaluates expression rfl) fun value fits => ?_
      cases function.returns with
      | void => exact relates_some fits
      | value tag =>
          exact bind_value (relates_check tag value) fun stored => relates_some

/-- Binding arguments corresponds if evaluating and binding each of them
does. -/
theorem bindArguments
    {here there : ScopeId} (parameters : List Parameter) {arguments : List Text}
    (evaluates : ∀ source ∈ arguments,
      R.Relates R.fits (evaluate source) (other source))
    (binds : ∀ name value, R.fits value → R.Relates (fun _ => True)
      (liftM (Action.modifyForest fun forest =>
        forest.setVariable here name value))
      (Action.modifyForest fun forest =>
        forest.setVariable there name value)) :
    R.Relates (fun _ => True)
      (bindArguments evaluate here parameters arguments)
      (Evaluation.bindArguments other there parameters arguments) := by
  induction parameters generalizing arguments with
  | nil =>
      rw [Evaluation.bindArguments, Evaluation.bindArguments]
      · exact R.relates_pure trivial
      · nofun
      · nofun
  | cons parameter parameters laterRelates =>
      cases arguments with
      | nil =>
          rw [Evaluation.bindArguments, Evaluation.bindArguments]
          · exact R.relates_pure trivial
          · nofun
          · nofun
      | cons argument arguments =>
          obtain ⟨ofFirst, ofLater⟩ := List.forall_mem_cons.mp evaluates
          refine bind_value ofFirst fun value _ => ?_
          refine bind_value (relates_check parameter.tag value) fun stored fits =>
            ?_
          exact bind_any (binds parameter.name stored fits) fun _ =>
            laterRelates ofLater

theorem readThen
    {run : Statement → m Unit} {otherRun : Statement → Action Unit}
    (runs : ∀ statement,
      R.Relates (fun _ => True) (run statement) (otherRun statement))
    (source : Text) :
    R.Relates (fun _ => True) (readThen run source)
      (Evaluation.readThen otherRun source) :=
  bind_any (relates_anyway _) runs

/-- Walks over the lines of a body correspond if what is done at each line does.
The induction is on the lines, with the number of skipped ones general. -/
theorem walkLines
    {unclosed : BlockKeyword → m (Option Value)}
    {otherUnclosed : BlockKeyword → Action (Option Value)}
    {run : Statement → m Unit} {otherRun : Statement → Action Unit}
    {answer : Option Text → m (Option Value)}
    {otherAnswer : Option Text → Action (Option Value)}
    (fails : ∀ keyword,
      R.Relates R.FitsResult (unclosed keyword) (otherUnclosed keyword))
    (runs : ∀ statement,
      R.Relates (fun _ => True) (run statement) (otherRun statement))
    (answers : ∀ source,
      R.Relates R.FitsResult (answer source) (otherAnswer source))
    (skipped : Nat) (lines : List Text) :
    R.Relates R.FitsResult (walkLines unclosed run answer skipped lines)
      (Evaluation.walkLines otherUnclosed otherRun otherAnswer skipped
        lines) := by
  induction lines generalizing skipped with
  | nil =>
      rw [Evaluation.walkLines, Evaluation.walkLines]
      exact relates_none
  | cons line later laterRelates =>
      cases skipped with
      | succ skipped => exact laterRelates skipped
      | zero =>
          rw [Evaluation.walkLines, Evaluation.walkLines]
          refine bind_any (relates_anyway _) fun statement => ?_
          cases statement with
          | blockOpen keyword =>
              cases found : Text.blockLength? (line :: later) with
              | none => simpa only [found] using fails keyword
              | some length =>
                  simpa only [found] using laterRelates (length - 1)
          | returns value => exact answers value
          | _ => exact bind_any (runs _) fun _ => laterRelates 0

/-- The start of a call corresponds if the callee is found alike and the rest of
the call corresponds. -/
theorem prepare
    {caller : ScopeId} {name : Text}
    {start : Function → ScopeId → m (Option Value)}
    {otherStart : Function → ScopeId → Action (Option Value)}
    (arguments : List Text)
    (resolves : R.Relates (fun _ => True)
      (liftM (Action.inspect fun machine =>
        resolveCallee machine.forest caller name))
      (Action.inspect fun machine =>
        resolveCallee machine.forest caller name))
    (starts : ∀ function owner, R.Relates R.FitsResult
      (start function owner) (otherStart function owner)) :
    R.Relates R.FitsResult (prepare caller name arguments start)
      (Evaluation.prepare caller name arguments otherStart) := by
  refine bind_any resolves fun found => ?_
  obtain ⟨function, owner⟩ := found
  by_cases matching : arguments.length = function.parameters.length
  · simpa only [if_pos matching] using starts function owner
  · simpa only [if_neg matching] using R.relates_throw _

end Calls

end Correspondence
end LineScript
