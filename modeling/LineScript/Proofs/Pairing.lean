import LineScript.Proofs.Conduct

/-!
Two runs of evaluation side by side.

A `Pairing` relates the machines and the scopes of two runs.  If related scopes
show the same values and the same callees, and printing, stores, and entering
and leaving a call keep machines related, then all of evaluation keeps them
related and gives the same results.  The first run may be excused by a fault,
after which nothing is said about the second one.
-/

namespace LineScript

namespace Action

variable {α β : Type}

/-- On related machines the actions end alike, and on related machines again,
unless the first one ends with an excused fault. -/
def Matches
    (excused : Fault → Prop) (related : Machine → Machine → Prop)
    (left right : Action α) : Prop :=
  ∀ first second, related first second →
    (∃ fault, (left.run first).1 = .error fault ∧ excused fault) ∨
      ((left.run first).1 = (right.run second).1 ∧
        related (left.run first).2 (right.run second).2)

namespace Matches

variable {excused : Fault → Prop} {related : Machine → Machine → Prop}

theorem pure (value : α) :
    Matches excused related (Pure.pure value) (Pure.pure value) :=
  fun _ _ together => .inr ⟨rfl, together⟩

theorem throw (fault : Fault) :
    Matches excused related (MonadExcept.throw fault : Action α)
      (MonadExcept.throw fault) :=
  fun _ _ together => .inr ⟨rfl, together⟩

/-- An excused fault matches everything. -/
theorem throw_excused
    {fault : Fault} (isExcused : excused fault) (right : Action α) :
    Matches excused related (MonadExcept.throw fault) right :=
  fun _ _ _ => .inl ⟨fault, rfl, isExcused⟩

theorem ofExcept (result : Except Fault α) :
    Matches excused related (.ofExcept result) (.ofExcept result) :=
  fun _ _ together => .inr ⟨rfl, together⟩

theorem inspect
    {view other : Machine → Except Fault α}
    (same : ∀ {first second}, related first second → view first = other second) :
    Matches excused related (.inspect view) (.inspect other) :=
  fun _ _ together => .inr ⟨same together, together⟩

theorem modifyForest
    {change other : Forest → Forest}
    (keeps : ∀ {first second}, related first second →
      related (first.withForest (change first.forest))
        (second.withForest (other second.forest))) :
    Matches excused related (.modifyForest change) (.modifyForest other) :=
  fun _ _ together => .inr ⟨rfl, keeps together⟩

theorem prints
    {action : Action Unit} (onlyPrints : action.OnlyPrints)
    (keeps : ∀ {first second}, related first second → ∀ text,
      related (first.printed text) (second.printed text)) :
    Matches excused related action action := by
  obtain ⟨result, texts, ran⟩ := onlyPrints
  intro first second together
  rw [ran, ran]
  refine .inr ⟨rfl, ?_⟩
  clear ran
  induction texts generalizing first second with
  | nil => exact together
  | cons text later laterTogether =>
      exact laterTogether _ _ (keeps together text)

theorem bind
    {left right : Action α} {next other : α → Action β}
    (start : Matches excused related left right)
    (goesOn : ∀ value, Matches excused related (next value) (other value)) :
    Matches excused related (left >>= next) (right >>= other) := by
  intro first second together
  have begun := start first second together
  rw [run_bind, run_bind]
  generalize left.run first = outcome at begun ⊢
  generalize right.run second = counterpart at begun ⊢
  obtain ⟨result, after⟩ := outcome
  obtain ⟨otherResult, otherAfter⟩ := counterpart
  rcases begun with ⟨fault, failed, isExcused⟩ | ⟨same, stillTogether⟩
  · dsimp only at failed
    subst failed
    exact .inl ⟨fault, rfl, isExcused⟩
  · dsimp only at same
    subst same
    cases result with
    | error fault => exact .inr ⟨rfl, stillTogether⟩
    | ok value => exact goesOn value after otherAfter stillTogether

/-- A handler that passes excused faults on keeps the actions matched. -/
theorem tryCatch
    {left right : Action α} {handler other : Fault → Action α}
    (start : Matches excused related left right)
    (passes : ∀ fault, excused fault → handler fault = MonadExcept.throw fault)
    (handles : ∀ fault, Matches excused related (handler fault) (other fault)) :
    Matches excused related
      (MonadExcept.tryCatch left handler)
        (MonadExcept.tryCatch right other) := by
  intro first second together
  have begun := start first second together
  rw [run_tryCatch, run_tryCatch]
  generalize left.run first = outcome at begun ⊢
  generalize right.run second = counterpart at begun ⊢
  obtain ⟨result, after⟩ := outcome
  obtain ⟨otherResult, otherAfter⟩ := counterpart
  rcases begun with ⟨fault, failed, isExcused⟩ | ⟨same, stillTogether⟩
  · dsimp only at failed
    subst failed
    dsimp only
    rw [passes fault isExcused]
    exact .inl ⟨fault, rfl, isExcused⟩
  · dsimp only at same
    subst same
    cases result with
    | error fault => exact handles fault after otherAfter stillTogether
    | ok value => exact .inr ⟨rfl, stillTogether⟩

end Matches
end Action

/-! ## Pairings -/

/-- Two lookups of a callee end alike: with the same fault, or with the same
function in related scopes. -/
def SameCallee (scopes : ScopeId → ScopeId → Prop) :
    (left right : Except Fault (Function × ScopeId)) → Prop
  | .ok (function, owner), .ok (other, place) =>
      function = other ∧ scopes owner place
  | .error fault, .error other => fault = other
  | _, _ => False

/-- How the machines and the scopes of two runs, `level` calls deep, are
related. -/
structure Pairing (left right : Settings) where
  excused : Fault → Prop
  scopes : ScopeId → ScopeId → Prop
  machines : (level : Nat) → Machine → Machine → Prop
  not_excused : ∀ cause, ¬ excused (.malformed cause)
  commands : left.commands = right.commands
  value : ∀ {level first second here there}, machines level first second →
    scopes here there →
      ∀ name, first.forest.value? here name = second.forest.value? there name
  callee : ∀ {level first second here there}, machines level first second →
    scopes here there → ∀ name,
      SameCallee scopes
        (Evaluation.resolveCallee first.forest here name)
        (Evaluation.resolveCallee second.forest there name)
  prints : ∀ {level first second}, machines level first second → ∀ text,
    machines level (first.printed text) (second.printed text)
  stores : ∀ {level first second here there}, machines level first second →
    scopes here there → ∀ (statement : Statement) value,
      machines level
        (first.withForest
          (statement.store left.assignment here value first.forest))
        (second.withForest
          (statement.store right.assignment there value second.forest))
  binds : ∀ {level first second here there}, machines level first second →
    scopes here there → ∀ name value,
      machines level
        (first.withForest (first.forest.setVariable here name value))
        (second.withForest (second.forest.setVariable there name value))
  enters : ∀ {level first second here there}, machines level first second →
    scopes here there →
      machines (level + 1) (first.entered here) (second.entered there) ∧
        scopes first.forest.size second.forest.size
  leaves : ∀ {level first second}, machines (level + 1) first second →
    machines level first.left second.left

namespace Evaluation

def deeper (settings : Settings) (invoke : Invoker Action) : Invoker Action :=
  fun caller name arguments =>
    prepare caller name arguments fun function owner =>
      Action.inCall owner (enter settings invoke caller function arguments)

theorem invoke_succ (settings : Settings) (room : Nat) :
    invoke settings (room + 1) = deeper settings (invoke settings room) :=
  rfl

theorem run_prepare
    (caller : ScopeId) (name : Text) (arguments : List Text)
    (start : Function → ScopeId → Action (Option Value)) (machine : Machine) :
    (prepare caller name arguments start).run machine =
      match resolveCallee machine.forest caller name with
      | .error fault => (.error fault, machine)
      | .ok (function, owner) =>
          if arguments.length = function.parameters.length then
            (start function owner).run machine
          else
            (.error (.argumentCount name function.parameters.length arguments.length),
              machine) := by
  have inspected :
      (liftM (Action.inspect fun machine =>
        resolveCallee machine.forest caller name) : Action _).run machine =
        (resolveCallee machine.forest caller name, machine) :=
    rfl
  rw [prepare, Action.run_bind, inspected]
  rcases resolveCallee machine.forest caller name with fault | ⟨function, owner⟩
  · rfl
  · dsimp only
    split
    · rfl
    · rfl

end Evaluation

namespace Pairing

open Evaluation

variable {left right : Settings} (pairing : Pairing left right)

/-- Actions of the two runs that match at every level. -/
def Pairs {α : Type} (action other : Action α) : Prop :=
  ∀ level, action.Matches pairing.excused (pairing.machines level) other

/-- Meanings of calls that match in related scopes. -/
def PairsCalls (invoke other : Invoker Action) : Prop :=
  ∀ ⦃here there⦄, pairing.scopes here there → ∀ name arguments,
    pairing.Pairs (invoke here name arguments) (other there name arguments)

variable {pairing}

section Views

variable {level : Nat} {first second : Machine} {here there : ScopeId}
  (together : pairing.machines level first second)
    (related : pairing.scopes here there)

include together related

theorem lookup_eq (name : Text) :
    first.lookup here name = second.lookup there name := by
  unfold Machine.lookup
  rw [pairing.value together related]

theorem nameValue_eq (name : Text) :
    nameValue first here name = nameValue second there name := by
  unfold nameValue
  rw [pairing.value together related]

theorem stringValue_eq (template : Text) :
    stringValue first here template = stringValue second there template := by
  have sameValues :
      (fun name => (first.forest.value? here name).map Value.text) =
        fun name => (second.forest.value? there name).map Value.text := by
    funext name
    rw [pairing.value together related]
  unfold stringValue interpolate
  rw [sameValues]

theorem arithmeticValue_eq (source : Text) :
    arithmeticValue first here source = arithmeticValue second there source := by
  have sameNumbers : first.lookupNumber here = second.lookupNumber there := by
    funext name
    unfold Machine.lookupNumber
    rw [lookup_eq together related]
  unfold arithmeticValue
  rw [sameNumbers]

end Views

variable (pairing) in
def matching : Correspondence Action where
  fits _ := True
  Relates _ := pairing.Pairs
  fits_plain _ := trivial
  relates_pure _ _ := .pure _
  relates_throw fault _ := .throw fault
  relates_bind always start goesOn level :=
    (start level).bind fun found =>
      goesOn found (always (fun _ => trivial) found) level
  relates_catch start handled level := by
    refine (start level).tryCatch (fun fault isExcused => ?_) fun fault =>
      handled fault level
    -- Only malformed texts are passed over, and they are never excused.
    have wellWritten : fault.isMalformed = false := by
      cases fault with
      | malformed cause => exact absurd isExcused (pairing.not_excused cause)
      | _ => rfl
    simp [forgive, wellWritten]
  relates_ofExcept _ _ := .ofExcept _
  relates_prints onlyPrints _ := .prints onlyPrints pairing.prints

theorem sees {here there : ScopeId} (related : pairing.scopes here there) :
    pairing.matching.Sees here there where
  string template _ := .inspect fun together =>
    stringValue_eq together related template
  name name _ := .inspect fun together => nameValue_eq together related name
  arithmetic source _ := .inspect fun together =>
    arithmeticValue_eq together related source
  lookup name _ := .inspect fun together => lookup_eq together related name

section Scopes

variable {invoke other : Invoker Action} {here there : ScopeId}
  (calls : pairing.PairsCalls invoke other)
  (related : pairing.scopes here there)

include calls related

/-- Expressions match in related scopes. -/
theorem evaluateText_pairs (source : Text) :
    pairing.Pairs (evaluateText invoke here source)
      (evaluateText other there source) :=
  pairing.matching.evaluate (sees related) (calls related)
    (Expression.read source)

theorem runStatement_pairs (statement : Statement) :
    pairing.Pairs
      (runStatement left invoke here statement)
        (runStatement right other there statement) := by
  refine pairing.matching.effect (sees related) ?_ ?_ (fun _ _ => trivial)
    pairing.commands ?_
  · exact fun source _ => evaluateText_pairs calls related source
  · exact fun name arguments _ => calls related name arguments
  · exact fun value _ level => .modifyForest fun together =>
      pairing.stores together related statement value

theorem runText_pairs (source : Text) :
    pairing.Pairs (runText left invoke here source)
      (runText right other there source) :=
  pairing.matching.readThen (runStatement_pairs calls related) source

theorem runLines_pairs
    (function : Function) (skipped : Nat) (lines : List Text) :
    pairing.Pairs
      (runLines left invoke here function skipped lines)
      (runLines right other there function skipped lines) := by
  refine pairing.matching.walkLines (fun keyword => ?_)
    (runStatement_pairs calls related) (fun source => ?_) skipped lines
  · exact pairing.matching.relates_throw _
  · exact pairing.matching.returnValue function fun text _ =>
      evaluateText_pairs calls related text

end Scopes

section Calls

variable {invoke other : Invoker Action} {caller otherCaller : ScopeId}

/-- Calls match from the binding of their arguments on. -/
theorem enter_pairs
    (calls : pairing.PairsCalls invoke other)
    (callers : pairing.scopes caller otherCaller)
    {here there : ScopeId} (related : pairing.scopes here there)
    (function : Function) (arguments : List Text) :
    pairing.Pairs
      (enter left invoke caller function arguments here)
      (enter right other otherCaller function arguments there) := by
  intro level
  refine .bind ?_ fun _ =>
    runLines_pairs calls related function 0 function.body level
  refine pairing.matching.bindArguments function.parameters
    (fun source _ => ?_) (fun name value _ level => ?_) level
  · exact evaluateText_pairs calls callers source
  · exact .modifyForest fun together => pairing.binds together related name value

/-- The new scopes of two calls are related as long as their owners are. -/
theorem inCall_pairs
    {α : Type} {owner place : ScopeId} {body otherBody : ScopeId → Action α}
    (owners : pairing.scopes owner place)
    (bodies : ∀ {here there}, pairing.scopes here there →
      pairing.Pairs (body here) (otherBody there)) :
    pairing.Pairs (.inCall owner body) (.inCall place otherBody) := by
  intro level first second together
  obtain ⟨entered, related⟩ := pairing.enters together owners
  rw [Action.run_inCall, Action.run_inCall]
  rcases bodies related
    (level + 1) _ _ entered with excusedFault | ⟨same, stillTogether⟩
  · exact .inl excusedFault
  · exact .inr ⟨same, pairing.leaves stillTogether⟩

/-- Matching calls find the same callee, in related scopes. -/
theorem prepare_pairs
    {start otherStart : Function → ScopeId → Action (Option Value)}
    (callers : pairing.scopes caller otherCaller) (name : Text)
    (arguments : List Text)
    (starts : ∀ function {owner place}, pairing.scopes owner place →
      pairing.Pairs (start function owner) (otherStart function place)) :
    pairing.Pairs
      (prepare caller name arguments start)
        (prepare otherCaller name arguments otherStart) := by
  intro level first second together
  have found := pairing.callee together callers name
  rw [run_prepare, run_prepare]
  generalize resolveCallee first.forest caller name = callee at found ⊢
  generalize resolveCallee second.forest otherCaller name =
    counterpart at found ⊢
  rcases callee with fault | ⟨function, owner⟩ <;>
    rcases counterpart with otherFault | ⟨otherFunction, place⟩
  · cases found
    exact .inr ⟨rfl, together⟩
  · exact found.elim
  · exact found.elim
  · obtain ⟨rfl, owners⟩ := found
    dsimp only
    split
    · exact starts function owners level first second together
    · exact .inr ⟨rfl, together⟩

/-- Calls match if the calls that their bodies make do. -/
theorem deeper_pairs (calls : pairing.PairsCalls invoke other) :
    pairing.PairsCalls (deeper left invoke) (deeper right other) := by
  intro here there related name arguments
  refine prepare_pairs related name arguments fun function owner place owners =>
    ?_
  exact inCall_pairs owners fun inner =>
    enter_pairs calls related inner function arguments

end Calls

/-- Under one limit, calls with the same room match. -/
theorem invoke_pairs_of_limit
    (sameLimit : left.callLimit = right.callLimit) (room : Nat) :
    pairing.PairsCalls (invoke left room) (invoke right room) := by
  induction room with
  | zero =>
      intro here there related name arguments
      refine prepare_pairs related name arguments fun function owner place _ =>
        ?_
      rw [sameLimit]
      exact fun level => .throw _
  | succ room inductionHypothesis => exact deeper_pairs inductionHypothesis

end Pairing
end LineScript
