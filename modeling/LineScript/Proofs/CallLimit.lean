import LineScript.Proofs.Pairing
import LineScript.Session

/-!
The limit on nested calls decides only whether a run is cut short.

A call that the limit refuses ends the whole run with the fault about the limit:
nothing on the way out handles that fault.  A run that ends in any other way has
therefore refused no call, and goes the same way under every higher limit.
-/

namespace LineScript

def Fault.isLimit : Fault → Bool
  | recursionLimit _ => true
  | _ => false

/-- Whether a run with this result was cut short by the limit on nested
calls. -/
def cutShort {α : Type} : Except Fault α → Bool
  | .ok _ => false
  | .error fault => fault.isLimit

namespace Pairing

/-- Both runs have the same machine, as long as the first one is not cut
short. -/
def upToLimit
    {left right : Settings}
    (sameMode : left.assignment = right.assignment)
    (sameCommands : left.commands = right.commands) :
    Pairing left right where
  excused fault := fault.isLimit
  scopes here there := here = there
  machines _ first second := first = second
  not_excused _ := Bool.false_ne_true
  commands := sameCommands
  value same together _ := by rw [same, together]
  callee {_ first _ here _} same together name := by
    subst same together
    rcases Evaluation.resolveCallee first.forest here name
      with fault | ⟨function, owner⟩
    · exact rfl
    · exact ⟨rfl, rfl⟩
  prints same _ := by rw [same]
  stores same together _ _ := by rw [same, together, sameMode]
  binds same together _ _ := by rw [same, together]
  enters same together := by
    subst same together
    exact ⟨rfl, rfl⟩
  leaves same := by rw [same]

section UpToLimit

open Evaluation

variable
  {left right : Settings} {sameMode : left.assignment = right.assignment}
  {sameCommands : left.commands = right.commands}

/-- A run that the limit does not cut short is matched by an equal one. -/
theorem run_eq_of_pairs
    {α : Type} {action other : Action α}
    (pairs : (upToLimit sameMode sameCommands).Pairs action other)
    {machine : Machine} (complete : ¬ cutShort (action.run machine).1) :
    other.run machine = action.run machine := by
  rcases pairs 0 machine machine rfl
    with ⟨fault, failed, isLimit⟩ | ⟨same, sameMachine⟩
  · rw [failed] at complete
    exact absurd isLimit complete
  · exact (Prod.ext same sameMachine).symm

/-- Where no further call may start, it does not matter what a call would do. -/
theorem refused_pairs
    (start : ScopeId → List Text → Function → ScopeId → Action (Option Value)) :
    (upToLimit sameMode sameCommands).PairsCalls (invoke left 0)
      fun caller name arguments =>
        prepare caller name arguments (start caller arguments) := by
  intro here there related name arguments
  cases related
  refine prepare_pairs rfl name arguments fun function owner place _ => ?_
  have isLimit : (Fault.recursionLimit left.callLimit).isLimit := rfl
  exact fun level => .throw_excused isLimit _

/-- Calls with more room do what calls with less room do, unless those are
refused. -/
theorem invoke_pairs {room otherRoom : Nat} (more : room ≤ otherRoom) :
    (upToLimit sameMode sameCommands).PairsCalls (invoke left room) (invoke right otherRoom) := by
  induction room generalizing otherRoom with
  | zero =>
      cases otherRoom with
      | zero => exact refused_pairs fun _ _ _ _ => throw (.recursionLimit right.callLimit)
      | succ otherRoom =>
          exact refused_pairs fun caller arguments function owner =>
            Action.inCall owner
              (enter right (invoke right otherRoom) caller function arguments)
  | succ room inductionHypothesis =>
      cases otherRoom with
      | zero => exact absurd more (Nat.not_succ_le_zero room)
      | succ otherRoom =>
          exact deeper_pairs (inductionHypothesis (Nat.le_of_succ_le_succ more))

end UpToLimit
end Pairing

namespace Evaluation

/-- Calls with at most `room` more calls nested in each other, where a call
beyond them does `refused`. -/
def invokeOr (settings : Settings) (refused : Action (Option Value)) :
    (room : Nat) → Invoker Action
  | 0 => fun caller name arguments => prepare caller name arguments fun _ _ =>
      refused
  | room + 1 => deeper settings (invokeOr settings refused room)

/-- Calls that are refused with the fault of the limit are the calls
themselves. -/
theorem invokeOr_recursionLimit (settings : Settings) (room : Nat) :
    invokeOr settings (throw (.recursionLimit settings.callLimit)) room =
      invoke settings room := by
  induction room with
  | zero => rfl
  | succ room inductionHypothesis =>
      rw [invokeOr, inductionHypothesis, invoke_succ]

/-- Only a refused call can tell what is done in place of a refusal. -/
theorem invokeOr_pairs
    (settings : Settings) (refused : Action (Option Value)) (room : Nat) :
    (@Pairing.upToLimit settings settings rfl rfl).PairsCalls
      (invoke settings room) (invokeOr settings refused room) := by
  induction room with
  | zero => exact Pairing.refused_pairs fun _ _ _ _ => refused
  | succ room inductionHypothesis =>
      exact Pairing.deeper_pairs inductionHypothesis

end Evaluation

namespace Session

def withLimit (session : Session) (limit : Nat) : Session :=
  { session with settings := { session.settings with callLimit := limit } }

/-- The meaning of calls now, except that a call beyond the limit does
`refused`. -/
def invokerOr (session : Session) (refused : Action (Option Value)) :
    Evaluation.Invoker Action :=
  Evaluation.invokeOr session.settings refused session.room

section Perform

variable {α : Type} {session after : Session} {result : Except Fault α}
  {action other : Action α}

theorem perform_eq_of_run_eq
    (performed : session.perform action = (result, after))
    (same : other.run session.machine = action.run session.machine) :
    session.perform other = (result, after) := by
  rw [perform, same]
  exact performed

theorem perform_withLimit
    (performed : session.perform action = (result, after))
    (same : other.run session.machine = action.run session.machine)
    (limit : Nat) :
    (session.withLimit limit).perform other =
      (result, after.withLimit limit) := by
  cases performed
  have sameMachine : (session.withLimit limit).machine = session.machine := rfl
  rw [perform, sameMachine, same]
  rfl

/-- What `action` does is done by every action that matches it up to the
limit. -/
theorem performs_alike
    {higher : Nat} {others : Action (Option Value) → Action α}
    (performed : session.perform action = (result, after))
    (complete : ¬ cutShort result)
    (pairs : (@Pairing.upToLimit session.settings (session.withLimit higher).settings
      rfl rfl).Pairs action other)
    (pairsOthers : ∀ refused,
      (@Pairing.upToLimit session.settings session.settings rfl rfl).Pairs
        action (others refused)) :
    (session.withLimit higher).perform other =
      (result, after.withLimit higher) ∧
      ∀ refused, session.perform (others refused) = (result, after) := by
  have sameResult : (action.run session.machine).1 = result :=
    congrArg Prod.fst performed
  have completeRun : ¬ cutShort (action.run session.machine).1 := by
    rw [sameResult]
    exact complete
  constructor
  · exact perform_withLimit performed
      (Pairing.run_eq_of_pairs pairs completeRun) higher
  · intro refused
    exact perform_eq_of_run_eq performed
      (Pairing.run_eq_of_pairs (pairsOthers refused) completeRun)

end Perform

theorem room_le_of_limit_le
    {session : Session} {higher : Nat}
    (raised : session.settings.callLimit ≤ higher) :
    session.room ≤ (session.withLimit higher).room :=
  Nat.sub_le_sub_right raised session.machine.depth

theorem invokerOr_recursionLimit (session : Session) :
    session.invokerOr (throw (.recursionLimit session.settings.callLimit)) =
      session.invoker :=
  Evaluation.invokeOr_recursionLimit session.settings session.room

/-- A run that is not cut short ends the same under every higher limit.  It has
refused no call either: if calls beyond its own limit did anything else than
fail, it would still end the same. -/
theorem raising_the_limit_is_conservative
    (session : Session) {higher : Nat}
    (raised : session.settings.callLimit ≤ higher) (scope : ScopeId) :
    (∀ source result after, session.evaluate scope source = (result, after) →
      ¬ cutShort result →
        (session.withLimit higher).evaluate scope source =
          (result, after.withLimit higher) ∧
          ∀ refused,
            session.perform
              (Evaluation.evaluateText
                (session.invokerOr refused) scope source) =
              (result, after)) ∧
      (∀ source result after, session.tryExecute scope source =
        (result, after) →
        ¬ cutShort result →
          (session.withLimit higher).tryExecute scope source =
            (result, after.withLimit higher) ∧
            ∀ refused,
              session.perform
                  (Evaluation.runText session.settings
                    (session.invokerOr refused) scope source) =
                (result, after)) ∧
        (∀ name arguments result after, session.invoke scope name arguments =
          (result, after) →
          ¬ cutShort result →
            (session.withLimit higher).invoke scope name arguments =
                (result, after.withLimit higher) ∧
              ∀ refused,
                session.perform
                  (session.invokerOr refused scope name arguments) =
                  (result, after)) ∧
          session.invokerOr
            (throw (.recursionLimit session.settings.callLimit)) =
            session.invoker := by
  have higherCalls :=
    @Pairing.invoke_pairs session.settings
      (session.withLimit higher).settings rfl rfl _ _
      (room_le_of_limit_le raised)
  have otherCalls refused :=
    Evaluation.invokeOr_pairs session.settings refused session.room
  refine ⟨fun source result after ended complete => ?_,
    fun source result after ended complete => ?_,
    fun name arguments result after ended complete => ?_,
    session.invokerOr_recursionLimit⟩
  · exact performs_alike ended complete
      (Pairing.evaluateText_pairs higherCalls (Eq.refl scope) source)
      fun refused =>
        Pairing.evaluateText_pairs (otherCalls refused) (Eq.refl scope) source
  · exact performs_alike ended complete
      (Pairing.runText_pairs higherCalls (Eq.refl scope) source)
      fun refused =>
        Pairing.runText_pairs (otherCalls refused) (Eq.refl scope) source
  · exact performs_alike ended complete
      (higherCalls (Eq.refl scope) name arguments)
      fun refused => otherCalls refused (Eq.refl scope) name arguments

/-- A session that allows two nested calls, with a function that needs both. -/
def nesting : Session :=
  let settings : Settings :=
    { assignment := .shadow
      callLimit := 2
      commands := fun _ _ => { lines := [], failure := none } }
  let outer : Function :=
    { name := ['f'], parameters := [], returns := .void, body := ["return g();".toList] }
  let inner : Function :=
    { name := ['g'], parameters := [], returns := .void, body := ["return 1;".toList] }
  (start settings).modifyForest fun forest =>
    (forest.setFunction 0 outer).setFunction 0 inner

/-- The call of `f` needs the two nested calls of `nesting`, and goes the same
way when seven are allowed. -/
theorem raising_the_limit_of_nesting :
    nesting.settings.callLimit ≤ 7 ∧ ¬ cutShort (nesting.invoke 0 ['f'] []).1 ∧
      (nesting.withLimit 7).invoke 0 ['f'] [] =
        ((nesting.invoke 0 ['f'] []).1,
          (nesting.invoke 0 ['f'] []).2.withLimit 7) := by
  have raised : nesting.settings.callLimit ≤ 7 := by decide
  have complete : ¬ cutShort (nesting.invoke 0 ['f'] []).1 := by decide +kernel
  have conserved := (nesting.raising_the_limit_is_conservative raised 0).2.2.1
  exact ⟨raised, complete, (conserved ['f'] [] _ _ rfl complete).1⟩

end Session
end LineScript
