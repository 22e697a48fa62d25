import LineScript.Proofs.Trace.Following

/-!
Records of what a session does.
-/

namespace LineScript

/-- A recorded run: how it ended, and its moments in order. -/
structure Record (α : Type) where
  result : Except Fault α
  ending : Machine
  moments : List Moment

def Traced.record {α : Type} (traced : Traced α) (machine : Machine) :
    Record α :=
  let outcome := traced.run { machine := machine, moments := [] }
  { result := outcome.1
    ending := outcome.2.machine
    moments := outcome.2.moments.reverse }

namespace Session

variable (session : Session) (scope : ScopeId)

def tracer : Evaluation.Invoker Traced :=
  Traced.invoke session.settings session.room

def recordEvaluate (source : Text) : Record Value :=
  Traced.record (Evaluation.evaluateText session.tracer scope source)
    session.machine

def recordExecute (source : Text) : Record Unit :=
  (Traced.runText session.settings session.tracer scope source).record
    session.machine

def recordInvoke (name : Text) (arguments : List Text) :
    Record (Option Value) :=
  (session.tracer scope name arguments).record session.machine

end Session

namespace Record

variable {α : Type}

/-- The record is one of what a session did. -/
structure Recounts (record : Record α) (outcome : Except Fault α × Session) :
    Prop where
  result : record.result = outcome.1
  ending : record.ending = outcome.2.machine

/-- What a session did left as many calls in progress as there were, and the
moments of its record are lawful. -/
structure Tells (record : Record α) (session : Session)
    (outcome : Except Fault α × Session) :
    Prop extends record.Recounts outcome where
  depth : outcome.2.machine.depth = session.machine.depth
  lawful : ∀ moment ∈ record.moments,
    moment.Lawful session.settings (session.machine.depth + session.room)

/-- The record of a computation that follows an action tells what the session
did. -/
theorem tells_of_follows
    {session : Session} {traced : Traced α} {action : Action α}
    (follows :
      Traced.Follows session.settings
        (session.machine.depth + session.room) session.room
      traced action) :
    (traced.record session.machine).Tells session (session.perform action) := by
  rcases follows session.machine rfl with ⟨kept, records⟩
  rcases records [] with ⟨added, recorded, lawful⟩
  have ran : traced.record session.machine =
      { result := (action.run session.machine).1
        ending := (action.run session.machine).2
        moments := added.reverse } := by
    rw [Traced.record, recorded, List.append_nil]
  rw [ran]
  refine ⟨⟨rfl, rfl⟩, kept, ?_⟩
  intro moment member
  exact lawful moment (List.mem_reverse.mp member)

end Record

namespace Session

variable (session : Session) (scope : ScopeId)

theorem recordEvaluate_tells (source : Text) :
    (session.recordEvaluate scope source).Tells session
      (session.evaluate scope source) :=
  Record.tells_of_follows
    (Traced.evaluateText_follows (Traced.invoke_follows _ _ _) scope source)

theorem recordExecute_tells (source : Text) :
    (session.recordExecute scope source).Tells session
      (session.tryExecute scope source) :=
  Record.tells_of_follows
    (Traced.runText_follows (Traced.invoke_follows _ _ _) scope source)

theorem recordInvoke_tells (name : Text) (arguments : List Text) :
    (session.recordInvoke scope name arguments).Tells session
      (session.invoke scope name arguments) :=
  Record.tells_of_follows (Traced.invoke_follows _ _ _ scope name arguments)

end Session
end LineScript
