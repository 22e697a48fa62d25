import LineScript.Proofs.Pairing
import LineScript.Proofs.Shadow
import LineScript.Proofs.Trace.Record

/-!
The number of calls in progress.

Whatever a session does, it ends with as many calls in progress as it started
with, and at no moment are there more than the limit allows.  A call is refused
if and only if there are as many as that already.
-/

namespace LineScript

open Evaluation

/-- A record of what a session did: it ends with as many calls in progress as it
started with, never are there more than the limit, and calls are admitted below
it and refused at it. -/
structure Record.KeepsToLimit {α : Type}
    (record : Record α) (session : Session)
      (outcome : Except Fault α × Session) : Prop
    extends record.Recounts outcome where
  depth : outcome.2.machine.depth = session.machine.depth
  bounded : ∀ moment ∈ record.moments,
    moment.machine.depth ≤ session.settings.callLimit
  refused : ∀ moment ∈ record.moments, ∀ function, moment.event =
    .refused function →
    moment.machine.depth = session.settings.callLimit
  admitted : ∀ moment ∈ record.moments, ∀ function, moment.event =
    .admitted function →
    moment.machine.depth < session.settings.callLimit

/-- A true record of a session within its limit shows no moment beyond it. -/
theorem Record.Tells.keepsToLimit
    {α : Type} {record : Record α} {session : Session}
    {outcome : Except Fault α × Session} (tells : record.Tells session outcome)
    (shallow : session.machine.depth ≤ session.settings.callLimit) :
    record.KeepsToLimit session outcome := by
  have top :
      session.machine.depth + session.room = session.settings.callLimit :=
    Nat.add_sub_of_le shallow
  rcases tells with ⟨recounts, depth, lawful⟩
  rw [top] at lawful
  refine ⟨recounts, depth, fun moment member =>
    (lawful moment member).depth_le, ?_, ?_⟩
  · rintro ⟨event, machine⟩ member function rfl
    cases lawful _ member with
    | refused _ full => exact full
  · rintro ⟨event, machine⟩ member function rfl
    cases lawful _ member with
    | admitted _ shallow => exact shallow

namespace Traced

theorem run_prepare_of_resolved
    {machine : Machine} {caller owner : ScopeId} {name : Text}
    {function : Function} {arguments : List Text}
    (resolves : resolveCallee machine.forest caller name = .ok (function, owner))
    (matching : arguments.length = function.parameters.length)
    (start : Function → ScopeId → Traced (Option Value)) (past : List Moment) :
    (prepare caller name arguments start).run ⟨machine, past⟩ =
      (start function owner).run ⟨machine, ⟨.acts, machine⟩ :: past⟩ := by
  have resolving :
      (liftM (Action.inspect fun machine =>
        resolveCallee machine.forest caller name) : Traced _).run
          ⟨machine, past⟩ =
        (.ok (function, owner), ⟨machine, ⟨.acts, machine⟩ :: past⟩) := by
    rw [← resolves]
    rfl
  rw [prepare, run_bind, resolving]
  simp only [if_pos matching]

end Traced

namespace Session

/-- A call fails before anything of it is done, because of the limit. -/
def RefusesOnEntry (session : Session) (scope : ScopeId) (name : Text)
    (arguments : List Text)
    (function : Function) : Prop :=
  session.invoke scope name arguments =
      (.error (.recursionLimit session.settings.callLimit), session) ∧
    (session.recordInvoke scope name arguments).moments =
      [⟨.acts, session.machine⟩, ⟨.refused function, session.machine⟩]

section Entry

variable {session : Session} {scope owner : ScopeId} {name : Text}
    {function : Function}
  {arguments : List Text}
  (resolves :
    resolveCallee session.machine.forest scope name = .ok (function, owner))
  (matching : arguments.length = function.parameters.length)

include resolves matching

/-- With as many calls in progress as are allowed the next one is refused at
once. -/
theorem refusesOnEntry_of_full
    (full : session.machine.depth = session.settings.callLimit) :
    session.RefusesOnEntry scope name arguments function := by
  have noRoom : session.room = 0 := by
    rw [room, full, Nat.sub_self]
  constructor
  · rw [invoke, invoker, noRoom, Evaluation.invoke, perform, run_prepare,
      resolves]
    simp only [if_pos matching]
    rfl
  · rw [recordInvoke, tracer, noRoom, Traced.invoke, Traced.record,
      Traced.run_prepare_of_resolved resolves matching]
    rfl

/-- With fewer the call is admitted, right after its callee is found. -/
theorem admitted_of_shallow
    (shallow : session.machine.depth < session.settings.callLimit) :
    ∃ later, (session.recordInvoke scope name arguments).moments =
      ⟨.acts, session.machine⟩ :: ⟨.admitted function, session.machine⟩ ::
        later := by
  rcases Nat.exists_eq_add_of_lt shallow with ⟨room, isLimit⟩
  have isRoom : session.room = room + 1 := by
    rw [Session.room]
    omega
  have calls :=
    Traced.invoke_follows session.settings session.settings.callLimit room
  have enters :
      Traced.FollowsAt session.settings session.settings.callLimit
        session.machine
      (.inCall owner fun place =>
        .enter session.settings
          (.invoke session.settings room) place function scope arguments)
      (.inCall owner
        (enter session.settings
          (Evaluation.invoke session.settings room) scope function
          arguments)) :=
    .inCall shallow (Traced.enter_followsAt calls (by omega) resolves matching)
  rcases enters.2
    [⟨.admitted function, session.machine⟩, ⟨.acts, session.machine⟩] with
    ⟨added, recorded, _⟩
  refine ⟨added.reverse, ?_⟩
  rw [recordInvoke, tracer, isRoom, Traced.invoke, Traced.record,
    Traced.run_prepare_of_resolved resolves matching]
  have ran := Traced.run_note_bind (.admitted function)
    (Traced.inCall owner fun place =>
      Traced.enter session.settings
        (.invoke session.settings room) place function scope arguments)
    ⟨session.machine, [⟨.acts, session.machine⟩]⟩
  simp only [ran, Recording.noted, recorded, List.reverse_append,
    List.reverse_cons, List.reverse_nil, List.nil_append, List.cons_append]

end Entry

/-- Expressions, statements and calls end with as many calls in progress as they
started with, whatever comes of them, and at no moment are there more than the
limit.  A call whose callee is known and gets as many arguments as it has
parameters fails on entry if and only if there are as many as the limit
already. -/
theorem calls_in_progress_keep_to_the_limit
    (session : Session) (scope : ScopeId)
    (within : session.machine.depth ≤ session.settings.callLimit) :
    (∀ source, (session.recordEvaluate scope source).KeepsToLimit session
      (session.evaluate scope source)) ∧
    (∀ source, (session.recordExecute scope source).KeepsToLimit session
      (session.tryExecute scope source)) ∧
    (∀ source,
      (session.execute scope source).machine =
        (session.recordExecute scope source).ending ∧
      (session.execute scope source).machine.depth = session.machine.depth) ∧
    (∀ name arguments,
      (session.recordInvoke scope name arguments).KeepsToLimit session
      (session.invoke scope name arguments)) ∧
    ∀ name arguments function owner,
      resolveCallee session.machine.forest scope name = .ok (function, owner) →
      arguments.length = function.parameters.length →
      (session.RefusesOnEntry scope name arguments function ↔
        session.machine.depth = session.settings.callLimit) := by
  have executes := fun source => session.recordExecute_tells scope source
  refine ⟨?_, ?_, ?_, ?_, ?_⟩
  · exact fun source =>
      (session.recordEvaluate_tells scope source).keepsToLimit within
  · exact fun source => (executes source).keepsToLimit within
  · intro source
    have same : (session.execute scope source).machine =
        (session.tryExecute scope source).2.machine := by
      rw [execute]
      rcases session.tryExecute scope source with ⟨fault | done, after⟩
      · rfl
      · rfl
    rw [same]
    exact ⟨(executes source).ending.symm, (executes source).depth⟩
  · exact fun name arguments =>
      (session.recordInvoke_tells scope name arguments).keepsToLimit within
  · intro name arguments function owner resolves matching
    constructor
    · rintro ⟨_, refused⟩
      rcases Nat.eq_or_lt_of_le within with full | shallow
      · exact full
      · rcases admitted_of_shallow resolves matching shallow
          with ⟨later, admitted⟩
        rw [admitted] at refused
        cases refused
    · exact refusesOnEntry_of_full resolves matching

def runawayFunction : Function :=
  { name := ['f']
    parameters := []
    returns := .void
    body := ["x = 2;".toList, "return f();".toList] }

/-- The session `runaway` with as many calls in progress as it allows. -/
def exhausted : Session :=
  { runaway with machine := { runaway.machine with depth := 3 } }

theorem resolveCallee_runaway :
    resolveCallee runaway.machine.forest 0 ['f'] =
      .ok (runawayFunction, 0) := by
  with_unfolding_all rfl

/-- The calls of `runaway` go down to its limit and no further, and `exhausted`
refuses the first one. -/
theorem calls_in_progress_keep_to_the_limit_of_runaway :
    (runaway.machine.depth ≤ runaway.settings.callLimit ∧
      (runaway.recordExecute 0 "x = f();".toList).KeepsToLimit runaway
        (runaway.tryExecute 0 "x = f();".toList) ∧
      ¬ runaway.RefusesOnEntry 0 ['f'] [] runawayFunction) ∧
    exhausted.machine.depth ≤ exhausted.settings.callLimit ∧
      (exhausted.recordEvaluate 0 "f()".toList).KeepsToLimit exhausted
        (exhausted.evaluate 0 "f()".toList) ∧
      exhausted.RefusesOnEntry 0 ['f'] [] runawayFunction := by
  have shallow : runaway.machine.depth ≤ runaway.settings.callLimit := by decide
  have full :
      exhausted.machine.depth ≤ exhausted.settings.callLimit := by decide
  rcases runaway.calls_in_progress_keep_to_the_limit 0 shallow
    with ⟨_, executes, _, _, refuses⟩
  rcases exhausted.calls_in_progress_keep_to_the_limit 0 full with
    ⟨evaluates, _, _, _, refusesToo⟩
  refine ⟨⟨shallow, executes _, ?_⟩, full, evaluates _, ?_⟩
  · rw [refuses ['f'] [] runawayFunction 0 resolveCallee_runaway rfl]
    decide
  · exact (refusesToo ['f'] [] runawayFunction 0 resolveCallee_runaway rfl).mpr
      rfl

end Session
end LineScript
