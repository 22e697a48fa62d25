import LineScript.Machine

/-!
Laws of actions: what running each of them does, and a way of bounding what it
does to the machine.  An action stays *within* a relation if each of its runs,
failed or not, relates the machine before it to the machine after it.
-/

namespace LineScript

namespace Machine

def entered (machine : Machine) (owner : ScopeId) : Machine :=
  { machine with forest := machine.forest.addChild owner, depth :=
    machine.depth + 1 }

def left (machine : Machine) : Machine :=
  { machine with forest := machine.forest.dropLast, depth := machine.depth - 1 }

def printed (machine : Machine) (text : Text) : Machine :=
  { machine with output := text :: machine.output }

def withForest (machine : Machine) (forest : Forest) : Machine :=
  { machine with forest := forest }

end Machine

namespace Action

variable {α β : Type}

/-- A call drops its scope and counts down again, whether or not its body
fails. -/
theorem run_inCall
    (owner : ScopeId) (body : ScopeId → Action α) (machine : Machine) :
    (inCall owner body).run machine =
      (((body machine.forest.size).run (machine.entered owner)).1,
        ((body machine.forest.size).run (machine.entered owner)).2.left) :=
  rfl

private theorem state_bind_apply
    (action : StateM Machine α) (next : α → StateM Machine β)
    (machine : Machine) :
    (action >>= next) machine = next (action machine).1 (action machine).2 :=
  rfl

/-- A sequence goes on from the machine that its first part leaves behind. -/
theorem run_bind (action : Action α) (next : α → Action β) (machine : Machine) :
    (action >>= next).run machine =
      match action.run machine with
      | (.ok value, after) => (next value).run after
      | (.error fault, after) => (.error fault, after) := by
  rw [ExceptT.run_bind, state_bind_apply]
  rcases action.run machine with ⟨fault | value, after⟩
  · rfl
  · rfl

/-- Both parts of a sequence that succeeds succeed. -/
theorem exists_of_run_bind
    {action : Action α} {next : α → Action β} {machine after : Machine}
    {result : β} (ran : (action >>= next).run machine = (.ok result, after)) :
    ∃ value middle, action.run machine = (.ok value, middle) ∧
      (next value).run middle = (.ok result, after) := by
  rw [run_bind] at ran
  rcases outcome : action.run machine with ⟨fault | value, middle⟩
  · rw [outcome] at ran
    cases ran
  · rw [outcome] at ran
    exact ⟨value, middle, rfl, ran⟩

/-- A handler sees what was done up to the fault: catching a fault undoes
nothing. -/
theorem run_tryCatch
    (action : Action α) (handler : Fault → Action α) (machine : Machine) :
    (tryCatch action handler : Action α).run machine =
      match action.run machine with
      | (.ok value, after) => (.ok value, after)
      | (.error fault, after) => (handler fault).run after := by
  rw [ExceptT.run_tryCatch, state_bind_apply]
  rcases action.run machine with ⟨fault | value, after⟩
  · rfl
  · rfl

/-- Every run of the action relates the machine before it to the one after
it. -/
def Within (relation : Machine → Machine → Prop) (action : Action α) : Prop :=
  ∀ machine, relation machine (action.run machine).2

namespace Within

variable {relation : Machine → Machine → Prop}

theorem mono
    {wider : Machine → Machine → Prop} {action : Action α}
    (included : ∀ {before after}, relation before after → wider before after)
    (stays : action.Within relation) :
    action.Within wider :=
  fun machine => included (stays machine)

theorem of_unchanged
    {action : Action α} (refl : ∀ machine, relation machine machine)
    (unchanged : ∀ machine, (action.run machine).2 = machine) :
    action.Within relation := by
  intro machine
  rw [unchanged machine]
  exact refl machine

theorem bind
    {action : Action α} {next : α → Action β}
    (trans : ∀ {first second third},
      relation first second → relation second third → relation first third)
    (stays : action.Within relation)
    (goesOn : ∀ value, (next value).Within relation) :
    (action >>= next).Within relation := by
  intro machine
  have start := stays machine
  rw [run_bind]
  generalize action.run machine = outcome at start ⊢
  rcases outcome with ⟨fault | value, after⟩
  · exact start
  · exact trans start (goesOn value after)

theorem tryCatch
    {action : Action α} {handler : Fault → Action α}
    (trans : ∀ {first second third},
      relation first second → relation second third → relation first third)
    (stays : action.Within relation)
    (handles : ∀ fault, (handler fault).Within relation) :
    (tryCatch action handler : Action α).Within relation := by
  intro machine
  have start := stays machine
  rw [run_tryCatch]
  generalize action.run machine = outcome at start ⊢
  rcases outcome with ⟨fault | value, after⟩
  · exact trans start (handles fault after)
  · exact start

end Within

end Action
end LineScript
