import LineScript.Proofs.Fuel.Interpreter
import LineScript.Proofs.Fuel.Width

/-!
Attempts that follow actions: they do not run out of fuel and end as the action
does, on all machines whose functions are narrow enough and whose count of calls
in progress is the given one.
-/

namespace LineScript

namespace Attempt

variable {α β : Type}

private theorem option_state_bind_apply
    (attempt : StateT Machine Option α) (next : α → StateT Machine Option β)
    (machine : Machine) :
    (attempt >>= next) machine =
      (attempt machine).bind fun outcome => next outcome.1 outcome.2 :=
  rfl

theorem run_bind
    (attempt : Attempt α) (next : α → Attempt β) (machine : Machine) :
    (attempt >>= next).run machine =
      (attempt.run machine).bind fun
        | (.ok value, after) => (next value).run after
        | (.error fault, after) => some (.error fault, after) := by
  rw [ExceptT.run_bind, option_state_bind_apply]
  refine congrArg (Option.bind _) (funext fun outcome => ?_)
  rcases outcome with ⟨fault | value, after⟩
  · rfl
  · rfl

theorem run_tryCatch
    (attempt : Attempt α) (handler : Fault → Attempt α) (machine : Machine) :
    (tryCatch attempt handler : Attempt α).run machine =
      (attempt.run machine).bind fun
        | (.ok value, after) => some (.ok value, after)
        | (.error fault, after) => (handler fault).run after := by
  rw [ExceptT.run_tryCatch, option_state_bind_apply]
  refine congrArg (Option.bind _) (funext fun outcome => ?_)
  rcases outcome with ⟨fault | value, after⟩
  · rfl
  · rfl

theorem run_inCall
    (limit : Nat) (owner : ScopeId) (body : ScopeId → Attempt α)
    (machine : Machine) :
    (inCall limit owner body).run machine =
      if limit ≤ machine.depth then
        some (.error (.recursionLimit limit), machine)
      else
        ((body machine.forest.size).run (machine.entered owner)).map
          fun outcome =>
          (outcome.1, outcome.2.left) :=
  rfl

end Attempt

/-- No function of the machine is wider than `width`, and `depth` calls are in
progress. -/
structure Machine.Bounded (width depth : Nat) (machine : Machine) : Prop where
  narrow : machine.forest.width ≤ width
  deep : machine.depth = depth

/-- The value holds no function that is wider than `width`. -/
def Narrow (width : Nat) (value : Value) : Prop :=
  value.width ≤ width

theorem Narrow.of_kind
    (width : Nat) {value : Value} (plain : value.kind ≠ .closure) :
    Narrow width value := by
  rw [Narrow, Value.width_of_kind plain]
  exact Nat.zero_le width

theorem Narrow.of_map
    {α : Type} (width : Nat) {result : Except Fault α} {make : α → Value}
    {value : Value} (plain : ∀ content, (make content).kind ≠ .closure)
    (made : result.map make = .ok value) :
    Narrow width value := by
  cases result with
  | error fault => cases made
  | ok content =>
      cases made
      exact of_kind width (plain content)

/-- On bounded machines the attempt ends as the action does.  The machine stays
bounded, and a value that is given satisfies `suits`. -/
def Follows {α : Type} (width depth : Nat) (suits : α → Prop)
    (attempt : Attempt α) (action : Action α) : Prop :=
  ∀ machine : Machine, machine.Bounded width depth →
    attempt.run machine = some (action.run machine) ∧
      (action.run machine).2.Bounded width depth ∧
        ∀ value, (action.run machine).1 = .ok value → suits value

namespace Follows

variable {α β : Type} {width depth : Nat} {suits : α → Prop}
    {suitsNext : β → Prop}

theorem pure {value : α} (suitable : suits value) :
    Follows width depth suits (Pure.pure value) (Pure.pure value) := by
  intro machine bounded
  refine ⟨rfl, bounded, fun found same => ?_⟩
  cases same
  exact suitable

theorem throw (fault : Fault) :
    Follows width depth suits (MonadExcept.throw fault)
      (MonadExcept.throw fault) := by
  intro machine bounded
  exact ⟨rfl, bounded, fun found impossible => nomatch impossible⟩

theorem ofExcept
    {result : Except Fault α}
    (suitable : ∀ value, result = .ok value → suits value) :
    Follows width depth suits (.perform (.ofExcept result))
      (.ofExcept result) :=
  fun _ bounded => ⟨rfl, bounded, suitable⟩

theorem inspect
    {view : Machine → Except Fault α}
    (suitable : ∀ machine value, machine.forest.width ≤ width →
      view machine = .ok value → suits value) :
    Follows width depth suits (.perform (.inspect view)) (.inspect view) :=
  fun machine bounded =>
    ⟨rfl, bounded, fun value => suitable machine value bounded.narrow⟩

theorem perform
    {action : Action α}
    (stays : ∀ machine : Machine, machine.Bounded width depth →
      (action.run machine).2.Bounded width depth) :
    Follows width depth (fun _ => True) (.perform action) action :=
  fun machine bounded => ⟨rfl, stays machine bounded, fun _ _ => trivial⟩

theorem prints {action : Action Unit} (onlyPrints : action.OnlyPrints) :
    Follows width depth (fun _ => True) (.perform action) action := by
  obtain ⟨result, texts, ran⟩ := onlyPrints
  refine perform fun machine bounded => ?_
  rw [ran, Machine.foldl_printed]
  exact ⟨bounded.narrow, bounded.deep⟩

theorem modifyForest
    {change : Forest → Forest}
    (stays : ∀ forest : Forest, forest.width ≤ width → (change forest).width ≤ width) :
    Follows width depth (fun _ => True)
      (.perform (.modifyForest change)) (.modifyForest change) :=
  perform fun machine bounded =>
    ⟨stays machine.forest bounded.narrow, bounded.deep⟩

theorem bind
    {attempt : Attempt α} {action : Action α}
    {attempts : α → Attempt β} {actions : α → Action β}
    (first : Follows width depth suits attempt action)
    (next : ∀ value, suits value →
      Follows width depth suitsNext (attempts value) (actions value)) :
    Follows width depth suitsNext (attempt >>= attempts)
      (action >>= actions) := by
  intro machine bounded
  obtain ⟨ends, staysBounded, suitable⟩ := first machine bounded
  rw [Attempt.run_bind, ends, Action.run_bind, Option.bind_some]
  generalize action.run machine = outcome at staysBounded suitable ⊢
  rcases outcome with ⟨fault | value, after⟩
  · exact ⟨rfl, staysBounded, fun found impossible => nomatch impossible⟩
  · exact next value (suitable value rfl) after staysBounded

theorem tryCatch
    {attempt : Attempt α} {action : Action α}
    {attempts : Fault → Attempt α} {actions : Fault → Action α}
    (first : Follows width depth suits attempt action)
    (handled : ∀ fault, Follows width depth suits (attempts fault) (actions fault)) :
    Follows width depth suits
      (MonadExcept.tryCatch attempt attempts)
        (MonadExcept.tryCatch action actions) := by
  intro machine bounded
  obtain ⟨ends, staysBounded, suitable⟩ := first machine bounded
  rw [Attempt.run_tryCatch, ends, Action.run_tryCatch, Option.bind_some]
  generalize action.run machine = outcome at staysBounded suitable ⊢
  rcases outcome with ⟨fault | value, after⟩
  · exact handled fault after staysBounded
  · exact ⟨rfl, staysBounded, suitable⟩

/-- Below the limit a call is entered by both. -/
theorem inCall
    {limit : Nat} {owner : ScopeId}
    {attempts : ScopeId → Attempt α} {actions : ScopeId → Action α}
    (allowed : depth < limit)
    (body : ∀ scope, Follows width (depth + 1) suits (attempts scope) (actions scope)) :
    Follows width depth suits
      (Attempt.inCall limit owner attempts) (Action.inCall owner actions) := by
  intro machine bounded
  have entered : (machine.entered owner).Bounded width (depth + 1) :=
    ⟨Forest.width_addChild_le bounded.narrow owner,
      congrArg (· + 1) bounded.deep⟩
  have shallow : ¬ limit ≤ machine.depth :=
    bounded.deep ▸ Nat.not_le_of_lt allowed
  obtain ⟨ends, staysBounded, suitable⟩ := body machine.forest.size _ entered
  rw [Attempt.run_inCall, if_neg shallow, ends, Action.run_inCall]
  refine ⟨rfl, ⟨Forest.width_dropLast_le staysBounded.narrow, ?_⟩, suitable⟩
  exact congrArg (· - 1) staysBounded.deep

/-- As many calls as the limit allows are in progress. -/
theorem inCall_refused
    {limit : Nat} (owner : ScopeId) (attempts : ScopeId → Attempt α)
    (full : limit ≤ depth) :
    Follows width depth suits
      (Attempt.inCall limit owner attempts)
        (MonadExcept.throw (.recursionLimit limit)) := by
  intro machine bounded
  have refused : limit ≤ machine.depth := bounded.deep ▸ full
  rw [Attempt.run_inCall, if_pos refused]
  exact ⟨rfl, bounded, fun found impossible => nomatch impossible⟩

end Follows

def following (width depth : Nat) : Correspondence Attempt where
  fits := Narrow width
  Relates := Follows width depth
  fits_plain := Narrow.of_kind width
  relates_pure := Follows.pure
  relates_throw := Follows.throw
  relates_bind _ := Follows.bind
  relates_catch first handled := first.tryCatch handled
  relates_ofExcept := Follows.ofExcept
  relates_prints := Follows.prints

/-- A value that is read from a bounded machine holds no wide function. -/
theorem sees_following (width depth : Nat) (scope : ScopeId) :
    (following width depth).Sees scope scope where
  string _ := Follows.inspect fun _ _ _ => Narrow.of_map width nofun
  name _ := Follows.inspect fun _ _ bounded =>
    Evaluation.width_of_nameValue bounded
  arithmetic _ := Follows.inspect fun _ _ _ => Narrow.of_map width nofun
  lookup _ := Follows.inspect fun _ _ _ _ => trivial

end LineScript
