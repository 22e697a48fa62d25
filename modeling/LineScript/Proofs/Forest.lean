import LineScript.Forest

/-!
Laws of forests: what each way of building or writing leaves in every scope.
-/

namespace LineScript

namespace Forest

theorem eq_of_scopes {left right : Forest} (same : left.scopes = right.scopes) :
    left = right := by
  cases left
  cases right
  cases same
  rfl

/-- A forest is determined by what its indices stand for. -/
theorem eq_of_scope?
    {left right : Forest}
    (same : ∀ index, left.scope? index = right.scope? index) :
    left = right :=
  eq_of_scopes (Array.ext_getElem? same)

@[simp] theorem size_addChild (forest : Forest) (owner : ScopeId) :
    (forest.addChild owner).size = forest.size + 1 := by
  simp [addChild, size]

theorem scope?_addChild_of_lt
    {forest : Forest} {index : ScopeId} (old : index < forest.size)
    (owner : ScopeId) :
    (forest.addChild owner).scope? index = forest.scope? index := by
  have different : index ≠ forest.scopes.size := Nat.ne_of_lt old
  simp [addChild, scope?, Array.getElem?_push, different]

/-- The new scope comes last and binds nothing. -/
theorem scope?_addChild_size (forest : Forest) (owner : ScopeId) :
    ∃ parent, (forest.addChild owner).scope? forest.size =
      some (.fresh parent) := by
  refine ⟨if owner < forest.scopes.size then some owner else none, ?_⟩
  simp [addChild, scope?, size]

theorem scope?_eq_none
    {forest : Forest} {index : ScopeId} (beyond : forest.size ≤ index) :
    forest.scope? index = none :=
  Array.getElem?_eq_none beyond

@[simp] theorem size_dropLast (forest : Forest) :
    forest.dropLast.size = forest.size - 1 := by
  simp [dropLast, size]

theorem scope?_dropLast_of_lt
    {forest : Forest} {index : ScopeId} (kept : index < forest.size - 1) :
    forest.dropLast.scope? index = forest.scope? index := by
  have inside : index < forest.scopes.size - 1 := kept
  simp [dropLast, scope?, inside]

section Modify

variable
  (forest : Forest) (index : ScopeId) (change : Scope → Scope)
  (keepsParent : ∀ scope, (change scope).parent = scope.parent)

theorem size_modify :
    (forest.modify index change keepsParent).size = forest.size := by
  simp [modify, size]

theorem scope?_modify (other : ScopeId) :
    (forest.modify index change keepsParent).scope? other =
      if other = index then
        (forest.scope? index).map change
      else
        forest.scope? other := by
  by_cases same : other = index
  · subst same
    simp [modify, scope?, Array.getElem?_modify]
  · simp [modify, scope?, Array.getElem?_modify, same, Ne.symm same]

theorem parent?_modify (other : ScopeId) :
    (forest.modify index change keepsParent).parent? other =
      forest.parent? other := by
  rw [parent?, parent?, scope?_modify]
  split
  · next same =>
      subst same
      cases forest.scope? other with
      | none => rfl
      | some scope => exact keepsParent scope
  · rfl

end Modify

@[simp] theorem size_setVariable
    (forest : Forest) (index : ScopeId) (name : Text) (value : Value) :
    (forest.setVariable index name value).size = forest.size :=
  size_modify forest index _ _

@[simp] theorem size_setFunction (forest : Forest) (index : ScopeId)
    (function : Function) :
    (forest.setFunction index function).size = forest.size :=
  size_modify forest index _ _

@[simp] theorem size_assignEnclosing
    (forest : Forest) (index : ScopeId) (name : Text) (value : Value) :
    (forest.assignEnclosing index name value).size = forest.size := by
  rw [assignEnclosing]
  split <;> exact size_setVariable _ _ _ _

theorem scope?_setVariable_self
    (forest : Forest) (index : ScopeId) (name : Text) (value : Value) :
    (forest.setVariable index name value).scope? index =
      (forest.scope? index).map fun scope => scope.setVariable name value :=
  (scope?_modify forest index _ _ index).trans (if_pos rfl)

theorem localVariable?_setVariable_self
    {forest : Forest} {index : ScopeId} (known : index < forest.size)
    (name : Text) (value : Value) :
    (forest.setVariable index name value).localVariable? index name =
      some value := by
  rw [localVariable?, scope?_setVariable_self, scope?,
    Array.getElem?_eq_getElem known]
  exact Table.get?_set_self _ _ _

theorem scope?_setFunction_self
    (forest : Forest) (index : ScopeId) (function : Function) :
    (forest.setFunction index function).scope? index =
      (forest.scope? index).map fun scope => scope.setFunction function :=
  (scope?_modify forest index _ _ index).trans (if_pos rfl)

theorem localVariable?_setVariable_of_ne
    (forest : Forest) (index : ScopeId) {name other : Text} (value : Value)
    (different : other ≠ name) :
    (forest.setVariable index name value).localVariable? index other =
      forest.localVariable? index other := by
  rw [localVariable?, localVariable?, scope?_setVariable_self]
  cases forest.scope? index with
  | none => rfl
  | some scope => exact Table.get?_set_of_ne scope.values value different

@[simp] theorem localFunction?_setVariable
    (forest : Forest) (index : ScopeId) (name : Text) (value : Value)
    (other : Text) :
    (forest.setVariable index name value).localFunction? index other =
      forest.localFunction? index other := by
  rw [localFunction?, localFunction?, scope?_setVariable_self]
  cases forest.scope? index with
  | none => rfl
  | some scope => rfl

@[simp] theorem localVariable?_setFunction
    (forest : Forest) (index : ScopeId) (function : Function) (other : Text) :
    (forest.setFunction index function).localVariable? index other =
      forest.localVariable? index other := by
  rw [localVariable?, localVariable?, scope?_setFunction_self]
  cases forest.scope? index with
  | none => rfl
  | some scope => rfl

theorem localFunction?_setFunction_of_ne
    (forest : Forest) (index : ScopeId) {function : Function} {other : Text}
    (different : other ≠ function.name) :
    (forest.setFunction index function).localFunction? index other =
      forest.localFunction? index other := by
  rw [localFunction?, localFunction?, scope?_setFunction_self]
  cases forest.scope? index with
  | none => rfl
  | some scope => exact Table.get?_set_of_ne scope.functions function different

/-- The forests have the same scopes, the one at `index` aside. -/
structure AgreesOff (index : ScopeId) (before after : Forest) : Prop where
  size : after.size = before.size
  elsewhere : ∀ other, other ≠ index → after.scope? other = before.scope? other

namespace AgreesOff

variable {index : ScopeId} {first second third : Forest}

theorem refl (index : ScopeId) (forest : Forest) :
    AgreesOff index forest forest :=
  ⟨rfl, fun _ _ => rfl⟩

theorem trans
    (start : AgreesOff index first second)
    (ending : AgreesOff index second third) :
    AgreesOff index first third :=
  ⟨ending.size.trans start.size,
    fun other different =>
      (ending.elsewhere other different).trans
        (start.elsewhere other different)⟩

theorem modify
    (forest : Forest) (index : ScopeId) (change : Scope → Scope)
    (keepsParent : ∀ scope, (change scope).parent = scope.parent) :
    AgreesOff index forest (forest.modify index change keepsParent) := by
  refine ⟨size_modify forest index change keepsParent,
    fun other different => ?_⟩
  rw [scope?_modify, if_neg different]

/-- Dropping a new scope undoes whatever was done to it alone. -/
theorem dropLast_eq
    {forest after : Forest} {owner : ScopeId}
    (agrees : AgreesOff forest.size (forest.addChild owner) after) :
    after.dropLast = forest := by
  have shrunk : after.size - 1 = forest.size := by
    rw [agrees.size, size_addChild]
    exact Nat.add_sub_cancel forest.size 1
  apply eq_of_scope?
  intro index
  by_cases old : index < forest.size
  · have kept : index < after.size - 1 := by
      rw [shrunk]
      exact old
    rw [scope?_dropLast_of_lt kept, agrees.elsewhere index (Nat.ne_of_lt old),
      scope?_addChild_of_lt old]
  · have beyond : forest.size ≤ index := Nat.le_of_not_lt old
    have dropped : after.dropLast.size ≤ index := by
      rw [size_dropLast, shrunk]
      exact beyond
    rw [scope?_eq_none dropped, scope?_eq_none beyond]

end AgreesOff
end Forest
end LineScript
