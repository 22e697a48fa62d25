import LineScript.Table
import LineScript.Value

/-!
A forest of scopes.  A scope holds variables and functions in separate tables.
Reading a name walks outward along the parents; writing touches one scope.
-/

namespace LineScript

structure Scope where
  values : Table Value
  functions : Table Function
  parent : Option Nat

namespace Scope

def fresh (parent : Option Nat) : Scope :=
  { values := [], functions := [], parent := parent }

def setVariable (scope : Scope) (name : Text) (value : Value) : Scope :=
  { scope with values := scope.values.set name value }

def setFunction (scope : Scope) (function : Function) : Scope :=
  { scope with functions := scope.functions.set function.name function }

end Scope

/-- Scopes in the order of their creation, each named by its index.  The scope
around a scope is older than it, so that every walk outward ends. -/
structure Forest where
  scopes : Array Scope
  outward : ∀ (index : Nat) (bound : index < scopes.size) (parent : Nat),
    scopes[index].parent = some parent → parent < index

abbrev ScopeId := Nat

namespace Forest

def empty : Forest where
  scopes := #[]
  outward := by simp

def size (forest : Forest) : Nat :=
  forest.scopes.size

def addRoot (forest : Forest) : Forest where
  scopes := forest.scopes.push (.fresh none)
  outward := by
    intro index bound parent isParent
    rw [Array.getElem_push] at isParent
    split at isParent
    · next old => exact forest.outward index old parent isParent
    · simp [Scope.fresh] at isParent

def addChild (forest : Forest) (around : ScopeId) : Forest where
  scopes :=
    forest.scopes.push
      (.fresh (if around < forest.scopes.size then some around else none))
  outward := by
    intro index bound parent isParent
    rw [Array.getElem_push] at isParent
    split at isParent
    · next old => exact forest.outward index old parent isParent
    · next new =>
        simp only [Scope.fresh] at isParent
        split at isParent
        · next known =>
            cases isParent
            exact Nat.lt_of_lt_of_le known (Nat.le_of_not_lt new)
        · simp at isParent

def dropLast (forest : Forest) : Forest where
  scopes := forest.scopes.pop
  outward := by
    intro index bound parent isParent
    rw [Array.getElem_pop] at isParent
    simp only [Array.size_pop] at bound
    exact forest.outward index (by omega) parent isParent

def modify (forest : Forest) (index : ScopeId) (change : Scope → Scope)
    (keepsParent : ∀ scope, (change scope).parent = scope.parent) : Forest where
  scopes := forest.scopes.modify index change
  outward := by
    intro position bound parent isParent
    rw [Array.getElem_modify] at isParent
    simp only [Array.size_modify] at bound
    split at isParent
    · rw [keepsParent] at isParent
      exact forest.outward position bound parent isParent
    · exact forest.outward position bound parent isParent

def scope? (forest : Forest) (index : ScopeId) : Option Scope :=
  forest.scopes[index]?

def parent? (forest : Forest) (index : ScopeId) : Option ScopeId :=
  (forest.scope? index).bind Scope.parent

/-- The scope around a scope is older than it. -/
theorem lt_of_parent?
    {forest : Forest} {index parent : ScopeId}
    (isParent : forest.parent? index = some parent) :
    parent < index := by
  simp only [parent?, scope?, Option.bind_eq_some_iff] at isParent
  obtain ⟨scope, found, hasParent⟩ := isParent
  obtain ⟨bound, rfl⟩ := Array.getElem?_eq_some_iff.mp found
  exact forest.outward index bound parent hasParent

/-- A scope and the scopes around it, from the inside outward. -/
def chain (forest : Forest) (index : ScopeId) : List ScopeId :=
  match _isParent : forest.parent? index with
  | none => [index]
  | some parent => index :: chain forest parent
termination_by index
decreasing_by exact lt_of_parent? _isParent

def depth (forest : Forest) (index : ScopeId) : Nat :=
  (forest.chain index).length

/-- The variable that a scope itself binds. -/
def localVariable? (forest : Forest) (index : ScopeId) (name : Text) :
    Option Value :=
  (forest.scope? index).bind fun scope => scope.values.get? name

def localFunction? (forest : Forest) (index : ScopeId) (name : Text) :
    Option Function :=
  (forest.scope? index).bind fun scope => scope.functions.get? name

/-- The nearest variable of a name, and the scope that binds it. -/
def resolveVariable (forest : Forest) (index : ScopeId) (name : Text) :
    Option (Value × ScopeId) :=
  (forest.chain index).findSome? fun owner =>
    (forest.localVariable? owner name).map fun value => (value, owner)

def resolveFunction (forest : Forest) (index : ScopeId) (name : Text) :
    Option (Function × ScopeId) :=
  (forest.chain index).findSome? fun owner =>
    (forest.localFunction? owner name).map fun function => (function, owner)

def value? (forest : Forest) (index : ScopeId) (name : Text) : Option Value :=
  (forest.chain index).findSome? fun owner => forest.localVariable? owner name

def function? (forest : Forest) (index : ScopeId) (name : Text) :
    Option Function :=
  (forest.resolveFunction index name).map Prod.fst

def locals (forest : Forest) (index : ScopeId) : Table Value :=
  match forest.scope? index with
  | some scope => scope.values
  | none => []

def localNames (forest : Forest) (index : ScopeId) : List Text :=
  (forest.locals index).names.mergeSort Text.precedes

def setVariable (forest : Forest) (index : ScopeId) (name : Text)
    (value : Value) : Forest :=
  forest.modify index (fun scope => scope.setVariable name value) fun _ => rfl

def setFunction (forest : Forest) (index : ScopeId) (function : Function) :
    Forest :=
  forest.modify index (fun scope => scope.setFunction function) fun _ => rfl

/-- Binds a variable in the nearest scope that binds its name already, or in the
scope itself if none does. -/
def assignEnclosing (forest : Forest) (index : ScopeId) (name : Text)
    (value : Value) : Forest :=
  match forest.resolveVariable index name with
  | some (_, owner) => forest.setVariable owner name value
  | none => forest.setVariable index name value

end Forest
end LineScript
