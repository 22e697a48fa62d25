import LineScript.Proofs.Forest

/-!
Forests that differ by one scope.

A larger forest has one scope more than a smaller one, at `position`, and names
the scopes from there on by the next index.  As no other scope has the extra one
around it, a walk outward never meets it: names mean the same in both forests,
and every way of writing and of entering and leaving scopes keeps the forests
so.
-/

namespace LineScript

/-- The index of a scope once another one has been inserted at `position`. -/
def skip (position index : Nat) : Nat :=
  if index < position then index else index + 1

section Skip

variable {position index other : Nat}

theorem skip_of_lt (before : index < position) : skip position index = index :=
  if_pos before

theorem skip_of_le (after : position ≤ index) :
    skip position index = index + 1 :=
  if_neg (Nat.not_lt_of_le after)

theorem skip_ne (position index : Nat) : skip position index ≠ position := by
  by_cases before : index < position
  · rw [skip_of_lt before]
    exact Nat.ne_of_lt before
  · have after := Nat.le_of_not_lt before
    rw [skip_of_le after]
    exact Nat.ne_of_gt (Nat.lt_succ_of_le after)

theorem skip_inj :
    skip position index = skip position other ↔ index = other := by
  unfold skip
  constructor
  · intro same
    split at same <;> split at same <;> omega
  · intro same
    rw [same]

theorem skip_lt_succ (bound : position ≤ other) :
    skip position index < other + 1 ↔ index < other := by
  unfold skip
  split
  · omega
  · omega

theorem exists_skip_eq (different : other ≠ position) :
    ∃ index, skip position index = other := by
  rcases Nat.lt_or_gt_of_ne different with before | after
  · exact ⟨other, skip_of_lt before⟩
  · refine ⟨other - 1, ?_⟩
    rw [skip_of_le (Nat.le_sub_one_of_lt after)]
    exact Nat.sub_add_cancel (Nat.one_le_of_lt after)

end Skip

def Scope.skipping (position : ScopeId) (scope : Scope) : Scope :=
  { scope with parent := scope.parent.map (skip position) }

namespace Forest

theorem chain_of_parent?
    {forest : Forest} {index parent : ScopeId}
    (isParent : forest.parent? index = some parent) :
    forest.chain index = index :: forest.chain parent := by
  rw [chain]
  split
  · next isRoot =>
      rw [isRoot] at isParent
      cases isParent
  · next other isOther =>
      rw [isOther] at isParent
      cases isParent
      rfl

theorem chain_of_root
    {forest : Forest} {index : ScopeId} (isRoot : forest.parent? index = none) :
    forest.chain index = [index] := by
  rw [chain]
  split
  · rfl
  · next other isOther =>
      rw [isRoot] at isOther
      cases isOther

theorem scope?_addChild (forest : Forest) (owner index : ScopeId) :
    (forest.addChild owner).scope? index =
      if index = forest.size then
        some (.fresh (if owner < forest.size then some owner else none))
      else
        forest.scope? index :=
  Array.getElem?_push

theorem scope?_dropLast (forest : Forest) (index : ScopeId) :
    forest.dropLast.scope? index =
      if index < forest.size - 1 then forest.scope? index else none := by
  by_cases kept : index < forest.size - 1
  · rw [if_pos kept, scope?_dropLast_of_lt kept]
  · have dropped : forest.dropLast.size ≤ index := by
      rw [size_dropLast]
      exact Nat.le_of_not_lt kept
    rw [if_neg kept, scope?_eq_none dropped]

/-! ## Insertion -/

/-- The larger forest is the smaller one with the scope `extra` at `position`,
and at least `level` scopes are younger than that. -/
structure Inserted
    (position : ScopeId) (extra : Scope) (level : Nat)
      (smaller larger : Forest) : Prop where
  bound : position + level ≤ smaller.size
  size : larger.size = smaller.size + 1
  inserted : larger.scope? position = some extra
  scope : ∀ index,
    larger.scope? (skip position index) =
      (smaller.scope? index).map (Scope.skipping position)

namespace Inserted

variable {position : ScopeId} {extra : Scope} {level : Nat}
    {smaller larger : Forest}

theorem position_le (inserted : Inserted position extra level smaller larger) :
    position ≤ smaller.size :=
  Nat.le_of_add_right_le inserted.bound

/-- Inserting a scope gives one forest only. -/
theorem unique
    {other : Forest}
    (left : Inserted position extra level smaller larger)
    (right : Inserted position extra level smaller other) :
    other = larger := by
  apply eq_of_scope?
  intro place
  by_cases here : place = position
  · rw [here, left.inserted, right.inserted]
  · obtain ⟨index, rfl⟩ := exists_skip_eq here
    rw [left.scope, right.scope]

/-- A new scope is inserted after all others. -/
theorem addChild_self (forest : Forest) (owner : ScopeId) :
    ∃ parent,
      Inserted forest.size (.fresh parent) 0 forest
        (forest.addChild owner) := by
  obtain ⟨parent, isFresh⟩ := scope?_addChild_size forest owner
  refine ⟨parent, Nat.le_refl _, size_addChild forest owner, isFresh,
    fun index => ?_⟩
  by_cases old : index < forest.size
  · rw [skip_of_lt old, scope?_addChild_of_lt old]
    cases found : forest.scope? index with
    | none => rfl
    | some scope =>
        -- The scopes around an old scope are older still.
        have sameParent :
            scope.parent.map (skip forest.size) = scope.parent := by
          cases isParent : scope.parent with
          | none => rfl
          | some around =>
              have isParent? : forest.parent? index = some around := by
                rw [parent?, found]
                exact isParent
              have older := Nat.lt_trans (lt_of_parent? isParent?) old
              rw [Option.map_some, skip_of_lt older]
        simp only [Option.map_some, Scope.skipping, sameParent]
  · have beyond := Nat.le_of_not_lt old
    have beyondChild : (forest.addChild owner).size ≤ index + 1 := by
      rw [size_addChild]
      exact Nat.succ_le_succ beyond
    rw [skip_of_le beyond, scope?_eq_none beyondChild, scope?_eq_none beyond]
    rfl

section Reading

variable (inserted : Inserted position extra level smaller larger)
    (index : ScopeId)

include inserted

theorem parent?_skip :
    larger.parent? (skip position index) =
      (smaller.parent? index).map (skip position) := by
  rw [parent?, parent?, inserted.scope]
  cases smaller.scope? index with
  | none => rfl
  | some scope => rfl

/-- No chain of the smaller forest leads through the inserted scope. -/
theorem chain_skip :
    larger.chain (skip position index) =
      (smaller.chain index).map (skip position) := by
  have parents := inserted.parent?_skip
  induction index using Nat.strongRecOn with
  | ind index inductionHypothesis =>
      cases isParent : smaller.parent? index with
      | none =>
          have isRoot := parents index
          rw [isParent] at isRoot
          rw [chain_of_root isParent, chain_of_root isRoot]
          rfl
      | some parent =>
          have isMoved := parents index
          rw [isParent] at isMoved
          rw [chain_of_parent? isParent, chain_of_parent? isMoved,
            inductionHypothesis parent (lt_of_parent? isParent)]
          rfl

theorem localVariable?_skip (name : Text) :
    larger.localVariable? (skip position index) name =
      smaller.localVariable? index name := by
  rw [localVariable?, localVariable?, inserted.scope]
  cases smaller.scope? index with
  | none => rfl
  | some scope => rfl

theorem localFunction?_skip (name : Text) :
    larger.localFunction? (skip position index) name =
      smaller.localFunction? index name := by
  rw [localFunction?, localFunction?, inserted.scope]
  cases smaller.scope? index with
  | none => rfl
  | some scope => rfl

theorem value?_skip (name : Text) :
    larger.value? (skip position index) name = smaller.value? index name := by
  rw [value?, value?, inserted.chain_skip, List.findSome?_map]
  congr 1
  funext owner
  exact inserted.localVariable?_skip owner name

/-- A variable is found where it was, the inserted scope aside. -/
theorem resolveVariable_skip (name : Text) :
    larger.resolveVariable (skip position index) name =
      (smaller.resolveVariable index name).map fun found =>
        (found.1, skip position found.2) := by
  rw [resolveVariable, resolveVariable, inserted.chain_skip, List.findSome?_map,
    List.map_findSome?]
  congr 1
  funext owner
  simp only [Function.comp_apply, inserted.localVariable?_skip, Option.map_map]
  rfl

theorem resolveFunction_skip (name : Text) :
    larger.resolveFunction (skip position index) name =
      (smaller.resolveFunction index name).map fun found =>
        (found.1, skip position found.2) := by
  rw [resolveFunction, resolveFunction, inserted.chain_skip, List.findSome?_map,
    List.map_findSome?]
  congr 1
  funext owner
  simp only [Function.comp_apply, inserted.localFunction?_skip, Option.map_map]
  rfl

end Reading

section Writing

theorem modify
    (inserted : Inserted position extra level smaller larger) (index : ScopeId)
    {change : Scope → Scope}
    (keepsParent : ∀ scope, (change scope).parent = scope.parent)
    (commutes : ∀ scope : Scope,
      change (scope.skipping position) = (change scope).skipping position) :
    Inserted position extra level
      (smaller.modify index change keepsParent)
      (larger.modify (skip position index) change keepsParent) := by
  refine ⟨?_, ?_, ?_, fun other => ?_⟩
  · rw [size_modify]
    exact inserted.bound
  · rw [size_modify, size_modify]
    exact inserted.size
  · rw [scope?_modify, if_neg (skip_ne position index).symm]
    exact inserted.inserted
  · rw [scope?_modify, scope?_modify]
    by_cases same : other = index
    · rw [if_pos same, if_pos (congrArg (skip position) same), inserted.scope]
      cases smaller.scope? index with
      | none => rfl
      | some scope => exact congrArg some (commutes scope)
    · rw [if_neg same, if_neg (fun moved => same (skip_inj.mp moved)),
        inserted.scope]

/-- Writing into the extra scope leaves it inserted into the same forest. -/
theorem setVariable_extra
    (inserted : Inserted position extra level smaller larger) (name : Text)
    (value : Value) :
    Inserted position (extra.setVariable name value) level smaller
      (larger.setVariable position name value) := by
  refine ⟨inserted.bound, ?_, ?_, fun other => ?_⟩
  · exact (size_modify larger position _ _).trans inserted.size
  · rw [scope?_setVariable_self, inserted.inserted]
    rfl
  · have untouched :=
      AgreesOff.modify larger position
        (fun scope => scope.setVariable name value)
      fun _ => rfl
    exact (untouched.elsewhere _ (skip_ne position other)).trans
      (inserted.scope other)

variable (inserted : Inserted position extra level smaller larger)
    (index : ScopeId)

include inserted

theorem setVariable (name : Text) (value : Value) :
    Inserted position extra level
      (smaller.setVariable index name value)
      (larger.setVariable (skip position index) name value) :=
  inserted.modify index _ fun _ => rfl

theorem setFunction (function : Function) :
    Inserted position extra level
      (smaller.setFunction index function)
      (larger.setFunction (skip position index) function) :=
  inserted.modify index _ fun _ => rfl

/-- Assignment finds the same scope with the inserted one aside. -/
theorem assignEnclosing (name : Text) (value : Value) :
    Inserted position extra level
      (smaller.assignEnclosing index name value)
      (larger.assignEnclosing (skip position index) name value) := by
  rw [Forest.assignEnclosing, Forest.assignEnclosing,
    inserted.resolveVariable_skip]
  rcases smaller.resolveVariable index name with _ | ⟨found, owner⟩
  · exact inserted.setVariable index name value
  · exact inserted.setVariable owner name value

end Writing

/-- Both forests can grow by a scope: the level counts those that came after the
insertion. -/
theorem addChild
    (inserted : Inserted position extra level smaller larger)
    (owner : ScopeId) :
    Inserted position extra (level + 1)
      (smaller.addChild owner) (larger.addChild (skip position owner)) := by
  have newest : skip position smaller.size = larger.size := by
    rw [skip_of_le inserted.position_le, inserted.size]
  refine ⟨?_, ?_, ?_, fun index => ?_⟩
  · rw [size_addChild]
    exact Nat.succ_le_succ inserted.bound
  · rw [size_addChild, size_addChild, inserted.size]
  · have older : position ≠ larger.size := by
      rw [← newest]
      exact (skip_ne position smaller.size).symm
    rw [scope?_addChild, if_neg older]
    exact inserted.inserted
  · rw [scope?_addChild, scope?_addChild]
    by_cases isNew : index = smaller.size
    · have isMoved : skip position index = larger.size := by
        rw [isNew]
        exact newest
      have sameBound :
          skip position owner < larger.size ↔ owner < smaller.size := by
        rw [inserted.size]
        exact skip_lt_succ inserted.position_le
      rw [if_pos isNew, if_pos isMoved]
      by_cases known : owner < smaller.size
      · rw [if_pos known, if_pos (sameBound.mpr known)]
        rfl
      · rw [if_neg known, if_neg (fun moved => known (sameBound.mp moved))]
        rfl
    · have isOld : skip position index ≠ larger.size := by
        rw [← newest]
        exact fun moved => isNew (skip_inj.mp moved)
      rw [if_neg isNew, if_neg isOld]
      exact inserted.scope index

/-- Scopes that came after the insertion can be dropped again. -/
theorem dropLast
    (inserted : Inserted position extra (level + 1) smaller larger) :
    Inserted position extra level smaller.dropLast larger.dropLast := by
  have younger : position + level < smaller.size := inserted.bound
  have shrunk : larger.size - 1 = smaller.size - 1 + 1 := by
    rw [inserted.size]
    exact (Nat.sub_add_cancel (Nat.one_le_of_lt younger)).symm
  have bound : position + level ≤ smaller.size - 1 :=
    Nat.le_sub_one_of_lt younger
  have position_le : position ≤ smaller.size - 1 := Nat.le_of_add_right_le bound
  refine ⟨?_, ?_, ?_, fun index => ?_⟩
  · rw [size_dropLast]
    exact bound
  · rw [size_dropLast, size_dropLast]
    exact shrunk
  · have kept : position < larger.size - 1 := by
      rw [shrunk]
      exact Nat.lt_succ_of_le position_le
    rw [scope?_dropLast, if_pos kept]
    exact inserted.inserted
  · have sameBound :
        skip position index < larger.size - 1 ↔ index < smaller.size - 1 := by
      rw [shrunk]
      exact skip_lt_succ position_le
    rw [scope?_dropLast, scope?_dropLast]
    by_cases kept : index < smaller.size - 1
    · rw [if_pos kept, if_pos (sameBound.mpr kept)]
      exact inserted.scope index
    · rw [if_neg kept, if_neg (fun moved => kept (sameBound.mp moved))]
      rfl

end Inserted
end Forest
end LineScript
