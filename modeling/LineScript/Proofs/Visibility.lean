import LineScript.Proofs.Enclosing
import LineScript.Proofs.Insertion

/-!
Where a variable that is written is seen.

From each scope the scopes around it form a finite chain.  A name is read from
the nearest scope on the chain that binds it.  So a write is seen from those
scopes whose chains come to the written scope before any other scope that binds
the name, and from nowhere else.
-/

namespace LineScript
namespace Forest

/-- The scopes from `index` outward, each around the one before it, up to one
that nothing is around. -/
inductive Outward (forest : Forest) : (index : ScopeId) → List ScopeId → Prop
  | root {index : ScopeId} (isRoot : forest.parent? index = none) :
      Outward forest index [index]
  | inner {index parent : ScopeId} {around : List ScopeId}
      (isParent : forest.parent? index = some parent)
        (later : Outward forest parent around) :
      Outward forest index (index :: around)

/-- Every walk outward ends. -/
theorem outward_chain (forest : Forest) (index : ScopeId) :
    Outward forest index (forest.chain index) := by
  induction index using Nat.strongRecOn with
  | ind index inductionHypothesis =>
      cases isParent : forest.parent? index with
      | none =>
          rw [chain_of_root isParent]
          exact .root isParent
      | some parent =>
          rw [chain_of_parent? isParent]
          exact .inner isParent
            (inductionHypothesis parent (lt_of_parent? isParent))

theorem Outward.le_of_mem
    {forest : Forest} {index scope : ScopeId} {walk : List ScopeId}
    (outward : Outward forest index walk) (member : scope ∈ walk) :
    scope ≤ index := by
  induction outward with
  | root _ => exact Nat.le_of_eq (List.mem_singleton.mp member)
  | inner isParent _ inductionHypothesis =>
      cases List.mem_cons.mp member with
      | inl same => exact Nat.le_of_eq same
      | inr later =>
          have older := lt_of_parent? isParent
          exact Nat.le_trans (inductionHypothesis later) (Nat.le_of_lt older)

/-- The scopes of a chain are older and older, so that none comes twice. -/
theorem Outward.pairwise
    {forest : Forest} {index : ScopeId} {walk : List ScopeId}
    (outward : Outward forest index walk) :
    walk.Pairwise (· > ·) := by
  induction outward with
  | root _ => exact List.pairwise_singleton _ _
  | inner isParent later inductionHypothesis =>
      refine List.pairwise_cons.mpr
        ⟨fun scope member => ?_, inductionHypothesis⟩
      exact Nat.lt_of_le_of_lt (later.le_of_mem member) (lt_of_parent? isParent)

theorem ne_of_mem_nearer
    {forest : Forest} {index scope owner : ScopeId}
    {nearer further : List ScopeId}
    (isChain : forest.chain index = nearer ++ owner :: further)
    (member : scope ∈ nearer) :
    scope ≠ owner := by
  have younger := (outward_chain forest index).pairwise
  rw [isChain, List.pairwise_append] at younger
  exact Nat.ne_of_gt (younger.2.2 scope member owner List.mem_cons_self)

/-- Whoever keeps all parents keeps all chains. -/
theorem chain_of_parents
    {before after : Forest}
    (same : ∀ index, after.parent? index = before.parent? index)
    (index : ScopeId) :
    after.chain index = before.chain index := by
  induction index using Nat.strongRecOn with
  | ind index inductionHypothesis =>
      cases isParent : before.parent? index with
      | none =>
          have isRoot := (same index).trans isParent
          rw [chain_of_root isParent, chain_of_root isRoot]
      | some parent =>
          have afterParent := (same index).trans isParent
          rw [chain_of_parent? isParent, chain_of_parent? afterParent,
            inductionHypothesis parent (lt_of_parent? isParent)]

/-- Reading the name outward from `index` comes to `owner`: it is on the chain,
and no scope nearer to `index` binds the name. -/
def Reaches (forest : Forest) (index owner : ScopeId) (name : Text) : Prop :=
  ∃ nearer further, forest.chain index = nearer ++ owner :: further ∧
    ∀ scope ∈ nearer, forest.localVariable? scope name = none

theorem value?_eq_map_resolveVariable
    (forest : Forest) (index : ScopeId) (name : Text) :
    forest.value? index name =
      (forest.resolveVariable index name).map Prod.fst := by
  rw [value?, resolveVariable]
  induction forest.chain index with
  | nil => rfl
  | cons scope around inductionHypothesis =>
      cases found : forest.localVariable? scope name with
      | none => simpa [found] using inductionHypothesis
      | some value => simp [found]

/-- A name is resolved to the nearest scope on the chain that binds it. -/
theorem resolveVariable_eq_some_iff
    {forest : Forest} {index owner : ScopeId} {name : Text} {value : Value} :
    forest.resolveVariable index name = some (value, owner) ↔
      forest.Reaches index owner name ∧
        forest.localVariable? owner name = some value := by
  simp only [resolveVariable, List.findSome?_eq_some_iff,
    Option.map_eq_some_iff, Option.map_eq_none_iff, Prod.mk.injEq]
  constructor
  · intro found
    obtain ⟨nearer, scope, further, isChain, ⟨bound, isBound, rfl, rfl⟩,
      unbound⟩ := found
    exact ⟨⟨nearer, further, isChain, unbound⟩, isBound⟩
  · intro found
    obtain ⟨⟨nearer, further, isChain, unbound⟩, isBound⟩ := found
    exact ⟨nearer, owner, further, isChain, ⟨value, isBound, rfl, rfl⟩, unbound⟩

theorem lt_of_localVariable?
    {forest : Forest} {index : ScopeId} {name : Text} {value : Value}
    (bound : forest.localVariable? index name = some value) :
    index < forest.size := by
  refine Decidable.byContradiction fun beyond => ?_
  simp [localVariable?, scope?_eq_none (Nat.le_of_not_lt beyond)] at bound

/-! ## Writing -/

section Writing

variable {forest : Forest} {written : ScopeId} (known : written < forest.size)
  (name : Text) (value : Value)

theorem chain_setVariable
    (forest : Forest) (written index : ScopeId) (name : Text) (value : Value) :
    (forest.setVariable written name value).chain index = forest.chain index :=
  chain_of_parents (fun _ => parent?_modify ..) index

theorem scope?_setVariable_of_ne
    (forest : Forest) {written other : ScopeId} (different : other ≠ written)
    (name : Text) (value : Value) :
    (forest.setVariable written name value).scope? other =
      forest.scope? other :=
  (scope?_modify ..).trans (if_neg different)

include known

theorem localVariable?_setVariable (scope : ScopeId) (other : Text) :
    (forest.setVariable written name value).localVariable? scope other =
      if other = name ∧ scope = written then
        some value
      else
        forest.localVariable? scope other := by
  by_cases same : scope = written
  · by_cases sameName : other = name
    · simp [same, sameName, localVariable?_setVariable_self known]
    · simp [same, sameName,
        localVariable?_setVariable_of_ne forest written value sameName]
  · simp [same, localVariable?, scope?_setVariable_of_ne forest same]

/-- A write is seen from each scope whose reading of the name comes to the
written scope. -/
theorem value?_setVariable_of_reaches
    {index : ScopeId} (reaches : forest.Reaches index written name) :
    (forest.setVariable written name value).value? index name = some value := by
  obtain ⟨nearer, further, isChain, unbound⟩ := reaches
  rw [value?, chain_setVariable, isChain, List.findSome?_eq_some_iff]
  refine ⟨nearer, written, further, rfl, ?_, fun scope member => ?_⟩
  · simp [localVariable?_setVariable known]
  · have different := ne_of_mem_nearer isChain member
    simp [localVariable?_setVariable known, different, unbound scope member]

/-- A search that does not come by the scope that was written finds what it
found. -/
theorem findSome?_setVariable
    {other : Text} {scopes : List ScopeId}
    (elsewhere : other = name → written ∉ scopes) :
    (scopes.findSome? fun scope =>
        (forest.setVariable written name value).localVariable? scope other) =
      scopes.findSome? fun scope => forest.localVariable? scope other := by
  induction scopes with
  | nil => rfl
  | cons scope scopes inductionHypothesis =>
      have laterElsewhere : other = name → written ∉ scopes :=
        fun same member =>
        elsewhere same (List.mem_cons_of_mem scope member)
      have different : ¬ (other = name ∧ scope = written) := by
        intro both
        exact elsewhere both.1 (by simp [both.2])
      rw [List.findSome?_cons, List.findSome?_cons,
        localVariable?_setVariable known, if_neg different,
        inductionHypothesis laterElsewhere]

/-- From every other scope, and under every other name, a write is not seen. -/
theorem value?_setVariable_of_not_reaches
    {index : ScopeId} {other : Text}
    (unseen : ¬ (other = name ∧ forest.Reaches index written name)) :
    (forest.setVariable written name value).value? index other =
      forest.value? index other := by
  rw [value?, value?, chain_setVariable]
  by_cases onChain : other = name ∧ written ∈ forest.chain index
  · obtain ⟨sameName, member⟩ := onChain
    obtain ⟨nearer, further, isChain⟩ := List.append_of_mem member
    -- Some scope before the written one binds the name, and the reading ends there.
    have blocked :
        nearer.findSome? (fun scope => forest.localVariable? scope other) ≠
          none := by
      intro unbound
      rw [List.findSome?_eq_none_iff, sameName] at unbound
      exact unseen ⟨sameName, nearer, further, isChain, unbound⟩
    have notNearer : written ∉ nearer :=
      fun inside => ne_of_mem_nearer isChain inside rfl
    obtain ⟨found, isFound⟩ := Option.ne_none_iff_exists'.mp blocked
    rw [isChain, List.findSome?_append, List.findSome?_append,
      findSome?_setVariable known name value fun _ => notNearer, isFound]
    simp
  · exact findSome?_setVariable known name value fun same member =>
      onChain ⟨same, member⟩

end Writing

theorem reaches_self (forest : Forest) (index : ScopeId) (name : Text) :
    forest.Reaches index index name := by
  cases isParent : forest.parent? index with
  | none => exact ⟨[], [], chain_of_root isParent, by simp⟩
  | some parent =>
      exact ⟨[], forest.chain parent, chain_of_parent? isParent, by simp⟩

/-- After an assignment its own scope reads the assigned value. -/
theorem value?_assignEnclosing
    {forest : Forest} {scope : ScopeId} (known : scope < forest.size)
    (name : Text) (value : Value) :
    (forest.assignEnclosing scope name value).value? scope name =
      some value := by
  cases resolved : forest.resolveVariable scope name with
  | none =>
      simp only [assignEnclosing, resolved]
      exact value?_setVariable_of_reaches known name value
        (reaches_self forest scope name)
  | some found =>
      obtain ⟨old, owner⟩ := found
      obtain ⟨reaches, bound⟩ := resolveVariable_eq_some_iff.mp resolved
      simp only [assignEnclosing, resolved]
      exact value?_setVariable_of_reaches
        (lt_of_localVariable? bound) name value reaches

theorem localFunction?_setVariable_everywhere
    (forest : Forest) (written scope : ScopeId) (name : Text) (value : Value)
    (other : Text) :
    (forest.setVariable written name value).localFunction? scope other =
      forest.localFunction? scope other := by
  by_cases same : scope = written
  · rw [same, localFunction?_setVariable]
  · rw [localFunction?, localFunction?, scope?_setVariable_of_ne forest same]

theorem resolveFunction_setVariable
    (forest : Forest) (written : ScopeId) (name : Text) (value : Value)
    (index : ScopeId) (other : Text) :
    (forest.setVariable written name value).resolveFunction index other =
      forest.resolveFunction index other := by
  simp only [resolveFunction, chain_setVariable,
    localFunction?_setVariable_everywhere]

/-- Assignment to an enclosing scope changes no function. -/
theorem resolveFunction_assignEnclosing
    (forest : Forest) (scope : ScopeId) (name : Text) (value : Value)
    (index : ScopeId) (other : Text) :
    (forest.assignEnclosing scope name value).resolveFunction index other =
      forest.resolveFunction index other := by
  rw [assignEnclosing]
  split
  · exact resolveFunction_setVariable ..
  · exact resolveFunction_setVariable ..

theorem scope?_setFunction_of_ne
    (forest : Forest) {defined other : ScopeId} (different : other ≠ defined)
    (function : Function) :
    (forest.setFunction defined function).scope? other = forest.scope? other :=
  (scope?_modify ..).trans (if_neg different)

theorem localVariable?_setFunction_everywhere
    (forest : Forest) (defined scope : ScopeId) (function : Function)
    (other : Text) :
    (forest.setFunction defined function).localVariable? scope other =
      forest.localVariable? scope other := by
  by_cases same : scope = defined
  · rw [same, localVariable?_setFunction]
  · rw [localVariable?, localVariable?, scope?_setFunction_of_ne forest same]

theorem resolveVariable_setFunction
    (forest : Forest) (defined : ScopeId) (function : Function)
    (index : ScopeId) (other : Text) :
    (forest.setFunction defined function).resolveVariable index other =
      forest.resolveVariable index other := by
  have sameChain :
      (forest.setFunction defined function).chain index = forest.chain index :=
    chain_of_parents (fun _ => parent?_modify ..) index
  simp only [resolveVariable, sameChain, localVariable?_setFunction_everywhere]

/-- Chains are finite, and a name is read from the nearest scope on the chain
that binds it.  A write is seen exactly from those scopes whose reading of the
name comes to the written scope.  An assignment writes where the name is bound,
or in its own scope.  Variables and functions do not touch each other. -/
theorem writes_are_seen_by_lexical_scoping (forest : Forest) :
    (∀ index, Outward forest index (forest.chain index) ∧
      (forest.chain index).Pairwise (· > ·)) ∧
    (∀ index name,
      forest.value? index name =
        (forest.resolveVariable index name).map Prod.fst) ∧
    (∀ index name value owner, forest.resolveVariable index name =
      some (value, owner) ↔
      forest.Reaches index owner name ∧
        forest.localVariable? owner name = some value) ∧
    (∀ written < forest.size, ∀ name value index other,
      (other = name ∧ forest.Reaches index written name →
        (forest.setVariable written name value).value? index other =
          some value) ∧
      (¬ (other = name ∧ forest.Reaches index written name) →
        (forest.setVariable written name value).value? index other =
          forest.value? index other)) ∧
    (∀ scope < forest.size, ∀ name value,
      (∀ old owner, forest.resolveVariable scope name = some (old, owner) →
        owner < forest.size ∧
          forest.assignEnclosing scope name value =
            forest.setVariable owner name value) ∧
      (forest.resolveVariable scope name = none →
        forest.assignEnclosing scope name value =
          forest.setVariable scope name value) ∧
      (forest.assignEnclosing scope name value).value? scope name =
        some value) ∧
    (∀ scope name value index other,
      (forest.setVariable scope name value).resolveFunction index other =
        forest.resolveFunction index other ∧
      (forest.assignEnclosing scope name value).resolveFunction index other =
        forest.resolveFunction index other) ∧
    ∀ scope function index name,
      (forest.setFunction scope function).resolveVariable index name =
        forest.resolveVariable index name := by
  refine ⟨fun index =>
    ?_, value?_eq_map_resolveVariable forest, ?_, ?_, ?_, ?_, ?_⟩
  · have outward := outward_chain forest index
    exact ⟨outward, outward.pairwise⟩
  · intro index name value owner
    exact resolveVariable_eq_some_iff
  · intro written known name value index other
    refine ⟨fun seen => ?_, value?_setVariable_of_not_reaches known name value⟩
    rw [seen.1]
    exact value?_setVariable_of_reaches known name value seen.2
  · intro scope known name value
    refine ⟨fun old owner resolved => ?_, fun resolved => ?_, ?_⟩
    · have bound := (resolveVariable_eq_some_iff.mp resolved).2
      exact ⟨lt_of_localVariable? bound, by
        simp only [assignEnclosing, resolved]⟩
    · simp only [assignEnclosing, resolved]
    · exact value?_assignEnclosing known name value
  · intro scope name value index other
    exact ⟨resolveFunction_setVariable .., resolveFunction_assignEnclosing ..⟩
  · intro scope function index name
    exact resolveVariable_setFunction ..

/-- A root that binds `x`, a scope 1 in it, a scope 2 in that, and a scope 3
beside scope 1. -/
def branching : Forest :=
  (((empty.addRoot.addChild 0).addChild 1).addChild 0).setVariable 0 ['x']
    (.integer 1)

theorem chain_branching :
    branching.chain 2 = [2, 1, 0] ∧ branching.chain 3 = [3, 0] := by
  have parents : branching.parent? 2 = some 1 ∧ branching.parent? 1 = some 0 ∧
      branching.parent? 3 = some 0 ∧ branching.parent? 0 = none := by
    decide +kernel
  obtain ⟨second, first, third, root⟩ := parents
  constructor
  · rw [chain_of_parent? second, chain_of_parent? first, chain_of_root root]
  · rw [chain_of_parent? third, chain_of_root root]

/-- In `branching` the scope inside sees a write that the scope beside does
not. -/
theorem writes_are_seen_by_lexical_scoping_of_branching :
    1 < branching.size ∧
      (branching.setVariable 1 ['x'] (.integer 2)).value? 2 ['x'] =
        some (.integer 2) ∧
      (branching.setVariable 1 ['x'] (.integer 2)).value? 3 ['x'] =
        branching.value? 3 ['x'] ∧
      (branching.assignEnclosing 2 ['x'] (.integer 2)).value? 2 ['x'] =
        some (.integer 2) := by
  obtain ⟨_, _, _, writes, assigns, _⟩ :=
    writes_are_seen_by_lexical_scoping branching
  have known : 1 < branching.size ∧ 2 < branching.size := by decide +kernel
  have seen : branching.Reaches 2 1 ['x'] := by
    refine ⟨[2], [0], chain_branching.1, List.forall_mem_singleton.mpr ?_⟩
    decide +kernel
  have unseen : ¬ branching.Reaches 3 1 ['x'] := by
    intro reaches
    obtain ⟨nearer, further, isChain, _⟩ := reaches
    have onChain : 1 ∈ branching.chain 3 := by simp [isChain]
    simp [chain_branching.2] at onChain
  refine ⟨known.1, ?_, ?_, ?_⟩
  · exact (writes 1 known.1 ['x'] (.integer 2) 2 ['x']).1 ⟨rfl, seen⟩
  · exact (writes 1 known.1 ['x'] (.integer 2) 3 ['x']).2 fun both =>
      unseen both.2
  · exact (assigns 2 known.2 ['x'] (.integer 2)).2.2

end Forest
end LineScript
