import LineScript.Proofs.Shadow

/-!
Sessions in which an assignment writes into the nearest scope that binds its
name.

Values can then change anywhere, but the outline of a scope cannot: the names it
binds, its functions and its parent.  An assignment inside a call either finds
its name bound, and replaces a value, or binds it in the scope of the call,
which is gone when the call ends.
-/

namespace LineScript

namespace Table

variable {α : Type}

/-- A name that is set keeps its place, or comes last if it is new. -/
theorem names_set (table : Table α) (name : Text) (entry : α) :
    (table.set name entry).names =
      if name ∈ table.names then table.names else table.names ++ [name] := by
  induction table with
  | nil => rfl
  | cons head rest inductionHypothesis =>
      obtain ⟨key, previous⟩ := head
      simp only [names] at inductionHypothesis
      by_cases same : key = name
      · simp [set, names, same]
      · by_cases later : name ∈ rest.map Prod.fst
        · simp [set, names, same, Ne.symm same, later, inductionHypothesis]
        · simp [set, names, same, Ne.symm same, later, inductionHypothesis]

theorem mem_names_of_get?
    {table : Table α} {name : Text} {entry : α}
    (bound : table.get? name = some entry) :
    name ∈ table.names :=
  List.mem_map.mpr ⟨(name, entry), mem_of_get? bound, rfl⟩

end Table

/-- What assignments to bound names leave alone: the names that a scope binds,
its functions and its parent. -/
def Scope.outline (scope : Scope) : List Text × Table Function × Option Nat :=
  (scope.values.names, scope.functions, scope.parent)

namespace Forest

def outline? (forest : Forest) (index : ScopeId) :
    Option (List Text × Table Function × Option Nat) :=
  (forest.scope? index).map Scope.outline

theorem names_locals (forest : Forest) (index : ScopeId) :
    (forest.locals index).names =
      ((forest.outline? index).map Prod.fst).getD [] := by
  unfold locals outline?
  cases forest.scope? index with
  | none => rfl
  | some scope => rfl

theorem parent?_eq_outline? (forest : Forest) (index : ScopeId) :
    forest.parent? index = (forest.outline? index).bind fun outline =>
      outline.2.2 := by
  unfold parent? outline?
  cases forest.scope? index with
  | none => rfl
  | some scope => rfl

theorem localFunction?_eq_outline?
    (forest : Forest) (index : ScopeId) (name : Text) :
    forest.localFunction? index name =
      (forest.outline? index).bind fun outline => outline.2.1.get? name := by
  unfold localFunction? outline?
  cases forest.scope? index with
  | none => rfl
  | some scope => rfl

/-- The forests differ at most in the values of variables that are bound in
both. -/
structure SameOutline (before after : Forest) : Prop where
  size : after.size = before.size
  outline : ∀ index, after.outline? index = before.outline? index

/-- The same, the scope at `index` aside. -/
structure SameOutlineOff (index : ScopeId) (before after : Forest) : Prop where
  size : after.size = before.size
  elsewhere : ∀ other, other ≠ index →
    after.outline? other = before.outline? other

/-- The scope at `index` has kept its parent, has gained at most the variable
`written`, and has the same functions apart from `defined`; every other scope
has kept its outline. -/
structure OutlineFootprint
    (index : ScopeId) (written defined : Option Text) (before after : Forest) :
    Prop
    extends SameOutlineOff index before after where
  parent : after.parent? index = before.parent? index
  names : (after.locals index).names = (before.locals index).names ∨
    ∃ name, written = some name ∧
      (after.locals index).names = (before.locals index).names ++ [name]
  otherFunctions : ∀ name, defined ≠ some name →
    after.localFunction? index name = before.localFunction? index name

namespace SameOutline

variable {first second third : Forest}

theorem refl (forest : Forest) : SameOutline forest forest :=
  ⟨rfl, fun _ => rfl⟩

theorem trans
    (start : SameOutline first second) (ending : SameOutline second third) :
    SameOutline first third :=
  ⟨ending.size.trans start.size,
    fun index => (ending.outline index).trans (start.outline index)⟩

theorem off (index : ScopeId) (same : SameOutline first second) :
    SameOutlineOff index first second :=
  ⟨same.size, fun other _ => same.outline other⟩

/-- Replacing the value of a bound variable keeps every outline. -/
theorem setVariable
    {forest : Forest} {owner : ScopeId} {name : Text} {previous : Value}
    (bound : forest.localVariable? owner name = some previous) (value : Value) :
    SameOutline forest (forest.setVariable owner name value) := by
  refine ⟨size_modify forest owner _ _, fun index => ?_⟩
  by_cases same : index = owner
  · subst same
    obtain ⟨scope, found, entry⟩ := Option.bind_eq_some_iff.mp bound
    have kept : (scope.values.set name value).names = scope.values.names := by
      rw [Table.names_set, if_pos (Table.mem_names_of_get? entry)]
    rw [outline?, outline?, scope?_setVariable_self, found]
    simp only [Option.map_some, Scope.outline, Scope.setVariable, kept]
  · have untouched := Footprint.setVariable owner name none forest value
    exact congrArg _ (untouched.elsewhere index same)

end SameOutline

namespace SameOutlineOff

variable {index : ScopeId} {first second third : Forest}

theorem trans
    (start : SameOutlineOff index first second)
    (ending : SameOutlineOff index second third) :
    SameOutlineOff index first third :=
  ⟨ending.size.trans start.size,
    fun other different =>
      (ending.elsewhere other different).trans
        (start.elsewhere other different)⟩

theorem of_agreesOff (agrees : AgreesOff index first second) :
    SameOutlineOff index first second :=
  ⟨agrees.size, fun other different =>
    congrArg _ (agrees.elsewhere other different)⟩

/-- Dropping a new scope leaves outlines as they were before it was added. -/
theorem dropLast
    {forest after : Forest} {owner : ScopeId}
    (same : SameOutlineOff forest.size (forest.addChild owner) after) :
    SameOutline forest after.dropLast := by
  have shrunk : after.dropLast.size = forest.size := by
    rw [size_dropLast, same.size, size_addChild]
    exact Nat.add_sub_cancel forest.size 1
  refine ⟨shrunk, fun index => ?_⟩
  by_cases old : index < forest.size
  · have kept : index < after.size - 1 := by
      rw [← size_dropLast, shrunk]
      exact old
    have sameOutline := same.elsewhere index (Nat.ne_of_lt old)
    simp only [outline?] at sameOutline ⊢
    rw [scope?_dropLast_of_lt kept, sameOutline, scope?_addChild_of_lt old]
  · have beyond : forest.size ≤ index := Nat.le_of_not_lt old
    have dropped : after.dropLast.size ≤ index := by
      rw [shrunk]
      exact beyond
    rw [outline?, outline?, scope?_eq_none dropped, scope?_eq_none beyond]

end SameOutlineOff

/-! ## Stores -/

theorem localVariable?_of_resolveVariable
    {forest : Forest} {index owner : ScopeId} {name : Text} {value : Value}
    (resolved : forest.resolveVariable index name = some (value, owner)) :
    forest.localVariable? owner name = some value := by
  obtain ⟨candidate, _, found⟩ := List.exists_of_findSome?_eq_some resolved
  obtain ⟨bound, isBound, same⟩ := Option.map_eq_some_iff.mp found
  cases same
  exact isBound

/-- Binding a variable adds at most its name to those of the scope. -/
theorem names_locals_setVariable
    (forest : Forest) (index : ScopeId) (name : Text) (value : Value) :
    ((forest.setVariable index name value).locals index).names =
      (forest.locals index).names ∨
      ((forest.setVariable index name value).locals index).names =
        (forest.locals index).names ++ [name] := by
  unfold locals
  rw [scope?_setVariable_self]
  cases forest.scope? index with
  | none => exact .inl rfl
  | some scope =>
      have names := Table.names_set scope.values name value
      by_cases bound : name ∈ scope.values.names
      · rw [if_pos bound] at names
        exact .inl names
      · rw [if_neg bound] at names
        exact .inr names

theorem locals_setFunction
    (forest : Forest) (index : ScopeId) (function : Function) :
    (forest.setFunction index function).locals index = forest.locals index := by
  unfold locals
  rw [scope?_setFunction_self]
  cases forest.scope? index with
  | none => rfl
  | some scope => rfl

namespace OutlineFootprint

variable {index : ScopeId} {written defined : Option Text}
    {first second third : Forest}

theorem of_sameOutline (same : SameOutline first second) :
    OutlineFootprint index written defined first second where
  toSameOutlineOff := same.off index
  parent := by rw [parent?_eq_outline?, parent?_eq_outline?, same.outline]
  names := .inl (by rw [names_locals, names_locals, same.outline])
  otherFunctions name _ := by
    rw [localFunction?_eq_outline?, localFunction?_eq_outline?, same.outline]

theorem of_footprint
    (footprint : Footprint index written defined first second)
    (names : (second.locals index).names = (first.locals index).names ∨
      ∃ name, written = some name ∧
        (second.locals index).names = (first.locals index).names ++ [name]) :
    OutlineFootprint index written defined first second where
  toSameOutlineOff := .of_agreesOff footprint.toAgreesOff
  parent := footprint.parent
  names := names
  otherFunctions := footprint.otherFunctions

theorem after_sameOutline
    (same : SameOutline first second)
    (footprint : OutlineFootprint index written defined second third) :
    OutlineFootprint index written defined first third where
  toSameOutlineOff := (same.off index).trans footprint.toSameOutlineOff
  parent := by
    rw [footprint.parent, parent?_eq_outline?, parent?_eq_outline?,
      same.outline]
  names := by
    have sameNames :
        (second.locals index).names = (first.locals index).names := by
      rw [names_locals, names_locals, same.outline]
    rw [← sameNames]
    exact footprint.names
  otherFunctions name different := by
    rw [footprint.otherFunctions name different, localFunction?_eq_outline?,
      localFunction?_eq_outline?, same.outline]

theorem setVariable
    (index : ScopeId) (name : Text) (defined : Option Text) (forest : Forest)
    (value : Value) :
    OutlineFootprint index (some name) defined forest
      (forest.setVariable index name value) := by
  refine of_footprint (.setVariable index name defined forest value) ?_
  rcases names_locals_setVariable forest index name value with kept | gained
  · exact .inl kept
  · exact .inr ⟨name, rfl, gained⟩

/-- Assignment to an enclosing scope changes at most the outline of the scope it
is made in. -/
theorem assignEnclosing
    (index : ScopeId) (name : Text) (defined : Option Text) (forest : Forest)
    (value : Value) :
    OutlineFootprint index (some name) defined forest
      (forest.assignEnclosing index name value) := by
  unfold Forest.assignEnclosing
  split
  · next previous owner resolved =>
      have bound := localVariable?_of_resolveVariable resolved
      exact of_sameOutline (.setVariable bound value)
  · exact setVariable index name defined forest value

/-- Defining an arrow function adds a function and a variable of one name. -/
theorem arrow (index : ScopeId) (closure : Closure) (forest : Forest) :
    OutlineFootprint index (some closure.name) (some closure.name) forest
      ((forest.setFunction index closure.function).setVariable index
        closure.name
        (.closure closure)) := by
  have defines :=
    Footprint.setFunction index (some closure.name) closure.function forest
  have binds := Footprint.setVariable index closure.name (some closure.name)
    (forest.setFunction index closure.function) (.closure closure)
  refine of_footprint (defines.trans binds) ?_
  have names :=
    names_locals_setVariable (forest.setFunction index closure.function) index
    closure.name (.closure closure)
  rw [locals_setFunction] at names
  rcases names with kept | gained
  · exact .inl kept
  · exact .inr ⟨closure.name, rfl, gained⟩

/-- The store of a statement adds at most its target. -/
theorem store
    (statement : Statement) (scope : ScopeId) (value : Value)
    (forest : Forest) :
    OutlineFootprint scope statement.target? statement.definition? forest
      (statement.store .enclosing scope value forest) := by
  cases statement with
  | arrow closure => exact arrow scope closure forest
  | declare name typeText expression =>
      exact setVariable scope name none forest value
  | declareBool name expression =>
      exact setVariable scope name none forest value
  | declareList name elements => exact setVariable scope name none forest value
  | step name direction => exact assignEnclosing scope name none forest value
  | assign name expression => exact assignEnclosing scope name none forest value
  | _ => exact of_sameOutline (.refl forest)

end OutlineFootprint
end Forest

/-- Calls keep the outline of every scope, and statements that of every scope
but the one they run in. -/
def Conduct.enclosing {mode : AssignmentMode} (enclosing : mode = .enclosing) :
    Conduct mode where
  calls before after := Forest.SameOutline before.forest after.forest
  acts scope before after :=
    Forest.SameOutlineOff scope before.forest after.forest
  refl machine := .refl machine.forest
  trans start ending := start.trans ending
  acts_of_calls {scope _ _} same := same.off scope
  acts_trans start ending := start.trans ending
  prints machine _ := .refl machine.forest
  stores statement scope machine value := by
    subst enclosing
    exact (Forest.OutlineFootprint.store statement scope value
      machine.forest).toSameOutlineOff
  binds scope machine name value :=
    (Forest.OutlineFootprint.setVariable scope name none machine.forest
      value).toSameOutlineOff
  returns same := same.dropLast

namespace Session

/-- A session with a function that assigns to the variable `x` of the scope
around it, binds a variable of its own and then fails. -/
def meddling : Session :=
  let settings : Settings :=
    { assignment := .enclosing
      callLimit := 3
      commands := fun _ _ => { lines := [], failure := none } }
  let function : Function :=
    { name := ['f']
      parameters := []
      returns := .void
      body := ["x = 2;".toList, "y = x;".toList, "return z;".toList] }
  (start settings).modifyForest fun forest =>
    (forest.setVariable 0 ['x'] (.integer 1)).setFunction 0 function

/-- Where assignments write to enclosing scopes, expressions and calls change no
more than values of bound variables, whether they fail or not.  A statement
moreover may give its own scope the one variable that it targets. -/
theorem enclosing_keeps_outlines
    (session : Session) (enclosing : session.settings.assignment = .enclosing)
    (scope : ScopeId) :
    (∀ source,
      Forest.SameOutline session.forest
        (session.evaluate scope source).2.forest) ∧
      (∀ name arguments,
        Forest.SameOutline session.forest
          (session.invoke scope name arguments).2.forest) ∧
        ∀ source,
          match Statement.read source with
          | .error _ =>
              (session.tryExecute scope source).2.forest = session.forest
          | .ok statement =>
              Forest.OutlineFootprint scope statement.target?
                statement.definition?
                session.forest (session.tryExecute scope source).2.forest := by
  have admits := admits_invoker (Conduct.enclosing enclosing)
  refine ⟨fun source => ?_, fun name arguments => ?_, fun source => ?_⟩
  · exact Conduct.evaluateText_within admits scope source session.machine
  · exact admits scope name arguments session.machine
  · cases reading : Statement.read source with
    | error fault => rw [tryExecute_of_unreadable session scope reading]
    | ok statement =>
        rw [tryExecute_of_read session scope reading, perform]
        obtain ⟨middle, kept, ⟨fault, failed⟩ | done | ⟨value, stored⟩⟩ :=
          Conduct.exists_of_run_runStatement admits scope statement
            session.machine
        · rw [failed]
          exact .of_sameOutline kept
        · rw [done]
          exact .of_sameOutline kept
        · rw [stored, enclosing]
          exact .after_sameOutline kept
            (.store statement scope value middle.forest)

/-- The function of `meddling` assigns to the scope around it, and the outlines
stay as they were. -/
theorem enclosing_keeps_outlines_of_meddling :
    meddling.settings.assignment = .enclosing ∧
      (∀ source,
        Forest.SameOutline meddling.forest
          (meddling.evaluate 0 source).2.forest) ∧
        (∀ name arguments,
          Forest.SameOutline meddling.forest
            (meddling.invoke 0 name arguments).2.forest) ∧
          ∀ source,
            match Statement.read source with
            | .error _ =>
                (meddling.tryExecute 0 source).2.forest = meddling.forest
            | .ok statement =>
                Forest.OutlineFootprint 0 statement.target?
                  statement.definition?
                  meddling.forest (meddling.tryExecute 0 source).2.forest :=
  ⟨rfl, meddling.enclosing_keeps_outlines rfl 0⟩

end Session
end LineScript
