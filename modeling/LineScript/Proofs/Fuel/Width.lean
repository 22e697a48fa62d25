import LineScript.Proofs.Correspondence
import LineScript.Proofs.Forest
import LineScript.Proofs.Text.Length

/-!
Widths: how long the texts are that a machine can come to run.

A text that is run is at most as long as the text it was written in.  This holds
for the parts of a statement and also for the body of an arrow function: the
`return` that stands for an expression body is paid for by the `var`, the bars
and the arrow around it.  So the greatest width of the functions in a forest and
of the text at hand bounds all texts that are ever run.
-/

namespace LineScript

open Text

def greatest (least : Nat) (numbers : List Nat) : Nat :=
  numbers.foldr max least

def widest (texts : List Text) : Nat :=
  greatest 0 (texts.map List.length)

/-- The number of the lines of a function or the length of the longest of them,
whichever is greater. -/
def Function.width (function : Function) : Nat :=
  greatest function.body.length (function.body.map List.length)

/-- The width of the function that a value holds. -/
def Value.width : Value → Nat
  | .closure arrow => arrow.function.width
  | _ => 0

/-- The width of what a statement runs or leaves to be run. -/
def Statement.width : Statement → Nat
  | .returns (some source) => source.length
  | .write template arguments _ => widest (template :: arguments)
  | .system template arguments => widest (template :: arguments)
  | .arrow closure => closure.function.width
  | .declare _ _ source => source.length
  | .declareBool _ source => source.length
  | .call _ arguments => widest arguments
  | .assign _ source => source.length
  | .expression source => source.length
  | _ => 0

def Scope.width (scope : Scope) : Nat :=
  greatest (greatest 0 (scope.functions.map fun entry => entry.2.width))
    (scope.values.map fun entry => entry.2.width)

def Forest.width (forest : Forest) : Nat :=
  greatest 0 (forest.scopes.toList.map Scope.width)

theorem greatest_le_iff {least : Nat} {numbers : List Nat} {bound : Nat} :
    greatest least numbers ≤ bound ↔
      least ≤ bound ∧ ∀ number ∈ numbers, number ≤ bound := by
  induction numbers with
  | nil => simp [greatest]
  | cons number later inductionHypothesis =>
      simp only [greatest, List.foldr_cons, List.mem_cons,
        forall_eq_or_imp] at *
      rw [Nat.max_le, inductionHypothesis]
      constructor
      · rintro ⟨first, low, others⟩
        exact ⟨low, first, others⟩
      · rintro ⟨low, first, others⟩
        exact ⟨first, low, others⟩

section Bounds

variable {bound : Nat}

theorem widest_le_iff {texts : List Text} :
    widest texts ≤ bound ↔ ∀ text ∈ texts, text.length ≤ bound := by
  simp [widest, greatest_le_iff]

theorem Function.width_le_iff {function : Function} :
    function.width ≤ bound ↔
      function.body.length ≤ bound ∧
        ∀ line ∈ function.body, line.length ≤ bound := by
  simp [Function.width, greatest_le_iff]

theorem Scope.width_le_iff {scope : Scope} :
    scope.width ≤ bound ↔
      (∀ entry ∈ scope.functions, entry.2.width ≤ bound) ∧
        ∀ entry ∈ scope.values, entry.2.width ≤ bound := by
  simp only [Scope.width, greatest_le_iff, List.forall_mem_map, Nat.zero_le,
    true_and]

theorem Forest.width_le_iff {forest : Forest} :
    forest.width ≤ bound ↔
      ∀ index scope, forest.scope? index = some scope →
        scope.width ≤ bound := by
  simp only [Forest.width, greatest_le_iff, Nat.zero_le, true_and, List.mem_map,
    forall_exists_index, and_imp, forall_apply_eq_imp_iff₂]
  constructor
  · intro bounded index scope found
    exact bounded scope (Array.mem_toList_iff.mpr (Array.mem_of_getElem? found))
  · intro bounded scope member
    obtain ⟨index, found⟩ :=
      Array.getElem?_of_mem (Array.mem_toList_iff.mp member)
    exact bounded index scope found

end Bounds

/-! ## Widths of forests -/

namespace Forest

variable {bound : Nat} {forest : Forest}

theorem width_addChild_le (narrow : forest.width ≤ bound) (owner : ScopeId) :
    (forest.addChild owner).width ≤ bound := by
  rw [width_le_iff] at narrow ⊢
  intro index scope found
  by_cases old : index < forest.size
  · rw [scope?_addChild_of_lt old] at found
    exact narrow index scope found
  · by_cases new : index = forest.size
    · obtain ⟨parent, isFresh⟩ := scope?_addChild_size forest owner
      rw [new, isFresh] at found
      cases found
      exact Nat.zero_le bound
    · have beyond : (forest.addChild owner).size ≤ index := by
        rw [size_addChild]
        exact Nat.lt_of_le_of_ne (Nat.le_of_not_lt old) (Ne.symm new)
      rw [scope?_eq_none beyond] at found
      cases found

theorem width_dropLast_le (narrow : forest.width ≤ bound) :
    forest.dropLast.width ≤ bound := by
  rw [width_le_iff] at narrow ⊢
  intro index scope found
  by_cases kept : index < forest.size - 1
  · rw [scope?_dropLast_of_lt kept] at found
    exact narrow index scope found
  · have beyond : forest.dropLast.size ≤ index := by
      rw [size_dropLast]
      exact Nat.le_of_not_lt kept
    rw [scope?_eq_none beyond] at found
    cases found

theorem width_modify_le
    (narrow : forest.width ≤ bound) (index : ScopeId) {change : Scope → Scope}
    (keepsParent : ∀ scope, (change scope).parent = scope.parent)
    (staysNarrow : ∀ scope : Scope, scope.width ≤ bound → (change scope).width ≤ bound) :
    (forest.modify index change keepsParent).width ≤ bound := by
  rw [width_le_iff] at narrow ⊢
  intro other scope found
  rw [scope?_modify] at found
  split at found
  · obtain ⟨before, wasThere, rfl⟩ := Option.map_eq_some_iff.mp found
    exact staysNarrow before (narrow index before wasThere)
  · exact narrow other scope found

theorem width_setVariable_le
    (narrow : forest.width ≤ bound) (index : ScopeId) (name : Text)
    {value : Value} (narrowValue : value.width ≤ bound) :
    (forest.setVariable index name value).width ≤ bound := by
  refine width_modify_le narrow index _ fun scope narrowScope => ?_
  obtain ⟨functions, values⟩ := Scope.width_le_iff.mp narrowScope
  refine Scope.width_le_iff.mpr ⟨functions, fun entry member => ?_⟩
  rcases Table.mem_of_mem_set member with rfl | old
  · exact narrowValue
  · exact values entry old

theorem width_setFunction_le
    (narrow : forest.width ≤ bound) (index : ScopeId) {function : Function}
    (narrowFunction : function.width ≤ bound) :
    (forest.setFunction index function).width ≤ bound := by
  refine width_modify_le narrow index _ fun scope narrowScope => ?_
  obtain ⟨functions, values⟩ := Scope.width_le_iff.mp narrowScope
  refine Scope.width_le_iff.mpr ⟨fun entry member => ?_, values⟩
  rcases Table.mem_of_mem_set member with rfl | old
  · exact narrowFunction
  · exact functions entry old

theorem width_assignEnclosing_le
    (narrow : forest.width ≤ bound) (index : ScopeId) (name : Text)
    {value : Value} (narrowValue : value.width ≤ bound) :
    (forest.assignEnclosing index name value).width ≤ bound := by
  unfold assignEnclosing
  split
  · exact width_setVariable_le narrow _ name narrowValue
  · exact width_setVariable_le narrow index name narrowValue

theorem width_of_localVariable?
    (narrow : forest.width ≤ bound) {index : ScopeId} {name : Text}
    {value : Value} (found : forest.localVariable? index name = some value) :
    value.width ≤ bound := by
  obtain ⟨scope, isScope, binds⟩ := Option.bind_eq_some_iff.mp found
  have narrowScope := width_le_iff.mp narrow index scope isScope
  exact (Scope.width_le_iff.mp narrowScope).2 _ (Table.mem_of_get? binds)

theorem width_of_localFunction?
    (narrow : forest.width ≤ bound) {index : ScopeId} {name : Text}
    {function : Function}
    (found : forest.localFunction? index name = some function) :
    function.width ≤ bound := by
  obtain ⟨scope, isScope, defines⟩ := Option.bind_eq_some_iff.mp found
  have narrowScope := width_le_iff.mp narrow index scope isScope
  exact (Scope.width_le_iff.mp narrowScope).1 _ (Table.mem_of_get? defines)

theorem width_of_value?
    (narrow : forest.width ≤ bound) {index : ScopeId} {name : Text}
    {value : Value} (found : forest.value? index name = some value) :
    value.width ≤ bound := by
  obtain ⟨owner, _, binds⟩ := List.exists_of_findSome?_eq_some found
  exact width_of_localVariable? narrow binds

theorem width_of_resolveVariable
    (narrow : forest.width ≤ bound) {index owner : ScopeId} {name : Text}
    {value : Value}
    (found : forest.resolveVariable index name = some (value, owner)) :
    value.width ≤ bound := by
  obtain ⟨scope, _, mapped⟩ := List.exists_of_findSome?_eq_some found
  obtain ⟨bound, binds, same⟩ := Option.map_eq_some_iff.mp mapped
  cases same
  exact width_of_localVariable? narrow binds

theorem width_of_resolveFunction
    (narrow : forest.width ≤ bound) {index owner : ScopeId} {name : Text}
    {function : Function}
    (found : forest.resolveFunction index name = some (function, owner)) :
    function.width ≤ bound := by
  obtain ⟨scope, _, mapped⟩ := List.exists_of_findSome?_eq_some found
  obtain ⟨defined, defines, same⟩ := Option.map_eq_some_iff.mp mapped
  cases same
  exact width_of_localFunction? narrow defines

end Forest

theorem Value.width_of_kind {value : Value} (plain : value.kind ≠ .closure) :
    value.width = 0 := by
  cases value with
  | closure arrow => exact absurd rfl plain
  | _ => rfl

namespace Evaluation

theorem width_of_nameValue
    {machine : Machine} {bound : Nat} (narrow : machine.forest.width ≤ bound)
    {scope : ScopeId} {name : Text} {value : Value}
    (found : nameValue machine scope name = .ok value) :
    value.width ≤ bound := by
  unfold nameValue at found
  split at found
  · next held =>
      cases found
      exact Forest.width_of_value? narrow held
  split at found
  · cases found
    exact Nat.zero_le bound
  split at found
  · cases found
    exact Nat.zero_le bound
  · cases found

/-- The callee of a call is no wider than the widest function. -/
theorem width_of_resolveCallee
    {forest : Forest} {bound : Nat} (narrow : forest.width ≤ bound)
    {caller owner : ScopeId} {name : Text} {function : Function}
    (found : resolveCallee forest caller name = .ok (function, owner)) :
    function.width ≤ bound := by
  unfold resolveCallee at found
  split at found
  · next resolved =>
      cases found
      exact Forest.width_of_resolveFunction narrow resolved
  split at found
  · next held =>
      cases found
      exact Forest.width_of_resolveVariable narrow held
  · cases found

end Evaluation

/-! ## Widths of statements -/

theorem Statement.length_le_of_mem_sources
    {statement : Statement} {source : Text}
    (member : source ∈ statement.sources) :
    source.length ≤ statement.width := by
  have widestBounds {texts : List Text} (found : source ∈ texts) :
      source.length ≤ widest texts :=
    widest_le_iff.mp (Nat.le_refl _) source found
  cases statement with
  | write template arguments newline => exact widestBounds member
  | system template arguments => exact widestBounds member
  | declare | declareBool | assign | expression =>
      rw [List.mem_singleton.mp member]
      exact Nat.le_refl _
  | _ => cases member

/-- A store makes no forest wider than the statement and the value are. -/
theorem Statement.width_store_le
    {bound : Nat} {forest : Forest} (narrow : forest.width ≤ bound)
    {statement : Statement} (short : statement.width ≤ bound) {value : Value}
    (narrowValue : value.width ≤ bound) (mode : AssignmentMode)
    (scope : ScopeId) :
    (statement.store mode scope value forest).width ≤ bound := by
  have sets (name : Text) :=
    Forest.width_setVariable_le narrow scope name narrowValue
  have assigns (name : Text) :=
    Forest.width_assignEnclosing_le narrow scope name narrowValue
  cases statement with
  | arrow closure =>
      have defines := Forest.width_setFunction_le narrow scope short
      exact Forest.width_setVariable_le defines scope closure.name short
  | declare name typeText expression => exact sets name
  | declareBool name expression => exact sets name
  | declareList name elements => exact sets name
  | step name direction =>
      cases mode with
      | shadow => exact sets name
      | enclosing => exact assigns name
  | assign name expression =>
      cases mode with
      | shadow => exact sets name
      | enclosing => exact assigns name
  | _ => exact narrow

theorem ClosureBody.lines_le (body : ClosureBody) :
    body.lines.length ≤ body.source.length + 1 ∧
      ∀ line ∈ body.lines, line.length ≤ body.source.length + 8 := by
  cases body with
  | expression source =>
      refine ⟨Nat.succ_le_succ (Nat.zero_le _), fun line member => ?_⟩
      have shorter := length_trim_le source
      have added : "return ".toList.length = 7 := by decide
      rw [List.mem_singleton.mp member]
      simp only [ClosureBody.source, List.length_append, List.length_cons,
        List.length_nil, added]
      omega
  | block source =>
      constructor
      · simp only [lines, ClosureBody.source, List.length_map]
        exact Nat.le_trans (List.length_filter_le _ _)
          (count_splitTopLevel_le ';' source)
      · intro line member
        obtain ⟨statement, kept, rfl⟩ := List.mem_map.mp member
        have shorter := length_of_mem_splitTopLevel (List.mem_filter.mp kept).1
        unfold terminated
        split
        · exact Nat.le_add_right_of_le shorter
        · rw [List.length_append]
          exact Nat.add_le_add shorter (by decide)

theorem Closure.width_function_le (closure : Closure) :
    closure.function.width ≤ closure.body.source.length + 8 := by
  obtain ⟨counted, shorter⟩ := closure.body.lines_le
  exact Function.width_le_iff.mpr ⟨Nat.le_trans counted (by omega), shorter⟩

namespace Statement

theorem length_splitReturnType_le (source : Text) :
    (splitReturnType source).2.length ≤ source.length := by
  have shorter :
      (trimStart (source.dropWhile isNameChar)).length ≤ source.length :=
    Nat.le_trans (length_trimStart_le _)
      (List.dropWhile_sublist isNameChar).length_le
  unfold splitReturnType
  dsimp only
  split
  · split
    · exact Nat.le_refl _
    · exact shorter
  · exact Nat.le_refl _

theorem length_of_readArrowBody
    {statement source : Text} {body : ClosureBody}
    (reads : readArrowBody statement source = .ok body) :
    body.source.length ≤ source.length := by
  unfold readArrowBody at reads
  split at reads
  · cases reads
  · next rest =>
      split at reads
      · next block dropped =>
          cases reads
          have whole := length_of_dropEnd? dropped
          have shorter := length_trim_le block
          simp only [ClosureBody.source, List.length_cons]
          omega
      · cases reads
  · cases reads
    exact Nat.le_refl _

/-- The body of an arrow function is shorter than what follows its first bar, by
three characters at least. -/
theorem length_of_readArrow
    {statement name afterBar : Text} {closure : Closure}
    (reads : readArrow statement name afterBar = .ok closure) :
    closure.body.source.length + 3 ≤ afterBar.length := by
  unfold readArrow at reads
  split at reads
  · cases reads
  · next list rest cutBar =>
      obtain ⟨parameters, _, reads⟩ := exists_ok_of_bind reads
      split at reads
      · cases reads
      · next afterArrow dropped =>
          obtain ⟨body, isBody, reads⟩ := exists_ok_of_bind reads
          cases reads
          have atBar := length_of_cut cutBar
          have atRest := length_trimStart_le rest
          have atArrow := length_of_dropStart? dropped
          have atSource := length_trimStart_le afterArrow
          have atType := length_splitReturnType_le (trimStart afterArrow)
          have atBody :
              body.source.length ≤
                (splitReturnType (trimStart afterArrow)).2.length :=
            length_of_readArrowBody isBody
          have added : "=>".toList.length = 2 := by decide
          show body.source.length + 3 ≤ afterBar.length
          omega

theorem width_of_readVar
    {statement rest : Text} {found : Statement}
    (reads : readVar statement rest = .ok found) :
    found.width ≤ rest.length + 3 := by
  unfold readVar at reads
  split at reads
  · cases reads
  · next left right cutEquals =>
      have whole := length_of_cut cutEquals
      have shorter := length_trim_le right
      dsimp only at reads
      split at reads
      · next afterBar isArrow =>
          rw [isArrow, List.length_cons] at shorter
          split at reads
          · obtain ⟨closure, isClosure, same⟩ := exists_ok_of_bind reads
            cases same
            have body := length_of_readArrow isClosure
            have function := closure.width_function_le
            simp only [Statement.width]
            omega
          · cases reads
      · split at reads
        · cases reads
        · split at reads
          · cases reads
            simp only [Statement.width]
            omega
          · cases reads

theorem length_of_readBinding
    {statement rest name expression : Text}
    (reads : readBinding statement rest = .ok (name, expression)) :
    expression.length ≤ rest.length := by
  unfold readBinding at reads
  split at reads
  · cases reads
  · next left right cutEquals =>
      have whole := length_of_cutTopLevelFrom cutEquals
      have shorter := length_trim_le right
      dsimp only at reads
      split at reads
      · cases reads
        omega
      · cases reads

theorem width_of_readTemplate
    {missing : Malformation} {make : Text → List Text → Statement}
    {inner : Text} {found : Statement}
    (reads : readTemplate missing make inner = .ok found)
    (narrow : ∀ template arguments,
      (make template arguments).width = widest (template :: arguments)) :
    found.width ≤ inner.length := by
  unfold readTemplate at reads
  split at reads
  · cases reads
  · next template arguments pieces =>
      cases reads
      rw [narrow, widest_le_iff, ← pieces]
      exact fun piece member => length_of_mem_splitTopLevel member

theorem width_of_readConsole?
    {body : Text} {found : Statement}
    (reads : readConsole? body = some (.ok found)) :
    found.width ≤ body.length := by
  unfold readConsole? at reads
  dsimp only at reads
  split at reads
  · next inner isInner =>
      have whole := length_of_callInner? isInner
      have part := width_of_readTemplate (Option.some.inj reads) fun _ _ => rfl
      omega
  · split at reads
    · next inner isInner =>
        have whole := length_of_callInner? isInner
        have part :=
          width_of_readTemplate (Option.some.inj reads) fun _ _ => rfl
        omega
    · obtain ⟨inner, isInner, reads⟩ := Option.map_eq_some_iff.mp reads
      have whole := length_of_callInner? isInner
      have part := width_of_readTemplate reads fun _ _ => rfl
      omega

theorem width_of_readList
    {statement rest : Text} {found : Statement}
    (reads : readList statement rest = .ok found) :
    found.width = 0 := by
  obtain ⟨binding, _, reads⟩ := exists_ok_of_bind reads
  dsimp only at reads
  split at reads
  · cases reads
    rfl
  · cases reads

theorem length_of_assignment?
    {body name expression : Text}
    (found : assignment? body = some (name, expression)) :
    expression.length ≤ body.length := by
  obtain ⟨⟨left, right⟩, cutEquals, same⟩ := Option.bind_eq_some_iff.mp found
  have whole := length_of_cutAssignmentFrom cutEquals
  have shorter := length_trim_le right
  dsimp only at same
  split at same
  · cases same
    omega
  · cases same

theorem width_readPlain_le (body : Text) :
    (readPlain body).width ≤ body.length := by
  unfold readPlain
  split
  · exact Nat.zero_le _
  split
  · exact Nat.zero_le _
  split
  · next name arguments found =>
      refine widest_le_iff.mpr fun argument member => ?_
      exact Nat.le_of_lt (length_of_splitCall? found argument member)
  split
  · exact Nat.zero_le _
  split
  · next found => exact length_of_assignment? found
  · exact Nat.le_refl _

/-- A statement is no wider than its text is long. -/
theorem width_of_readBody
    {statement body : Text} {found : Statement}
    (reads : readBody statement body = .ok found) :
    found.width ≤ body.length := by
  unfold readBody at reads
  split at reads
  · next rest isRest =>
      cases reads
      have whole := length_of_afterWord? isRest
      have shorter := length_trim_le rest
      split
      · exact Nat.zero_le _
      · simp only [Statement.width]
        omega
  split at reads
  · next result isConsole =>
      rw [reads] at isConsole
      exact width_of_readConsole? isConsole
  split at reads
  · next rest isRest =>
      have whole := length_of_afterWord? isRest
      have part := width_of_readVar reads
      have added : "var".toList.length = 3 := by decide
      omega
  split at reads
  · next rest isRest =>
      have whole := length_of_afterWord? isRest
      obtain ⟨⟨name, expression⟩, isBinding, same⟩ := exists_ok_of_bind reads
      cases same
      have part := length_of_readBinding isBinding
      simp only [Statement.width]
      omega
  split at reads
  · rw [width_of_readList reads]
    exact Nat.zero_le _
  · cases reads
    exact width_readPlain_le body

/-- What a statement runs or leaves to be run is no longer than the
statement. -/
theorem width_of_read
    {source : Text} {found : Statement} (reads : read source = .ok found) :
    found.width ≤ source.length := by
  unfold read at reads
  dsimp only at reads
  split at reads
  · cases reads
    exact Nat.zero_le _
  split at reads
  · cases reads
    exact Nat.zero_le _
  · have part := width_of_readBody reads
    have atEnd :=
      length_trimEnd_le ((dropEnd? [';'] (trim source)).getD (trim source))
    have shorter := length_trim_le source
    cases dropped : dropEnd? [';'] (trim source) with
    | none =>
        rw [dropped, Option.getD_none] at atEnd part
        omega
    | some rest =>
        rw [dropped, Option.getD_some] at atEnd part
        have whole := length_of_dropEnd? dropped
        omega

end Statement

end LineScript
