import LineScript.Proofs.Statement.Named

/-!
The well-formed statements are the ones that lines say: the canonical text of a
well-formed statement says it, and every statement that is read from a line is
well-formed.
-/

namespace LineScript

open Text

theorem solid_trim {text : Text} (nonempty : trim text ≠ []) :
    Solid (trim text) :=
  ⟨trim_trim text, nonempty⟩

namespace Statement

/-- The canonical text of a well-formed statement says the statement. -/
theorem WellFormed.read_text
    {statement : Statement} (wellFormed : statement.WellFormed) :
    read statement.text = .ok statement := by
  cases wellFormed with
  | empty => rfl
  | comment => rfl
  | returnsNothing => rfl
  | returns solid => exact read_returns solid
  | write newline listable =>
      cases newline with
      | true => exact read_write listable
      | false => exact read_writef listable
  | system listable => exact read_system listable
  | arrow named parameters body => exact read_arrow named parameters body
  | declare named trimmed noEquals solid noBar =>
      exact read_declare named trimmed noEquals solid noBar
  | declareBool named solid => exact read_declareBool named solid
  | declareList named trimmed noComma notBlank =>
      exact read_declareList named trimmed noComma notBlank
  | blockOpen keyword => cases keyword <;> rfl
  | blockClose => rfl
  | call named listable => exact read_call named listable
  | step direction named =>
      cases direction with
      | increment =>
          exact read_step named isOperator_plus (step?_increment named)
      | decrement =>
          exact read_step named isOperator_minus (step?_decrement named)
  | assign named trimmed => exact read_assign named trimmed
  | @expression source trimmed noComment plain =>
      have start := trimStart_of_trimmed trimmed
      have tight := tight_of_trimmed trimmed
      exact (read_concat_of_tight source start noComment tight).trans (plain _)

variable {quoted rest : Text} {statement : Statement}

theorem exists_of_readTemplate
    {head body inner : Text} {missing : Malformation}
    {make : Text → List Text → Statement}
    (isCall : callInner? head body = some inner)
    (found : readTemplate missing make inner = .ok statement) :
    ∃ template arguments,
      Listable (template :: arguments) ∧
        statement = make template arguments := by
  have listable := (enclosed_of_callInner? isCall).listable
  rw [readTemplate] at found
  split at found
  · cases found
  · next template arguments pieces =>
      cases found
      rw [pieces] at listable
      exact ⟨template, arguments, listable, rfl⟩

theorem wellFormed_of_readConsole?
    {body : Text} (found : readConsole? body = some (.ok statement)) :
    statement.WellFormed := by
  simp only [readConsole?] at found
  split at found
  · next inner isCall =>
      obtain ⟨template, arguments, listable, rfl⟩ :=
        exists_of_readTemplate isCall (Option.some.inj found)
      exact .write false listable
  · split at found
    · next inner isCall =>
        obtain ⟨template, arguments, listable, rfl⟩ :=
          exists_of_readTemplate isCall (Option.some.inj found)
        exact .write true listable
    · obtain ⟨inner, isCall, read⟩ := Option.map_eq_some_iff.mp found
      obtain ⟨template, arguments, listable, rfl⟩ :=
        exists_of_readTemplate isCall read
      exact .system listable

/-! ## Declarations -/

theorem named_of_readBinding
    {name value : Text} (found : readBinding quoted rest = .ok (name, value)) :
    isName name ∧ Solid value := by
  rw [readBinding] at found
  split at found
  · cases found
  · next left right _ =>
      dsimp only at found
      split at found
      · next accepted =>
          cases found
          obtain ⟨named, nonempty⟩ := Bool.and_eq_true_iff.mp accepted
          exact ⟨named, solid_trim (by simpa using nonempty)⟩
      · cases found

theorem wellFormed_of_readList (found : readList quoted rest = .ok statement) :
    statement.WellFormed := by
  rw [readList] at found
  obtain ⟨⟨name, value⟩, isBinding, found⟩ := exists_ok_of_bind found
  have named := (named_of_readBinding isBinding).1
  dsimp only at found
  split at found
  · next inner _ =>
      cases found
      rw [readElements]
      split
      · exact .declareList named (by simp) (by simp) (by simp)
      · next notBlank =>
          apply WellFormed.declareList named
          · intro element member
            obtain ⟨piece, _, rfl⟩ := List.mem_map.mp member
            exact trim_trim piece
          · intro element member
            obtain ⟨piece, isPiece, rfl⟩ := List.mem_map.mp member
            exact fun comma =>
              not_mem_of_mem_splitOn isPiece (mem_of_mem_trim comma)
          · intro single
            obtain ⟨piece, isPiece, blank⟩ :=
              List.map_eq_singleton_iff.mp single
            rw [eq_of_splitOn_singleton isPiece] at blank
            rw [blank] at notBlank
            exact notBlank rfl
  · cases found

theorem named_of_readArrowParameter
    {source : Text} {parameter : Parameter}
    (found : readArrowParameter source = .ok parameter) :
    isName parameter.name := by
  rw [readArrowParameter] at found
  split at found
  · cases found
  · dsimp only at found
    split at found
    · next named =>
        obtain ⟨tag, _, same⟩ := exists_ok_of_bind found
        cases same
        exact named
    · cases found

theorem forall_named_of_mapM
    {sources : List Text} {parameters : List Parameter}
    (found : sources.mapM readArrowParameter = .ok parameters) :
    ∀ parameter ∈ parameters, isName parameter.name := by
  induction sources generalizing parameters with
  | nil =>
      cases found
      simp
  | cons source sources inductionHypothesis =>
      rw [List.mapM_cons] at found
      obtain ⟨first, isFirst, found⟩ := exists_ok_of_bind found
      obtain ⟨others, areOthers, found⟩ := exists_ok_of_bind found
      cases found
      intro parameter member
      rcases List.mem_cons.mp member with rfl | later
      · exact named_of_readArrowParameter isFirst
      · exact inductionHypothesis areOthers parameter later

theorem forall_named_of_readArrowParameters
    {source : Text} {parameters : List Parameter}
    (found : readArrowParameters source = .ok parameters) :
    ∀ parameter ∈ parameters, isName parameter.name := by
  simp only [readArrowParameters] at found
  split at found
  · cases found
    simp
  · exact forall_named_of_mapM found

theorem splitReturnType_suffix (source : Text) :
    (splitReturnType source).2 <:+ source := by
  simp only [splitReturnType]
  split
  · split
    · exact List.suffix_refl source
    · exact (List.dropWhile_suffix _).trans (List.dropWhile_suffix _)
  · exact List.suffix_refl source

theorem trimStart_splitReturnType
    {source : Text} (start : trimStart source = source) :
    trimStart (splitReturnType source).2 = (splitReturnType source).2 := by
  simp only [splitReturnType]
  split
  · split
    · exact start
    · exact trimStart_trimStart _
  · exact start

theorem wellFormed_of_readArrowBody
    {source : Text} {body : ClosureBody} (start : trimStart source = source)
    (tight : Tight source)
    (found : readArrowBody quoted source = .ok body) : body.WellFormed := by
  rw [readArrowBody.eq_def] at found
  split at found
  · cases found
  · split at found
    · next block _ =>
        cases found
        exact .block (trim_trim block)
    · cases found
  · next source notEmpty notBlock =>
      cases found
      refine .expression ⟨trim_of_tight start tight, notEmpty⟩ ?_
      intro isBrace
      obtain ⟨others, rfl⟩ := List.head?_eq_some_iff.mp isBrace
      exact notBlock others rfl

theorem wellFormed_of_readArrow
    {name afterBar : Text} {closure : Closure} (named : isName name)
    (tight : Tight afterBar)
    (found : readArrow quoted name afterBar = .ok closure) :
    (Statement.arrow closure).WellFormed := by
  rw [readArrow] at found
  split at found
  · cases found
  · next list rest isCut =>
      obtain ⟨parameters, areParameters, found⟩ := exists_ok_of_bind found
      split at found
      · cases found
      · next afterArrow isArrow =>
          obtain ⟨body, isBody, found⟩ := exists_ok_of_bind found
          cases found
          have start :=
            trimStart_splitReturnType (trimStart_trimStart afterArrow)
          -- The body is an ending of the whole text, so no blank follows it.
          have restTight : Tight rest := by
            apply tight.of_suffix
            rw [(eq_append_of_cut isCut).1]
            exact (List.suffix_cons _ _).trans (List.suffix_append _ _)
          have arrowTight : Tight afterArrow := by
            apply (restTight.of_suffix
              (List.dropWhile_suffix isBlank)).of_suffix
            exact ⟨_, (eq_append_of_dropStart? isArrow).symm⟩
          have bodyTight :
              Tight (splitReturnType (trimStart afterArrow)).2 := by
            apply (arrowTight.of_suffix
              (List.dropWhile_suffix isBlank)).of_suffix
            exact splitReturnType_suffix (trimStart afterArrow)
          exact .arrow named (forall_named_of_readArrowParameters areParameters)
            (wellFormed_of_readArrowBody start bodyTight isBody)

theorem wellFormed_of_readVar (found : readVar quoted rest = .ok statement) :
    statement.WellFormed := by
  rw [readVar] at found
  split at found
  · cases found
  · next left right isCut =>
      dsimp only at found
      split at found
      · next afterBar isArrow =>
          split at found
          · next named =>
              obtain ⟨closure, isClosure, same⟩ := exists_ok_of_bind found
              cases same
              have tight := tight_trim right
              rw [isArrow] at tight
              exact wellFormed_of_readArrow named
                (tight.of_suffix (List.suffix_cons _ _)) isClosure
          · cases found
      · next notArrow =>
          split at found
          · cases found
          · next before typeText isTyped =>
              split at found
              · next accepted =>
                  cases found
                  obtain ⟨named, nonempty⟩ := Bool.and_eq_true_iff.mp accepted
                  have noEquals : '=' ∉ trim typeText := by
                    intro inType
                    have inTarget : '=' ∈ trim left := by
                      rw [(eq_append_of_cut isTyped).1]
                      have inRest :=
                        List.mem_cons_of_mem ':' (mem_of_mem_trim inType)
                      exact List.mem_append_right _ inRest
                    exact (eq_append_of_cut isCut).2 (mem_of_mem_trim inTarget)
                  refine .declare named (trim_trim typeText) noEquals
                    (solid_trim (by simpa using nonempty)) ?_
                  intro isBar
                  obtain ⟨others, isOthers⟩ := List.head?_eq_some_iff.mp isBar
                  exact notArrow others isOthers
              · cases found

theorem wellFormed_of_splitCall?
    {body name : Text} {arguments : List Text}
    (found : splitCall? body = some (name, arguments)) :
    (Statement.call name arguments).WellFormed := by
  simp only [splitCall?] at found
  split at found
  · cases found
  · next nonempty =>
      obtain ⟨inner, isCall, same⟩ := Option.map_eq_some_iff.mp found
      cases same
      have named := isName_spanName (by simpa using nonempty)
      exact .call named (enclosed_of_callInner? isCall).listable

theorem wellFormed_of_step?
    {body name : Text} {direction : Step}
    (found : step? body = some (name, direction)) :
    (Statement.step name direction).WellFormed := by
  obtain ⟨⟨source, tried⟩, _, isFound⟩ := List.exists_of_findSome?_eq_some found
  obtain ⟨kept, isKept, same⟩ := Option.map_eq_some_iff.mp isFound
  cases same
  exact .step direction (Option.filter_eq_some_iff.mp isKept).2

theorem wellFormed_of_assignment?
    {body name value : Text} (found : assignment? body = some (name, value)) :
    (Statement.assign name value).WellFormed := by
  obtain ⟨⟨left, right⟩, _, isFound⟩ := Option.bind_eq_some_iff.mp found
  dsimp only at isFound
  split at isFound
  · next named =>
      cases isFound
      exact .assign named (trim_trim right)
  · cases isFound

theorem wellFormed_of_readPlain
    {body : Text} (trimmed : trim body = body)
    (noComment : startsWith "//".toList body = false)
    (isPlain : ∀ quoted, readBody quoted body = .ok statement)
    (found : readPlain body = statement) : statement.WellFormed := by
  rw [readPlain] at found
  split at found
  · next keyword _ =>
      cases found
      exact .blockOpen keyword
  · split at found
    · cases found
      exact .blockClose
    · split at found
      · next isCall =>
          cases found
          exact wellFormed_of_splitCall? isCall
      · split at found
        · next isStep =>
            cases found
            exact wellFormed_of_step? isStep
        · split at found
          · next isAssignment =>
              cases found
              exact wellFormed_of_assignment? isAssignment
          · cases found
            exact .expression trimmed noComment isPlain

/-- Every statement that a body is read as is well formed. -/
theorem wellFormed_of_readBody
    {body : Text} (trimmed : trim body = body)
    (noComment : startsWith "//".toList body = false)
    (found : readBody quoted body = .ok statement) : statement.WellFormed := by
  rw [readBody] at found
  split at found
  · next rest _ =>
      cases found
      split
      · exact .returnsNothing
      · next nonempty => exact .returns (solid_trim (by simpa using nonempty))
  · next noReturn =>
    split at found
    · next result isConsole =>
        rw [found] at isConsole
        exact wellFormed_of_readConsole? isConsole
    · next noConsole =>
      split at found
      · exact wellFormed_of_readVar found
      · next noVar =>
        split at found
        · obtain ⟨⟨name, value⟩, isBinding, same⟩ := exists_ok_of_bind found
          cases same
          obtain ⟨named, solid⟩ := named_of_readBinding isBinding
          exact .declareBool named solid
        · next noBool =>
          split at found
          · exact wellFormed_of_readList found
          · next noList =>
              have isPlain :
                  ∀ quoted, readBody quoted body = .ok statement := by
                intro quoted
                simp only [readBody, noReturn, noConsole, noVar, noBool, noList,
                  found]
              exact wellFormed_of_readPlain trimmed noComment isPlain
                (Except.ok.inj found)

/-- Reading gives well-formed statements only. -/
theorem wellFormed_of_read
    {source : Text} (found : read source = .ok statement) :
    statement.WellFormed := by
  simp only [read] at found
  split at found
  · cases found
    exact .empty
  · split at found
    · cases found
      exact .comment
    · next comment =>
        -- What is left of the line without its semicolon is a part of it from the start on.
        obtain ⟨ending, withEnding⟩ :=
          exists_append_of_dropEnd? [';'] (trim source)
        obtain ⟨blanks, withBlanks⟩ :=
          exists_append_of_trimEnd
            ((dropEnd? [';'] (trim source)).getD (trim source))
        rw [withBlanks, List.append_assoc] at withEnding
        have start := trimStart_trim source
        rw [withEnding] at start comment
        apply wellFormed_of_readBody _ _ found
        · exact trim_of_tight (trimStart_of_append start) (tight_trimEnd _)
        · apply Bool.eq_false_iff.mpr
          intro starts
          exact comment (startsWith_append starts _)

/-- A statement that is read from some line is read from its canonical text
again. -/
theorem read_canonical_text
    (source : Text) (statement : Statement)
    (found : read source = .ok statement) :
    read statement.text = .ok statement :=
  (wellFormed_of_read found).read_text

/-- An arrow function with two parameters and no return type written. -/
def loose : Closure where
  name := "f".toList
  parameters := [⟨"a".toList, .int64⟩, ⟨"b".toList, .string⟩]
  returns := .void
  body := .expression "g(a,b)".toList

theorem read_loose :
    read "  var f=|Int64:a ,String :  b|=>g(a,b) ;".toList =
      .ok (.arrow loose) :=
  rfl

/-- An arrow function with blanks in odd places and no return type has a
canonical text, which is read as the same. -/
theorem read_canonical_text_of_loose :
    read "  var f=|Int64:a ,String :  b|=>g(a,b) ;".toList =
      .ok (.arrow loose) ∧
      (Statement.arrow loose).text =
        "var f = |Int64: a, String: b| => void g(a,b);".toList ∧
      read (Statement.arrow loose).text = .ok (.arrow loose) :=
  ⟨read_loose, rfl, read_canonical_text _ _ read_loose⟩

end Statement
end LineScript
