import LineScript.Proofs.Text.Pieces
import LineScript.Statement.Reader

/-!
The canonical text of a statement, and the statements whose canonical text is
read back.
-/

namespace LineScript

open Text

def Parameter.text (parameter : Parameter) : Text :=
  parameter.tag.text ++ ':' :: ' ' :: parameter.name

def parameterList (parameters : List Parameter) : Text :=
  if parameters.isEmpty then
    ['&']
  else
    commaList (parameters.map Parameter.text)

def ClosureBody.text : ClosureBody → Text
  | expression source => source
  | block source => '{' :: ' ' :: (source ++ [' ', '}'])

def Closure.afterBar (closure : Closure) : Text :=
  parameterList closure.parameters ++
    '|' :: ' ' :: '=' :: '>' :: ' ' ::
      (closure.returns.text ++ ' ' :: closure.body.text)

def binding (target value : Text) : Text :=
  target ++ ' ' :: '=' :: ' ' :: value

def bracketed (texts : List Text) : Text :=
  '(' :: (commaList texts ++ [')'])

/-- The canonical text of a statement. -/
def Statement.text : Statement → Text
  | empty => []
  | comment => "//".toList
  | returns none => "return".toList ++ [';']
  | returns (some value) => "return ".toList ++ value ++ [';']
  | write template arguments true =>
      "console.write".toList ++ bracketed (template :: arguments) ++ [';']
  | write template arguments false =>
      "console.writef".toList ++ bracketed (template :: arguments) ++ [';']
  | system template arguments =>
      "console.system".toList ++ bracketed (template :: arguments) ++ [';']
  | arrow closure =>
      "var ".toList ++ binding closure.name ('|' :: closure.afterBar) ++ [';']
  | declare name typeText value =>
      "var ".toList ++ binding (name ++ ':' :: ' ' :: typeText) value ++ [';']
  | declareBool name value => "bool ".toList ++ binding name value ++ [';']
  | declareList name elements =>
      "list ".toList ++
        binding name ('[' :: (commaList elements ++ [']'])) ++ [';']
  | blockOpen keyword => keyword.text ++ [' ', '{']
  | blockClose => ['}']
  | call name arguments => name ++ bracketed arguments ++ [';']
  | step name .increment => name ++ "++".toList ++ [';']
  | step name .decrement => name ++ "--".toList ++ [';']
  | assign name value => name ++ "= ".toList ++ value ++ [';']
  | expression source => source ++ [';']

/-! ## Well-formed statements -/

/-- A text without blanks around it that is not empty. -/
structure Solid (text : Text) : Prop where
  trimmed : trim text = text
  nonempty : text ≠ []

inductive ClosureBody.WellFormed : ClosureBody → Prop
  | expression {source : Text} (solid : Solid source)
      (noBlock : source.head? ≠ some '{') :
      WellFormed (.expression source)
  | block {source : Text} (trimmed : trim source = source) :
      WellFormed (.block source)

theorem solid_cons
    {first : Char} {rest : Text} (notBlank : ¬ isBlank first)
    (tight : Tight (first :: rest)) :
    Solid (first :: rest) :=
  ⟨trim_of_tight (trimStart_cons_of_not_blank notBlank rest) tight,
    List.cons_ne_nil first rest⟩

theorem solid_commaList
    {texts : List Text} (nonempty : texts ≠ [])
    (solid : ∀ text ∈ texts, Solid text) :
    Solid (commaList texts) := by
  induction texts with
  | nil => exact absurd rfl nonempty
  | cons first others inductionHypothesis =>
      obtain ⟨solidFirst, solidOthers⟩ := List.forall_mem_cons.mp solid
      by_cases single : others = []
      · rw [single, commaList_singleton]
        exact solidFirst
      · have later := inductionHypothesis single solidOthers
        rw [commaList_cons first single]
        refine ⟨trim_of_tight ?_ ?_, by simp⟩
        · exact trimStart_append
            (trimStart_of_trimmed solidFirst.trimmed) solidFirst.nonempty _
        · have tight := tight_of_trimmed later.trimmed
          simpa using tight_append (first ++ [',', ' ']) later.nonempty tight

theorem ClosureBody.WellFormed.solid
    {body : ClosureBody} (wellFormed : body.WellFormed) :
    Solid body.text := by
  cases wellFormed with
  | expression solid _ => exact solid
  | @block source _ =>
      apply solid_cons (by decide)
      have notBlank : ¬ isBlank '}' := by decide
      simpa using tight_concat ('{' :: ' ' :: (source ++ [' '])) notBlank

namespace Statement

/-- The statements that a line of text can say. -/
inductive WellFormed : Statement → Prop
  | empty : WellFormed .empty
  | comment : WellFormed .comment
  | returnsNothing : WellFormed (.returns none)
  | returns {value : Text} (solid : Solid value) :
      WellFormed (.returns (some value))
  | write {template : Text} {arguments : List Text} (newline : Bool)
      (listable : Listable (template :: arguments)) :
      WellFormed (.write template arguments newline)
  | system {template : Text} {arguments : List Text}
      (listable : Listable (template :: arguments)) :
      WellFormed (.system template arguments)
  | arrow {closure : Closure} (named : isName closure.name)
      (parameters : ∀ parameter ∈ closure.parameters, isName parameter.name)
      (body : closure.body.WellFormed) : WellFormed (.arrow closure)
  | declare {name typeText expression : Text} (named : isName name)
      (trimmed : trim typeText = typeText) (noEquals : '=' ∉ typeText)
      (solid : Solid expression) (noBar : expression.head? ≠ some '|') :
      WellFormed (.declare name typeText expression)
  | declareBool {name expression : Text} (named : isName name)
      (solid : Solid expression) :
      WellFormed (.declareBool name expression)
  | declareList {name : Text} {elements : List Text} (named : isName name)
      (trimmed : ∀ element ∈ elements, trim element = element)
      (noComma : ∀ element ∈ elements, ',' ∉ element)
        (notBlank : elements ≠ [[]]) :
      WellFormed (.declareList name elements)
  | blockOpen (keyword : BlockKeyword) : WellFormed (.blockOpen keyword)
  | blockClose : WellFormed .blockClose
  | call {name : Text} {arguments : List Text} (named : isName name)
      (listable : Listable arguments) : WellFormed (.call name arguments)
  | step {name : Text} (direction : Step) (named : isName name) :
      WellFormed (.step name direction)
  | assign {name expression : Text} (named : isName name)
      (trimmed : trim expression = expression) :
      WellFormed (.assign name expression)
  | expression {source : Text} (trimmed : trim source = source)
      (noComment : startsWith "//".toList source = false)
      (plain : ∀ statement, readBody statement source =
        .ok (.expression source)) :
      WellFormed (.expression source)

theorem noComment_concat
    {text : Text} (noComment : startsWith "//".toList text = false) :
    startsWith "//".toList (text ++ [';']) = false := by
  match text with
  | [] => rfl
  | [first] =>
      by_cases slash : '/' = first
      · rw [← slash]
        rfl
      · simp [startsWith, dropStart?, slash]
  | first :: second :: rest =>
      by_cases slash : '/' = first
      · by_cases slashAgain : '/' = second
        · rw [← slash, ← slashAgain] at noComment
          cases noComment
        · simp [startsWith, dropStart?, slashAgain]
      · simp [startsWith, dropStart?, slash]

/-- A semicolon at the end is dropped, with the blanks before it. -/
theorem read_concat
    {text : Text} (start : trimStart text = text)
    (noComment : startsWith "//".toList text = false) :
    read (text ++ [';']) = readBody (text ++ [';']) (trimEnd text) := by
  have nonempty : text ++ [';'] ≠ [] := by simp
  have startAll : trimStart (text ++ [';']) = text ++ [';'] := by
    by_cases empty : text = []
    · rw [empty]
      rfl
    · exact trimStart_append start empty [';']
  have trimmed : trim (text ++ [';']) = text ++ [';'] :=
    trim_of_tight startAll (tight_concat text (by decide))
  simp only [read, trimmed, noComment_concat noComment, dropEnd?_append,
    Option.getD_some]
  rw [if_neg (by simp), if_neg (by simp)]

theorem read_concat_of_tight
    (text : Text) (start : trimStart text = text)
    (noComment : startsWith "//".toList text = false) (tight : Tight text) :
    read (text ++ [';']) = readBody (text ++ [';']) text := by
  rw [read_concat start noComment, tight.trimEnd_eq]

theorem read_returns {value : Text} (solid : Solid value) :
    read ("return ".toList ++ value ++ [';']) =
      .ok (.returns (some value)) := by
  have tight :=
    tight_append "return ".toList solid.nonempty
      (tight_of_trimmed solid.trimmed)
  have reads : ∀ quoted, readBody quoted ("return ".toList ++ value) =
      .ok (.returns
        (if (trim (' ' :: value)).isEmpty then none else some
          (trim (' ' :: value)))) :=
    fun _ => rfl
  rw [read_concat_of_tight _ rfl rfl tight, reads, trim_space_cons,
    solid.trimmed, if_neg (by simpa using solid.nonempty)]

section Console

variable {template : Text} {arguments : List Text}

theorem tight_bracketed (head : Text) (texts : List Text) :
    Tight (head ++ bracketed texts) := by
  apply tight_append head (List.cons_ne_nil _ _)
  apply tight_concat ('(' :: commaList texts)
  decide

theorem callInner?_bracketed
    (head : Text) {texts : List Text} (listable : Listable texts) :
    callInner? head (head ++ bracketed texts) = some (commaList texts) :=
  callInner?_of_enclosed head listable.enclosed

theorem readTemplate_listable
    (missing : Malformation) (make : Text → List Text → Statement)
    (listable : Listable (template :: arguments)) :
    readTemplate missing make (commaList (template :: arguments)) =
      .ok (make template arguments) := by
  rw [readTemplate, listable.split]

/-- A call of the console is recognised before all other shapes but `return`. -/
theorem readBody_of_readConsole?
    {quoted body : Text} {result : Except Fault Statement}
    (noReturn : afterWord? "return".toList body = none)
    (found : readConsole? body = some result) :
    readBody quoted body = result := by
  rw [readBody, noReturn, found]

theorem read_write (listable : Listable (template :: arguments)) :
    read ("console.write".toList ++ bracketed (template :: arguments) ++
      [';']) =
      .ok (.write template arguments true) := by
  have noWritef : callInner? "console.writef".toList
      ("console.write".toList ++ bracketed (template :: arguments)) =
        none := rfl
  rw [read_concat_of_tight _ rfl rfl (tight_bracketed _ _)]
  apply readBody_of_readConsole? rfl
  simp only [readConsole?, noWritef, callInner?_bracketed _ listable,
    readTemplate_listable _ _ listable]

theorem read_writef (listable : Listable (template :: arguments)) :
    read ("console.writef".toList ++ bracketed (template :: arguments) ++
      [';']) =
      .ok (.write template arguments false) := by
  rw [read_concat_of_tight _ rfl rfl (tight_bracketed _ _)]
  apply readBody_of_readConsole? rfl
  simp only [readConsole?, callInner?_bracketed _ listable,
    readTemplate_listable _ _ listable]

theorem read_system (listable : Listable (template :: arguments)) :
    read ("console.system".toList ++ bracketed (template :: arguments) ++
      [';']) =
      .ok (.system template arguments) := by
  have noWritef : callInner? "console.writef".toList
      ("console.system".toList ++ bracketed (template :: arguments)) =
        none := rfl
  have noWrite : callInner? "console.write".toList
      ("console.system".toList ++ bracketed (template :: arguments)) =
        none := rfl
  rw [read_concat_of_tight _ rfl rfl (tight_bracketed _ _)]
  apply readBody_of_readConsole? rfl
  simp only [readConsole?, noWritef, noWrite, callInner?_bracketed _ listable,
    Option.map_some, readTemplate_listable _ _ listable]

end Console

/-! ## Declarations -/

section Declarations

variable {name target value : Text}

theorem tight_binding (word : Text) (solid : Solid value) :
    Tight (word ++ binding target value) := by
  have tight := tight_of_trimmed solid.trimmed
  have shape :
      word ++ binding target value =
        (word ++ target ++ [' ', '=', ' ']) ++ value := by
    simp [binding]
  rw [shape]
  exact tight_append _ solid.nonempty tight

theorem space_binding (target value : Text) :
    ' ' :: binding target value =
      (' ' :: (target ++ [' '])) ++ '=' :: ' ' :: value := by
  simp [binding]

theorem trim_spaced_name (named : isName name) :
    trim (' ' :: (name ++ [' '])) = name := by
  rw [trim_space_cons, trim_concat_space (trim_name named)]

theorem cut_binding (noEquals : '=' ∉ target) (value : Text) :
    cut '=' (' ' :: binding target value) =
      some (' ' :: (target ++ [' ']), ' ' :: value) := by
  rw [space_binding]
  apply cut_append
  simpa using noEquals

theorem cutTopLevel_binding (named : isName name) (value : Text) :
    cutTopLevel '=' (' ' :: binding name value) =
      some (' ' :: (name ++ [' ']), ' ' :: value) := by
  have ignored : ∀ character ∈ ' ' :: (name ++ [' ']),
      Separator.equals.scan.step .start character = some .start := by
    intro character member
    simp only [List.mem_cons, List.mem_append, List.not_mem_nil,
      or_false] at member
    rcases member with rfl | inName | rfl
    · rfl
    · have nameChar := isNameChar_of_mem_name named character inName
      apply Separator.step_of_isPlain rfl
        (Nesting.isPlain_of_isNameChar nameChar)
      exact ne_of_isNameChar nameChar (by decide)
    · rfl
  have read := Scan.run_of_ignored ignored
  have stops : Separator.equals.scan.step .start '=' = none := rfl
  have found := Scan.stop_append read stops (' ' :: value)
  rw [space_binding, cutTopLevel, ← found]
  exact Separator.equals.cutTopLevelFrom_eq_stop _ _

theorem readBinding_binding
    (quoted : Text) (named : isName name) (solid : Solid value) :
    readBinding quoted (' ' :: binding name value) = .ok (name, value) := by
  have nonempty : value.isEmpty = false := by simpa using solid.nonempty
  simp only [readBinding, cutTopLevel_binding named, trim_spaced_name named,
    trim_space_cons value, solid.trimmed, named, nonempty, Bool.not_false,
    Bool.and_self, if_true]

theorem read_declareBool (named : isName name) (solid : Solid value) :
    read ("bool ".toList ++ binding name value ++ [';']) =
      .ok (.declareBool name value) := by
  have reads :
      ∀ quoted, readBody quoted ("bool ".toList ++ binding name value) =
      (readBinding quoted (' ' :: binding name value)).map fun bound =>
        .declareBool bound.1 bound.2 :=
    fun _ => rfl
  rw [read_concat_of_tight _ rfl rfl (tight_binding _ solid), reads,
    readBinding_binding _ named solid]
  rfl

theorem readElements_commaList
    {elements : List Text}
    (trimmed : ∀ element ∈ elements, trim element = element)
    (noComma : ∀ element ∈ elements, ',' ∉ element)
    (notBlank : elements ≠ [[]]) :
    readElements (commaList elements) = elements := by
  cases elements with
  | nil => rfl
  | cons first others =>
      have solid : trim (commaList (first :: others)) ≠ [] := by
        apply trim_commaList_ne_nil (List.cons_ne_nil _ _)
        intro text single empty
        cases single
        rw [trimmed first List.mem_cons_self] at empty
        rw [empty] at notBlank
        exact notBlank rfl
      have trimmedOthers : (others.map (' ' :: ·)).map trim = others := by
        rw [List.map_map, List.map_congr_left (g := id), List.map_id]
        intro text member
        rw [Function.comp, trim_space_cons,
          trimmed text (List.mem_cons_of_mem _ member), id]
      rw [readElements, if_neg (by simpa using solid),
        splitOn_commaList noComma, List.map_cons,
        trimmed first List.mem_cons_self, trimmedOthers]

theorem solid_list (elements : List Text) :
    Solid ('[' :: (commaList elements ++ [']'])) :=
  solid_cons (by decide) (tight_concat ('[' :: commaList elements) (by decide))

theorem read_declareList
    {elements : List Text} (named : isName name)
    (trimmed : ∀ element ∈ elements, trim element = element)
    (noComma : ∀ element ∈ elements, ',' ∉ element)
    (notBlank : elements ≠ [[]]) :
    read ("list ".toList ++
      binding name ('[' :: (commaList elements ++ [']'])) ++ [';']) =
      .ok (.declareList name elements) := by
  have solid := solid_list elements
  have reads : ∀ quoted,
      readBody quoted
        ("list ".toList ++
          binding name ('[' :: (commaList elements ++ [']']))) =
        readList quoted
          (' ' :: binding name ('[' :: (commaList elements ++ [']']))) :=
    fun _ => rfl
  have inside :
      (dropStart? ['['] ('[' :: (commaList elements ++ [']']))).bind
        (dropEnd? [']']) =
      some (commaList elements) :=
    dropEnd?_append [']'] (commaList elements)
  rw [read_concat_of_tight _ rfl rfl (tight_binding _ solid), reads, readList,
    readBinding_binding _ named solid]
  simp only [bind, Except.bind, inside,
    readElements_commaList trimmed noComma notBlank]
  rfl

theorem trim_typed (named : isName name) (typeText : Text) :
    trim (' ' :: ((name ++ ':' :: ' ' :: typeText) ++ [' '])) =
      name ++ ':' :: trimEnd (' ' :: typeText) := by
  have blank : isBlank ' ' := by decide
  have colon : ¬ isBlank ':' := by decide
  have start := trimStart_of_trimmed (trim_name named)
  rw [trim_space_cons, trim, List.append_assoc,
    trimStart_append start (name_ne_nil named), List.cons_append,
    trimEnd_append_of_not_blank name colon, trimEnd_concat_of_blank _ blank]

/-- A typed declaration is read back, unless its value looks like an arrow
function. -/
theorem readVar_declare
    (quoted : Text) {typeText : Text} (named : isName name)
    (trimmed : trim typeText = typeText)
    (noEquals : '=' ∉ typeText) (solid : Solid value)
    (noBar : value.head? ≠ some '|') :
    readVar quoted (' ' :: binding (name ++ ':' :: ' ' :: typeText) value) =
      .ok (.declare name typeText value) := by
  have noEqualsName : '=' ∉ name := not_mem_name named (by decide)
  have noEqualsTarget :
      '=' ∉ name ++ ':' :: ' ' :: typeText := by simp [noEqualsName, noEquals]
  have noColon : ':' ∉ name := not_mem_name named (by decide)
  have nonempty : value.isEmpty = false := by simpa using solid.nonempty
  simp only [readVar, cut_binding noEqualsTarget, trim_space_cons value,
    solid.trimmed, trim_typed named]
  split
  · exact absurd rfl noBar
  · simp only [cut_append noColon, trim_name named,
      trim_trimEnd_space_cons trimmed, named, nonempty, Bool.not_false,
      Bool.and_self, if_true]

theorem read_declare
    {typeText : Text} (named : isName name) (trimmed : trim typeText = typeText)
    (noEquals : '=' ∉ typeText) (solid : Solid value)
    (noBar : value.head? ≠ some '|') :
    read ("var ".toList ++ binding (name ++ ':' :: ' ' :: typeText) value ++
      [';']) =
      .ok (.declare name typeText value) := by
  rw [read_concat_of_tight _ rfl rfl (tight_binding _ solid)]
  exact readVar_declare _ named trimmed noEquals solid noBar

end Declarations

theorem readArrowParameter_space (source : Text) :
    readArrowParameter (' ' :: source) = readArrowParameter source := by
  have spaceNotColon : ' ' ≠ ':' := by decide
  rw [readArrowParameter, readArrowParameter, cut, if_neg spaceNotColon]
  cases cut ':' source with
  | none =>
      simp only [Option.map_none, trim_space_cons]
  | some parts =>
      simp only [Option.map_some, TypeTag.read, trim_space_cons]

theorem readArrowParameter_text
    {parameter : Parameter} (named : isName parameter.name) :
    readArrowParameter parameter.text = .ok parameter := by
  obtain ⟨name, tag⟩ := parameter
  have noColon : ':' ∉ tag.text := by cases tag <;> decide
  have reads : TypeTag.read tag.text = .ok tag := by cases tag <;> rfl
  have namedHere : isName name := named
  simp only [readArrowParameter, Parameter.text, cut_append noColon,
    trim_space_cons, trim_name namedHere, namedHere, if_true, reads]
  rfl

theorem mapM_readArrowParameter
    {parameters : List Parameter}
    (named : ∀ parameter ∈ parameters, isName parameter.name) :
    (parameters.map fun parameter => ' ' :: parameter.text).mapM
      readArrowParameter =
      .ok parameters := by
  induction parameters with
  | nil => rfl
  | cons first others inductionHypothesis =>
      obtain ⟨namedFirst, namedOthers⟩ := List.forall_mem_cons.mp named
      rw [List.map_cons, List.mapM_cons, readArrowParameter_space,
        readArrowParameter_text namedFirst, inductionHypothesis namedOthers]
      rfl

theorem solid_parameter
    {parameter : Parameter} (named : isName parameter.name) :
    Solid parameter.text where
  trimmed := by
    have tight := tight_of_trimmed (trim_name named)
    have shape :
        parameter.text =
          (parameter.tag.text ++ [':', ' ']) ++ parameter.name := by
      simp [Parameter.text]
    apply trim_of_tight
    · rw [Parameter.text]
      cases parameter.tag <;> rfl
    · rw [shape]
      exact tight_append _ (name_ne_nil named) tight
  nonempty := by simp [Parameter.text]

theorem isNameChar_of_mem_returns (returns : ReturnType) :
    ∀ character ∈ returns.text, isNameChar character := by
  apply List.all_eq_true.mp
  cases returns with
  | void => rfl
  | value tag => cases tag <;> rfl

theorem not_mem_parameter
    {parameter : Parameter} (named : isName parameter.name) {character : Char}
    (other : ¬ isNameChar character) (notColon : character ≠ ':')
    (notSpace : character ≠ ' ') :
    character ∉ parameter.text := by
  have notInTag : character ∉ parameter.tag.text := fun member =>
    other (isNameChar_of_mem_returns (.value parameter.tag) character member)
  have notInName := not_mem_name named other
  simp [Parameter.text, notInTag, notColon, notSpace, notInName]

section Parameters

variable {parameters : List Parameter}
  (named : ∀ parameter ∈ parameters, isName parameter.name)

include named

theorem not_mem_parameterList : '|' ∉ parameterList parameters := by
  rw [parameterList]
  split
  · decide
  · apply not_mem_commaList (by decide) (by decide)
    intro text member
    obtain ⟨parameter, isParameter, rfl⟩ := List.mem_map.mp member
    exact not_mem_parameter (named parameter isParameter) (by decide)
      (by decide) (by decide)

theorem readArrowParameters_parameterList :
    readArrowParameters (parameterList parameters) = .ok parameters := by
  cases parameters with
  | nil => rfl
  | cons first others =>
      obtain ⟨namedFirst, namedOthers⟩ := List.forall_mem_cons.mp named
      have solid :
          Solid (commaList ((first :: others).map Parameter.text)) := by
        apply solid_commaList (by simp)
        intro text member
        obtain ⟨parameter, isParameter, rfl⟩ := List.mem_map.mp member
        exact solid_parameter (named parameter isParameter)
      have noComma :
          ∀ text ∈ (first :: others).map Parameter.text, ',' ∉ text := by
        intro text member
        obtain ⟨parameter, isParameter, rfl⟩ := List.mem_map.mp member
        exact not_mem_parameter (named parameter isParameter) (by decide)
          (by decide) (by decide)
      have nonempty :
          (commaList ((first :: others).map Parameter.text)).isEmpty =
            false := by
        simpa using solid.nonempty
      have notAmpersand :
          (commaList ((first :: others).map Parameter.text) == ['&']) =
            false := by
        apply beq_false_of_ne
        intro ampersand
        have colon :
            ':' ∈ commaList ((first :: others).map Parameter.text) := by
          obtain ⟨rest, shape⟩ :=
            exists_commaList_cons first.text (others.map Parameter.text)
          rw [List.map_cons, shape, Parameter.text]
          simp
        rw [ampersand] at colon
        exact absurd colon (by decide)
      have shape : parameterList (first :: others) =
          commaList ((first :: others).map Parameter.text) := rfl
      simp only [readArrowParameters, shape, solid.trimmed, nonempty,
        notAmpersand, Bool.or_self, Bool.false_eq_true, if_false]
      rw [List.map_cons] at noComma ⊢
      rw [splitOn_commaList noComma, List.mapM_cons,
        readArrowParameter_text namedFirst, List.map_map]
      have later := mapM_readArrowParameter namedOthers
      rw [show (' ' :: ·) ∘ Parameter.text = fun parameter => ' ' :: parameter.text from rfl,
        later]
      rfl

end Parameters

theorem splitReturnType_text
    (returns : ReturnType) {body : Text} (solid : Solid body) :
    splitReturnType (returns.text ++ ' ' :: body) = (returns, body) := by
  have isWord := isNameChar_of_mem_returns returns
  have notName : ¬ isNameChar ' ' := by decide
  have blank : isBlank ' ' := by decide
  have known : ReturnType.ofText? returns.text = some returns := by
    cases returns with
    | void => rfl
    | value tag => cases tag <;> rfl
  have nonempty : body.isEmpty = false := by simpa using solid.nonempty
  simp only [splitReturnType, List.takeWhile_append_of_pos isWord,
    List.dropWhile_append_of_pos isWord, List.takeWhile_cons_of_neg notName,
    List.dropWhile_cons_of_neg notName, List.append_nil, known,
    trimStart_cons_of_blank blank, trimStart_of_trimmed solid.trimmed, nonempty,
    Bool.false_eq_true, if_false]

theorem readArrowBody_text
    (quoted : Text) {body : ClosureBody} (wellFormed : body.WellFormed) :
    readArrowBody quoted body.text = .ok body := by
  cases wellFormed with
  | @expression source solid noBlock =>
      rw [ClosureBody.text, readArrowBody.eq_def]
      split
      · exact absurd rfl solid.nonempty
      · exact absurd rfl noBlock
      · rfl
  | @block source trimmed =>
      have dropped : dropEnd? ['}'] (' ' :: (source ++ [' ', '}'])) =
          some (' ' :: (source ++ [' '])) := by
        simpa using dropEnd?_append ['}'] (' ' :: (source ++ [' ']))
      simp only [ClosureBody.text, readArrowBody, dropped, trim_space_cons,
        trim_concat_space trimmed]

/-- An arrow function is read back from its first bar on. -/
theorem readArrow_afterBar
    (quoted : Text) {closure : Closure}
    (named : ∀ parameter ∈ closure.parameters, isName parameter.name)
    (body : closure.body.WellFormed) :
    readArrow quoted closure.name closure.afterBar = .ok closure := by
  have afterArrow : ∀ rest : Text,
      dropStart? "=>".toList (trimStart (' ' :: '=' :: '>' :: rest)) =
        some rest := fun _ => rfl
  have promise :
      trimStart (' ' :: (closure.returns.text ++ ' ' :: closure.body.text)) =
      closure.returns.text ++ ' ' :: closure.body.text := by
    cases closure.returns with
    | void => rfl
    | value tag => cases tag <;> rfl
  rw [readArrow, Closure.afterBar, cut_append (not_mem_parameterList named)]
  simp only [readArrowParameters_parameterList named, afterArrow, promise,
    splitReturnType_text closure.returns body.solid,
    readArrowBody_text quoted body, bind, Except.bind]
  rfl

/-- The canonical text of an arrow function is read as the arrow function. -/
theorem read_arrow
    {closure : Closure} (named : isName closure.name)
    (parameters : ∀ parameter ∈ closure.parameters, isName parameter.name)
    (body : closure.body.WellFormed) :
    read ("var ".toList ++ binding closure.name ('|' :: closure.afterBar) ++
      [';']) =
      .ok (.arrow closure) := by
  have solid : Solid ('|' :: closure.afterBar) := by
    have tight := tight_of_trimmed body.solid.trimmed
    apply solid_cons (by decide)
    simpa [Closure.afterBar] using tight_append ('|' :: (parameterList closure.parameters ++
      "| => ".toList ++ closure.returns.text ++ [' ']))
        body.solid.nonempty tight
  have noEquals : '=' ∉ closure.name := not_mem_name named (by decide)
  rw [read_concat_of_tight _ rfl rfl (tight_binding _ solid)]
  show readVar _ (' ' :: binding closure.name ('|' :: closure.afterBar)) = _
  simp only [readVar, cut_binding noEquals, trim_space_cons ('|' :: _),
    solid.trimmed, trim_spaced_name named, named, if_true,
    readArrow_afterBar _ parameters body]
  rfl

end Statement
end LineScript
