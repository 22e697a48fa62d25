import LineScript.Proofs.Source.Header

/-!
Headers of functions as they are written, in both styles.  Whatever the name,
the parameters and the return type are, the written header is read back.
-/

namespace LineScript

open Text

namespace Text

theorem forall_mem_commaList
    (allowed : Char → Prop) (commaAllowed : allowed ',')
    (spaceAllowed : allowed ' ')
    {texts : List Text}
    (textsAllowed : ∀ text ∈ texts, ∀ character ∈ text, allowed character) :
    ∀ character ∈ commaList texts, allowed character := by
  induction texts with
  | nil => exact List.forall_mem_nil _
  | cons first others inductionHypothesis =>
      rcases List.forall_mem_cons.mp textsAllowed
        with ⟨firstAllowed, othersAllowed⟩
      by_cases single : others = []
      · rw [single, commaList_singleton]
        exact firstAllowed
      · have later := inductionHypothesis othersAllowed
        rw [commaList_cons first single]
        exact List.forall_mem_append.mpr ⟨firstAllowed,
          List.forall_mem_cons.mpr
            ⟨commaAllowed, List.forall_mem_cons.mpr ⟨spaceAllowed, later⟩⟩⟩

/-- A text in which neither quotes nor brackets nor commas stand. -/
def Unbroken (text : Text) : Prop :=
  ∀ character ∈ text, Nesting.isPlain character ∧ character ≠ ','

theorem Unbroken.run_start {text : Text} (unbroken : Unbroken text) :
    Separator.comma.scan.run .start text = some .start := by
  apply Scan.run_of_ignored
  intro character member
  rcases unbroken character member with ⟨plain, notComma⟩
  exact Separator.step_of_isPlain rfl plain notComma

theorem exists_cuts_commaList
    {texts : List Text} (nonempty : texts ≠ [])
    (unbroken : ∀ text ∈ texts, Unbroken text)
    (solid : ∀ text ∈ texts, Solid text) :
    ∃ pieces, Cuts ',' .start (commaList texts) pieces ∧
      pieces.map trim = texts := by
  induction texts with
  | nil => exact absurd rfl nonempty
  | cons first others inductionHypothesis =>
      rcases List.forall_mem_cons.mp unbroken
        with ⟨unbrokenFirst, unbrokenOthers⟩
      rcases List.forall_mem_cons.mp solid with ⟨solidFirst, solidOthers⟩
      by_cases single : others = []
      · refine ⟨[first], ?_, ?_⟩
        · rw [single, commaList_singleton]
          exact Separator.comma.cuts_last unbrokenFirst.run_start
        · rw [single, List.map_singleton, solidFirst.trimmed]
      · rcases inductionHypothesis single unbrokenOthers solidOthers
          with ⟨pieces, cuts, trimmed⟩
        rcases cuts.exists_cons with ⟨second, later, rfl⟩
        have passed : ¬ (Nesting.start.exposes ',' ∧ ' ' = ',') := by decide
        refine ⟨first :: (' ' :: second) :: later, ?_, ?_⟩
        · rw [commaList_cons first single]
          exact Separator.comma.cuts_more unbrokenFirst.run_start
            (cuts.cons passed)
        · rw [List.map_cons, List.map_cons, trim_space_cons, ← List.map_cons,
            trimmed, solidFirst.trimmed]

/-- Texts without quotes, brackets and commas can be listed and are read
back. -/
theorem listable_of_unbroken
    {texts : List Text} (unbroken : ∀ text ∈ texts, Unbroken text)
    (solid : ∀ text ∈ texts, Solid text) : Listable texts := by
  by_cases empty : texts = []
  · rw [empty]
    exact listable_nil
  · constructor
    · refine ⟨⟨.outside, 1⟩, Scan.run_of_ignored ?_, rfl⟩
      intro character member
      apply roundStep_of_isPlain rfl
      apply forall_mem_commaList (fun character => Nesting.isPlain character)
        (by decide)
        (by decide) _ character member
      intro text isText other inText
      exact (unbroken text isText other inText).1
    · rcases exists_cuts_commaList empty unbroken solid
        with ⟨pieces, cuts, trimmed⟩
      have notBlank : trim (commaList texts) ≠ [] := by
        rw [(solid_commaList empty solid).trimmed]
        exact (solid_commaList empty solid).nonempty
      rw [splitTopLevel_of_trim_ne_nil notBlank, cuts.topLevelPieces_eq,
        trimmed]

theorem closeParen_bracketed
    {texts : List Text} (listable : Listable texts) (rest : Text) :
    closeParen (bracketed texts ++ rest) =
      some ('(' :: commaList texts, rest) := by
  rcases listable.enclosed with ⟨reached, read, stops⟩
  have opened :
      roundScan.run ⟨.outside, 0⟩ ('(' :: commaList texts) = some reached :=
        read
  have closed := Scan.stop_append opened stops rest
  rw [closeParen, closeParenFrom_eq_stop, ← closed, bracketed]
  simp

end Text

def Parameter.declaration (parameter : Parameter) : Text :=
  parameter.name ++ ':' :: ' ' :: parameter.tag.text

section Parameters

variable {parameter : Parameter} (named : isName parameter.name)

include named

theorem solid_declaration : Solid parameter.declaration where
  trimmed := by
    have shape : parameter.declaration =
        (parameter.name ++ [':', ' ']) ++ parameter.tag.text := by
      simp [Parameter.declaration]
    apply trim_of_tight
    · rw [Parameter.declaration]
      exact trimStart_append (trimStart_of_trimmed (trim_name named))
        (name_ne_nil named) _
    · rw [shape]
      have trimmedTag : trim parameter.tag.text = parameter.tag.text := by
        cases parameter.tag <;> rfl
      have nonemptyTag :
          parameter.tag.text ≠ [] := by cases parameter.tag <;> decide
      exact tight_append _ nonemptyTag (tight_of_trimmed trimmedTag)
  nonempty := by simp [Parameter.declaration]

theorem unbroken_declaration : Unbroken parameter.declaration := by
  have word :
      ∀ {text : Text}, (∀ character ∈ text, isNameChar character) →
      Unbroken text := by
    intro text isWord character member
    have nameChar := isWord character member
    exact ⟨Nesting.isPlain_of_isNameChar nameChar,
      ne_of_isNameChar nameChar (by decide)⟩
  have unbrokenName := word (isNameChar_of_mem_name named)
  have unbrokenTag :=
    word (Statement.isNameChar_of_mem_returns (.value parameter.tag))
  refine List.forall_mem_append.mpr ⟨unbrokenName, ?_⟩
  refine List.forall_mem_cons.mpr ⟨by decide, ?_⟩
  exact List.forall_mem_cons.mpr ⟨by decide, unbrokenTag⟩

theorem readParameter_declaration (number : Nat) :
    Header.readParameter number parameter.declaration = .ok parameter := by
  have noColon : ':' ∉ parameter.name := not_mem_name named (by decide)
  have reads :
      TypeTag.read (' ' :: parameter.tag.text) = .ok parameter.tag := by
    cases parameter.tag <;> rfl
  rw [Header.readParameter, Parameter.declaration, cut_append noColon]
  simp only [trim_name named, named, if_true, reads]

end Parameters

theorem mapM_readParameter
    {parameters : List Parameter}
    (named : ∀ parameter ∈ parameters, isName parameter.name) (number : Nat) :
    (parameters.map Parameter.declaration).mapM (Header.readParameter number) =
      .ok parameters := by
  induction parameters with
  | nil => rfl
  | cons first others inductionHypothesis =>
      rcases List.forall_mem_cons.mp named with ⟨namedFirst, namedOthers⟩
      rw [List.map_cons, List.mapM_cons, readParameter_declaration namedFirst,
        inductionHypothesis namedOthers]
      rfl

theorem listable_declarations
    {parameters : List Parameter}
    (named : ∀ parameter ∈ parameters, isName parameter.name) :
    Listable (parameters.map Parameter.declaration) := by
  apply listable_of_unbroken
  · intro text member
    rcases List.mem_map.mp member with ⟨parameter, isParameter, rfl⟩
    exact unbroken_declaration (named parameter isParameter)
  · intro text member
    rcases List.mem_map.mp member with ⟨parameter, isParameter, rfl⟩
    exact solid_declaration (named parameter isParameter)

/-! ## Headers -/

namespace Header

def word (style : HeaderStyle) (returns : ReturnType) : Text :=
  match style, returns with
  | .typed, .void => "fn".toList
  | .typed, .value tag => tag.text
  | .keyword, _ => "function".toList

def promise (style : HeaderStyle) (returns : ReturnType) : Text :=
  match style, returns with
  | .keyword, .value tag => ' ' :: '-' :: '>' :: ' ' :: tag.text
  | _, _ => []

def text (header : Header) : Text :=
  word header.style header.returns ++ ' ' ::
    (header.name ++
      (bracketed (header.parameters.map Parameter.declaration) ++
        (promise header.style header.returns ++ [' ', '{'])))

def openingOf (style : HeaderStyle) (returns : ReturnType) : Opening :=
  match style with
  | .typed => .typed returns
  | .keyword => .keyword

section Words

variable (style : HeaderStyle) (returns : ReturnType)

theorem ofWord?_word :
    Opening.ofWord? (word style returns) = some (openingOf style returns) := by
  rcases style with _ | _ <;> rcases returns with _ | tag
  · rfl
  · cases tag <;> rfl
  · rfl
  · rfl

theorem styleOf_openingOf : styleOf (openingOf style returns) = style := by
  cases style <;> rfl

theorem isNameChar_of_mem_word :
    ∀ character ∈ word style returns, isNameChar character := by
  apply List.all_eq_true.mp
  rcases style with _ | _ <;> rcases returns with _ | tag
  · rfl
  · cases tag <;> rfl
  · rfl
  · rfl

/-- The return type is read back from between the bracket and the brace. -/
theorem readReturns_promise (number : Nat) (line : Text) :
    ∃ tail, dropEnd? ['{'] (trim (promise style returns ++ [' ', '{'])) =
      some tail ∧
      readReturns number line (openingOf style returns) (trim tail) =
        .ok returns := by
  rcases style with _ | _ <;> rcases returns with _ | tag
  · exact ⟨[], rfl, rfl⟩
  · exact ⟨[], rfl, rfl⟩
  · exact ⟨[], rfl, rfl⟩
  · refine ⟨'-' :: '>' :: ' ' :: (tag.text ++ [' ']), ?_, ?_⟩
    · cases tag <;> rfl
    · cases tag <;> rfl

end Words

/-- A header can be written down if its names are names. -/
structure Named (header : Header) : Prop where
  name : isName header.name
  parameters : ∀ parameter ∈ header.parameters, isName parameter.name

/-- A header is read back from its opening bracket on. -/
theorem readFrom_text
    {header : Header} (named : header.Named) (number : Nat) (line : Text) :
    readFrom number line (openingOf header.style header.returns) header.name
        (bracketed (header.parameters.map Parameter.declaration) ++
          (promise header.style header.returns ++ [' ', '{'])) =
      .ok header := by
  have listable := listable_declarations named.parameters
  rcases readReturns_promise header.style header.returns number line with
    ⟨tail, dropped, isReturns⟩
  have areParameters :
      readParameters number
        (commaList (header.parameters.map Parameter.declaration)) =
        .ok header.parameters := by
    rw [readParameters, listable.split, mapM_readParameter named.parameters]
  rw [readFrom, closeParen_bracketed listable]
  simp only [dropped, isReturns, List.drop_succ_cons, List.drop_zero,
    areParameters, styleOf_openingOf]
  rfl

/-- The first word of a line ends at its first blank. -/
theorem first_word
    {word : Text} (isWord : ∀ character ∈ word, isNameChar character)
    (rest : Text) :
    (word ++ ' ' :: rest).takeWhile (fun character => !isBlank character) =
      word ∧
      (word ++ ' ' :: rest).dropWhile (fun character => !isBlank character) =
        ' ' :: rest := by
  have notBlank : ∀ character ∈ word, !isBlank character := by
    intro character member
    simpa using not_isBlank_of_isNameChar (isWord character member)
  rw [List.takeWhile_append_of_pos notBlank,
    List.dropWhile_append_of_pos notBlank]
  exact ⟨List.append_nil word, rfl⟩

/-- A header word, a name and a bracket make a line a header. -/
theorem read?_spelled
    {word name : Text} {opening : Opening}
    (isWord : ∀ character ∈ word, isNameChar character)
    (opens : Opening.ofWord? word = some opening) (named : isName name)
    (number : Nat) (inner : Text) :
    read? number (word ++ ' ' :: (name ++ '(' :: inner)) =
      (readFrom number (word ++ ' ' :: (name ++ '(' :: inner)) opening name
        ('(' :: inner)).map
        some := by
  rcases first_word isWord (name ++ '(' :: inner) with ⟨taken, dropped⟩
  have start :
      trimStart (' ' :: (name ++ '(' :: inner)) = name ++ '(' :: inner := by
    rw [trimStart_cons_of_blank (by decide)]
    exact trimStart_append (trimStart_of_trimmed (trim_name named))
      (name_ne_nil named) _
  have spanned := spanName_append named (show ¬ isNameChar '(' by decide) inner
  have nonempty : name.isEmpty = false := by simpa using name_ne_nil named
  have bracket : trimStart ('(' :: inner) = '(' :: inner :=
    trimStart_cons_of_not_blank (by decide) inner
  rw [read?, taken, opens]
  simp only [dropped, start, spanned, nonempty, bracket]

/-- A written header is read back. -/
theorem read?_text {header : Header} (named : header.Named) (number : Nat) :
    read? number header.text = .ok (some header) := by
  have reads := readFrom_text named number header.text
  rw [text, bracketed, List.cons_append] at reads ⊢
  rw [read?_spelled (isNameChar_of_mem_word _ _) (ofWord?_word _ _) named.name,
    reads]
  rfl

theorem solid_text (header : Header) : Solid header.text where
  trimmed := by
    have shape : header.text =
        (word header.style header.returns ++ ' ' ::
          (header.name ++
            (bracketed (header.parameters.map Parameter.declaration) ++
              (promise header.style header.returns ++ [' '])))) ++ ['{'] := by
      simp [text]
    have start : trimStart (word header.style header.returns) =
        word header.style header.returns ∧
          word header.style header.returns ≠ [] := by
      rcases header.style with _ | _ <;> rcases header.returns with _ | tag
      · decide
      · cases tag <;> decide
      · decide
      · exact ⟨rfl, List.cons_ne_nil _ _⟩
    apply trim_of_tight
    · rw [text]
      exact trimStart_append start.1 start.2 _
    · rw [shape]
      exact tight_concat _ (by decide)
  nonempty := by simp [text]

/-- A character of words or one of the signs between the words of a header. -/
def isSpelling (character : Char) : Bool :=
  isNameChar character ||
    [' ', '(', ')', ',', ':', '-', '>', '{'].contains character

/-- A written header consists of words and of the signs between them. -/
theorem isSpelling_of_mem_text {header : Header} (named : header.Named) :
    ∀ character ∈ header.text, isSpelling character := by
  have fromWord : ∀ {text : Text}, (∀ character ∈ text, isNameChar character) →
      ∀ character ∈ text, isSpelling character := by
    intro text isWord character member
    rw [isSpelling, isWord character member, Bool.true_or]
  have fromTag : ∀ tag :
      TypeTag, ∀ character ∈ tag.text, isSpelling character :=
    fun tag => fromWord (Statement.isNameChar_of_mem_returns (.value tag))
  have inParameters :
      ∀ character ∈ commaList (header.parameters.map Parameter.declaration),
      isSpelling character := by
    apply forall_mem_commaList (fun character => isSpelling character) rfl rfl
    intro text member
    rcases List.mem_map.mp member with ⟨parameter, isParameter, rfl⟩
    have inName :=
      fromWord (isNameChar_of_mem_name (named.parameters parameter isParameter))
    refine List.forall_mem_append.mpr ⟨inName, ?_⟩
    refine List.forall_mem_cons.mpr ⟨rfl, ?_⟩
    exact List.forall_mem_cons.mpr ⟨rfl, fromTag parameter.tag⟩
  have inPromise :
      ∀ character ∈ promise header.style header.returns,
        isSpelling character := by
    rcases header.style with _ | _ <;> rcases header.returns with _ | tag
    · exact List.forall_mem_nil _
    · exact List.forall_mem_nil _
    · exact List.forall_mem_nil _
    · have arrow : ∀ character ∈ [' ', '-', '>', ' '], isSpelling character :=
        List.all_eq_true.mp rfl
      exact List.forall_mem_append.mpr ⟨arrow, fromTag tag⟩
  have inWord := fromWord (isNameChar_of_mem_word header.style header.returns)
  have inName := fromWord (isNameChar_of_mem_name named.name)
  simp only [text, bracketed, List.forall_mem_append, List.forall_mem_cons,
    List.not_mem_nil, false_implies, implies_true, and_true]
  exact ⟨inWord, rfl, inName, ⟨rfl, inParameters, rfl⟩, inPromise, rfl, rfl⟩

end Header
end LineScript
