import LineScript.Proofs.Macro.Remark
import LineScript.Proofs.Source.HeaderText

/-!
The grammar of directives.

A line that starts like a directive is read by a grammar, and by no other: it
defines the macro it spells or forgets it, or it is malformed and changes
nothing.  The reader is more lenient than the grammar in two places: the name to
forget may follow `#undef` at once, and a parameter of a macro may be empty.
-/

namespace LineScript

namespace Text

def capitals : Text :=
  "ABCDEFGHIJKLMNOPQRSTUVWXYZ".toList

def letters : Text :=
  capitals ++ "abcdefghijklmnopqrstuvwxyz".toList

def digits : Text :=
  "0123456789".toList

/-- The text is one of the first characters and then any number of the
others. -/
def IsWordOf (first others text : Text) : Prop :=
  ∃ head tail, text = head :: tail ∧ head ∈ first ∧
    ∀ character ∈ tail, character ∈ others

/-- The names `[A-Za-z_][A-Za-z0-9_]*`. -/
def IsIdentifier (text : Text) : Prop :=
  IsWordOf (letters ++ ['_']) (letters ++ digits ++ ['_']) text

/-- The names `[A-Z_][A-Z0-9_]*`. -/
def IsMacroName (text : Text) : Prop :=
  IsWordOf (capitals ++ ['_']) (capitals ++ digits ++ ['_']) text

theorem mem_range'_iff
    {low size : Nat} (small : low + size ≤ 128) (character : Char) :
    character ∈ (List.range' low size).map Char.ofNat ↔
      low ≤ character.toNat ∧ character.toNat < low + size := by
  rw [List.mem_map]
  constructor
  · rintro ⟨code, inRange, rfl⟩
    have bounds := List.mem_range'_1.mp inRange
    have valid : code.isValidChar := .inl (by omega)
    rw [Char.ofNat, dif_pos valid]
    exact bounds
  · intro bounds
    exact ⟨character.toNat, List.mem_range'_1.mpr bounds,
      Char.ofNat_toNat character⟩

theorem mem_capitals_iff (character : Char) :
    character ∈ capitals ↔ 0x41 ≤ character.toNat ∧ character.toNat ≤ 0x5A := by
  have listed : capitals = (List.range' 0x41 26).map Char.ofNat := by decide
  rw [listed, mem_range'_iff (by decide)]
  omega

theorem isLetter_iff (character : Char) :
    isLetter character ↔ character ∈ letters := by
  have listed :
      "abcdefghijklmnopqrstuvwxyz".toList =
        (List.range' 0x61 26).map Char.ofNat := by
    decide
  rw [letters, List.mem_append, mem_capitals_iff, listed,
    mem_range'_iff (by decide)]
  simp only [isLetter, Bool.or_eq_true, Bool.and_eq_true, decide_eq_true_eq]
  omega

theorem isDigit_iff (character : Char) :
    isDigit character ↔ character ∈ digits := by
  have listed : digits = (List.range' 0x30 10).map Char.ofNat := by decide
  rw [listed, mem_range'_iff (by decide)]
  simp only [isDigit, Bool.and_eq_true, decide_eq_true_eq]
  omega

theorem isWordOf_cons_iff
    {first others : Text} {isFirst isOther : Char → Bool}
    (firstIff : ∀ character, isFirst character ↔ character ∈ first)
    (otherIff : ∀ character, isOther character ↔ character ∈ others)
    (head : Char) (tail : Text) :
    IsWordOf first others (head :: tail) ↔
      isFirst head && tail.all isOther := by
  rw [Bool.and_eq_true, List.all_eq_true, firstIff]
  constructor
  · rintro ⟨_, _, same, starts, goesOn⟩
    cases same
    exact ⟨starts, fun character member =>
      (otherIff character).mpr (goesOn character member)⟩
  · rintro ⟨starts, goesOn⟩
    exact ⟨head, tail, rfl, starts,
      fun character member => (otherIff character).mp (goesOn character member)⟩

theorem not_isWordOf_nil (first others : Text) :
    ¬ IsWordOf first others [] := by
  rintro ⟨_, _, impossible, _⟩
  cases impossible

/-- The names of the grammar are those of the language. -/
theorem isIdentifier_iff (text : Text) : IsIdentifier text ↔ isName text := by
  cases text with
  | nil => exact iff_of_false (not_isWordOf_nil _ _) Bool.false_ne_true
  | cons head tail =>
      apply isWordOf_cons_iff
      · intro character
        simp [isNameStart, isLetter_iff]
      · intro character
        simp [isNameChar, isLetter_iff, isDigit_iff, or_assoc]

/-- The name of a macro is an identifier. -/
theorem IsMacroName.isIdentifier {name : Text} (named : IsMacroName name) :
    IsIdentifier name := by
  obtain ⟨head, tail, rfl, starts, goesOn⟩ := named
  have wider {others : Text} {character : Char}
      (member : character ∈ capitals ++ others) :
      character ∈ letters ++ others := by
    rw [letters, List.mem_append, List.mem_append]
    rcases List.mem_append.mp member with capital | other
    · exact .inl (.inl capital)
    · exact .inr other
  refine ⟨head, tail, rfl, wider starts, fun character member => ?_⟩
  rw [List.append_assoc]
  apply wider
  rw [← List.append_assoc]
  exact goesOn character member

theorem IsMacroName.isName {name : Text} (named : IsMacroName name) :
    isName name :=
  (isIdentifier_iff name).mp named.isIdentifier

end Text

namespace Macro
namespace Directive

open Text

theorem isCapital_iff (character : Char) :
    isMacroName.isCapital character ↔ character ∈ capitals := by
  rw [mem_capitals_iff, isMacroName.isCapital, Bool.and_eq_true,
    decide_eq_true_eq, decide_eq_true_eq, Char.le_def, Char.le_def,
    UInt32.le_iff_toNat_le, UInt32.le_iff_toNat_le]
  rfl

theorem isMacroName_iff (text : Text) :
    IsMacroName text ↔ isMacroName text := by
  cases text with
  | nil => exact iff_of_false (not_isWordOf_nil _ _) Bool.false_ne_true
  | cons head tail =>
      have firstIff (character : Char) :
          isMacroName.isCapital character || character == '_' ↔
          character ∈ capitals ++ ['_'] := by
        simp [isCapital_iff]
      have otherIff (character : Char) : isMacroName.isMacroChar character ↔
          character ∈ capitals ++ digits ++ ['_'] := by
        simp [isMacroName.isMacroChar, isCapital_iff, isDigit_iff, or_assoc]
      exact isWordOf_cons_iff firstIff otherIff head tail

/-! ## The grammar -/

/-- What may be listed as a parameter: an identifier, or nothing at all if the
grammar is the lenient one. -/
def IsParameter (lenient : Bool) (name : Text) : Prop :=
  IsIdentifier name ∨ lenient ∧ name = []

/-- A text lists its parameters between commas, with blanks around each. -/
inductive Lists (lenient : Bool) : Text → List Text → Prop
  | last {before name after : Text} :
      (∀ character ∈ before, isBlank character) → IsParameter lenient name →
        (∀ character ∈ after, isBlank character) →
        Lists lenient (before ++ name ++ after) [name]
  | more {before name after rest : Text} {names : List Text} :
      (∀ character ∈ before, isBlank character) → IsParameter lenient name →
        (∀ character ∈ after, isBlank character) → Lists lenient rest names →
        Lists lenient (before ++ name ++ after ++ ',' :: rest) (name :: names)

/-- A text between the brackets of a macro: it is blank, or it lists
parameters. -/
def ListsAny (lenient : Bool) (list : Text) (parameters : List Text) : Prop :=
  ((∀ character ∈ list, isBlank character) ∧ parameters = []) ∨
    (¬ (∀ character ∈ list, isBlank character) ∧ Lists lenient list parameters)

/-- The line that spells a directive.  The lenient grammar allows empty
parameters and asks for no blank behind `#undef`. -/
inductive Spells (lenient : Bool) : Text → Directive → Prop
  | object {gap name after : Text} :
      gap ≠ [] → (∀ character ∈ gap, isBlank character) → IsMacroName name →
        (∀ character ∈ after.head?, isBlank character) →
        Spells lenient ("#define".toList ++ (gap ++ (name ++ after)))
          (.defineObject name (trim after))
  | function {gap name list body : Text} {parameters : List Text} :
      gap ≠ [] → (∀ character ∈ gap, isBlank character) → IsMacroName name →
        ListsAny lenient list parameters →
        Spells lenient
          ("#define".toList ++ (gap ++ (name ++ '(' :: (list ++ ')' :: body))))
          (.defineFunction name { parameters := parameters, body := trim body })
  | undefine {gap name : Text} :
      lenient ∨ gap ≠ [] → (∀ character ∈ gap, isBlank character) →
        IsMacroName name →
        Spells lenient ("#undef".toList ++ (gap ++ name)) (.undefine name)

def macroName : Directive → Text
  | defineObject name _ => name
  | defineFunction name _ => name
  | undefine name => name

theorem isParameter_iff (name : Text) :
    IsParameter true name ↔ isParameter name := by
  rw [IsParameter, isIdentifier_iff, isParameter, Bool.or_eq_true,
    List.isEmpty_iff, or_comm]
  simp

theorem IsParameter.isNameChar_of_mem
    {lenient : Bool} {name : Text} (isParameter : IsParameter lenient name) :
    ∀ character ∈ name, isNameChar character := by
  rcases isParameter with identifier | ⟨_, rfl⟩
  · exact isNameChar_of_mem_name ((isIdentifier_iff name).mp identifier)
  · intro character member
    cases member

theorem IsParameter.trim_eq
    {lenient : Bool} {name : Text} (isParameter : IsParameter lenient name) :
    trim name = name := by
  rcases isParameter with identifier | ⟨_, rfl⟩
  · exact trim_name ((isIdentifier_iff name).mp identifier)
  · rfl

section Padded

variable {lenient : Bool} {before name after : Text}
  (blanksBefore : ∀ character ∈ before, isBlank character)
    (isParameter : IsParameter lenient name)
  (blanksAfter : ∀ character ∈ after, isBlank character)

include blanksBefore isParameter blanksAfter

theorem trim_padded : trim (before ++ name ++ after) = name := by
  rw [trim_append_blanks blanksAfter, trim_append_of_blanks blanksBefore,
    isParameter.trim_eq]

theorem mem_padded
    {character : Char} (member : character ∈ before ++ name ++ after) :
    isBlank character ∨ isNameChar character := by
  rcases List.mem_append.mp member with inFront | behind
  · rcases List.mem_append.mp inFront with blank | named
    · exact .inl (blanksBefore character blank)
    · exact .inr (isParameter.isNameChar_of_mem character named)
  · exact .inl (blanksAfter character behind)

theorem unbroken_padded : Unbroken (before ++ name ++ after) := by
  intro character member
  rcases mem_padded blanksBefore isParameter blanksAfter member
    with blank | named
  · refine ⟨Nesting.isPlain_of_blank blank, ?_⟩
    rintro rfl
    cases blank
  · exact ⟨Nesting.isPlain_of_isNameChar named,
      ne_of_isNameChar named (by decide)⟩

end Padded

/-- The commas of a list of parameters are the separators at its top level. -/
theorem Lists.exists_cuts
    {lenient : Bool} {list : Text} {parameters : List Text}
    (lists : Lists lenient list parameters) :
    ∃ pieces, Cuts ',' .start list pieces ∧ pieces.map trim = parameters := by
  induction lists with
  | last blanksBefore isParameter blanksAfter =>
      have unbroken := unbroken_padded blanksBefore isParameter blanksAfter
      refine ⟨_, Separator.comma.cuts_last unbroken.run_start, ?_⟩
      rw [List.map_singleton, trim_padded blanksBefore isParameter blanksAfter]
  | more blanksBefore isParameter blanksAfter _ inductionHypothesis =>
      obtain ⟨pieces, cuts, trimmed⟩ := inductionHypothesis
      have unbroken := unbroken_padded blanksBefore isParameter blanksAfter
      refine ⟨_, Separator.comma.cuts_more unbroken.run_start cuts, ?_⟩
      rw [List.map_cons, trimmed,
        trim_padded blanksBefore isParameter blanksAfter]

theorem lists_of_cuts
    {nesting : Nesting} {list : Text} {pieces : List Text}
    (cuts : Cuts ',' nesting list pieces)
    (areParameters : ∀ piece ∈ pieces, IsParameter true (trim piece)) :
    Lists true list (pieces.map trim) := by
  induction cuts with
  | @last _ text _ =>
      obtain ⟨before, after, whole, blanksBefore, blanksAfter⟩ :=
        exists_blanks_around text
      have lists :=
        Lists.last blanksBefore
          (areParameters text List.mem_cons_self) blanksAfter
      rw [← whole] at lists
      exact lists
  | @more _ piece rest pieces _ _ _ inductionHypothesis =>
      obtain ⟨isFirst, areLater⟩ := List.forall_mem_cons.mp areParameters
      obtain ⟨before, after, whole, blanksBefore, blanksAfter⟩ :=
        exists_blanks_around piece
      have lists :=
        Lists.more blanksBefore isFirst blanksAfter
          (inductionHypothesis areLater)
      rw [← whole] at lists
      exact lists

theorem Lists.forall_isParameter
    {lenient : Bool} {list : Text} {parameters : List Text}
    (lists : Lists lenient list parameters) :
    ∀ parameter ∈ parameters, IsParameter lenient parameter := by
  induction lists with
  | last _ isParameter _ => exact List.forall_mem_singleton.mpr isParameter
  | more _ isParameter _ _ inductionHypothesis =>
      exact List.forall_mem_cons.mpr ⟨isParameter, inductionHypothesis⟩

theorem Lists.not_mem_closingParen
    {lenient : Bool} {list : Text} {parameters : List Text}
    (lists : Lists lenient list parameters) : ')' ∉ list := by
  have padded {before name after : Text}
      (blanksBefore : ∀ character ∈ before, isBlank character)
      (isParameter : IsParameter lenient name)
      (blanksAfter : ∀ character ∈ after, isBlank character) :
      ')' ∉ before ++ name ++ after := by
    intro member
    rcases mem_padded blanksBefore isParameter blanksAfter member
      with blank | named
    · cases blank
    · cases named
  induction lists with
  | last blanksBefore isParameter blanksAfter =>
      exact padded blanksBefore isParameter blanksAfter
  | more blanksBefore isParameter blanksAfter _ inductionHypothesis =>
      rw [List.mem_append, List.mem_cons, not_or, not_or]
      exact ⟨padded blanksBefore isParameter blanksAfter, by decide,
        inductionHypothesis⟩

theorem ListsAny.forall_isParameter
    {lenient : Bool} {list : Text} {parameters : List Text}
    (lists : ListsAny lenient list parameters) :
    ∀ parameter ∈ parameters, IsParameter lenient parameter := by
  rcases lists with ⟨_, rfl⟩ | ⟨_, lists⟩
  · intro parameter member
    cases member
  · exact lists.forall_isParameter

theorem ListsAny.not_mem_closingParen
    {lenient : Bool} {list : Text} {parameters : List Text}
    (lists : ListsAny lenient list parameters) : ')' ∉ list := by
  rcases lists with ⟨allBlank, _⟩ | ⟨_, lists⟩
  · intro member
    cases allBlank ')' member
  · exact lists.not_mem_closingParen

/-- A list is split into parameters just if it lists them. -/
theorem listsAny_iff (list : Text) (parameters : List Text) :
    ListsAny true list parameters ↔
      splitTopLevel ',' list = parameters ∧ parameters.all isParameter := by
  rw [List.all_eq_true]
  constructor
  · intro lists
    refine ⟨?_, fun parameter member =>
      (isParameter_iff parameter).mp
        (lists.forall_isParameter parameter member)⟩
    rcases lists with ⟨allBlank, rfl⟩ | ⟨notBlank, lists⟩
    · rw [splitTopLevel,
        if_pos (List.isEmpty_iff.mpr (trim_eq_nil_iff.mpr allBlank))]
    · obtain ⟨pieces, cuts, trimmed⟩ := lists.exists_cuts
      rw [splitTopLevel_of_trim_ne_nil (mt trim_eq_nil_iff.mp notBlank),
        cuts.topLevelPieces_eq, trimmed]
  · rintro ⟨rfl, areParameters⟩
    by_cases blank : trim list = []
    · refine .inl ⟨trim_eq_nil_iff.mp blank, ?_⟩
      rw [splitTopLevel, if_pos (List.isEmpty_iff.mpr blank)]
    · refine .inr ⟨mt trim_eq_nil_iff.mpr blank, ?_⟩
      rw [splitTopLevel_of_trim_ne_nil blank] at areParameters ⊢
      apply lists_of_cuts (cuts_topLevelPieces ',' .start list)
      intro piece isPiece
      exact (isParameter_iff _).mpr
        (areParameters _ (List.mem_map_of_mem isPiece))

/-! ## Reading what is spelled -/

theorem trimStart_gap
    {gap name : Text} (allBlank : ∀ character ∈ gap, isBlank character)
    (named : IsMacroName name)
    (after : Text) : trimStart (gap ++ (name ++ after)) = name ++ after := by
  have start := trimStart_of_trimmed (trim_name named.isName)
  have dropped :
      trimStart (gap ++ (name ++ after)) = trimStart (name ++ after) :=
    List.dropWhile_append_of_pos allBlank
  rw [dropped, trimStart_append start (name_ne_nil named.isName)]

theorem startsBlank_gap
    {gap : Text} (nonempty : gap ≠ [])
    (allBlank : ∀ character ∈ gap, isBlank character)
    (rest : Text) : startsBlank (gap ++ rest) := by
  obtain ⟨first, others, rfl⟩ := List.exists_cons_of_ne_nil nonempty
  exact allBlank first List.mem_cons_self

section Define

variable {gap name : Text} (nonempty : gap ≠ [])
  (allBlank : ∀ character ∈ gap, isBlank character) (named : IsMacroName name)

include nonempty allBlank named

theorem readDefine?_function (afterParen : Text) :
    readDefine? (gap ++ (name ++ '(' :: afterParen)) =
      readFunction? name afterParen := by
  have boundary :
      ∀ character ∈ ('(' :: afterParen).head?, ¬ isNameChar character := by
    rintro _ ⟨⟩
    decide
  obtain ⟨isName, isAfter⟩ :=
    span_of_maximal (isNameChar_of_mem_name named.isName) boundary
  unfold readDefine?
  dsimp only
  rw [if_pos (startsBlank_gap nonempty allBlank _),
    trimStart_gap allBlank named, isName, isAfter,
    if_pos ((isMacroName_iff name).mp named)]
  rfl

theorem readDefine?_object
    {after : Text} (apart : ∀ character ∈ after.head?, isBlank character) :
    readDefine? (gap ++ (name ++ after)) =
      some (.defineObject name (trim after)) := by
  have boundary : ∀ character ∈ after.head?, ¬ isNameChar character :=
    fun character first
    isNamed => not_isBlank_of_isNameChar isNamed (apart character first)
  obtain ⟨isName, isAfter⟩ :=
    span_of_maximal (isNameChar_of_mem_name named.isName) boundary
  have separate : after.isEmpty || startsBlank after := by
    cases after with
    | nil => rfl
    | cons first rest => exact apart first rfl
  unfold readDefine?
  dsimp only
  rw [if_pos (startsBlank_gap nonempty allBlank _),
    trimStart_gap allBlank named, isName, isAfter,
    if_pos ((isMacroName_iff name).mp named)]
  split
  · cases apart '(' rfl
  · rw [if_pos separate]

end Define

theorem read?_define (rest : Text) :
    read? ("#define".toList ++ rest) = some (readDefine? rest) := by
  rw [read?, dropStart?_append]

theorem read?_undefine (rest : Text) :
    read? ("#undef".toList ++ rest) = some (readUndefine? rest) := by
  have notDefine :
      dropStart? "#define".toList ("#undef".toList ++ rest) = none := rfl
  rw [read?, notDefine, dropStart?_append]
  rfl

/-- What the grammar spells is read as the directive that is spelled. -/
theorem read?_of_spells
    {line : Text} {directive : Directive}
    (spells : Spells true line directive) :
    read? line = some (some directive) := by
  cases spells with
  | object nonempty allBlank named apart =>
      rw [read?_define, readDefine?_object nonempty allBlank named apart]
  | @function gap name list body parameters nonempty allBlank named lists =>
      obtain ⟨split, areParameters⟩ := (listsAny_iff list parameters).mp lists
      rw [read?_define, readDefine?_function nonempty allBlank named,
        readFunction?, cut_append lists.not_mem_closingParen, Option.bind_some]
      dsimp only
      rw [split, if_pos areParameters]
  | @undefine gap name _ allBlank named =>
      rw [read?_undefine, readUndefine?, trim_append_of_blanks allBlank,
        trim_name named.isName, if_pos ((isMacroName_iff name).mp named)]

/-- A macro with parameters that is read is one that the grammar spells. -/
theorem spells_of_readFunction?
    {gap name afterParen : Text} {directive : Directive} (nonempty : gap ≠ [])
    (allBlank : ∀ character ∈ gap, isBlank character) (named : IsMacroName name)
    (read : readFunction? name afterParen = some directive) :
    Spells true
      ("#define".toList ++ (gap ++ (name ++ '(' :: afterParen))) directive := by
  obtain ⟨⟨list, body⟩, found, isRead⟩ := Option.bind_eq_some_iff.mp read
  obtain ⟨rfl, _⟩ := eq_append_of_cut found
  dsimp only at isRead
  split at isRead
  · next areParameters =>
      cases isRead
      exact .function nonempty allBlank named
        ((listsAny_iff list _).mpr ⟨rfl, areParameters⟩)
  · cases isRead

theorem spells_of_readDefine?
    {rest : Text} {directive : Directive}
    (read : readDefine? rest = some directive) :
    Spells true ("#define".toList ++ rest) directive := by
  obtain ⟨gap, whole, allBlank⟩ := exists_blanks_before rest
  unfold readDefine? at read
  split at read
  · next starts =>
      have nonempty : gap ≠ [] := by
        rintro rfl
        rw [List.nil_append] at whole
        cases rest with
        | nil => cases starts
        | cons first others => exact not_blank_of_trimStart whole.symm starts
      have cut : trimStart rest =
          (trimStart rest).takeWhile isNameChar ++
            (trimStart rest).dropWhile isNameChar :=
        List.takeWhile_append_dropWhile.symm
      rw [cut] at whole
      rw [whole]
      dsimp only at read
      generalize (trimStart rest).takeWhile isNameChar = name at read ⊢
      generalize (trimStart rest).dropWhile isNameChar = after at read ⊢
      split at read
      · next named =>
          have named := (isMacroName_iff name).mpr named
          split at read
          · exact spells_of_readFunction? nonempty allBlank named read
          · split at read
            · next apart =>
                cases read
                refine .object nonempty allBlank named ?_
                rcases Bool.or_eq_true_iff.mp apart with empty | starts
                · rw [List.isEmpty_iff.mp empty]
                  rintro _ ⟨⟩
                · cases after with
                  | nil => cases starts
                  | cons first others =>
                      rintro _ ⟨⟩
                      exact starts
            · cases read
      · cases read
  · cases read

/-- Behind `#undef`, a line without blanks at its end has only a gap and the
name. -/
theorem spells_of_readUndefine?
    {rest : Text} {directive : Directive} (tight : Tight rest)
    (read : readUndefine? rest = some directive) :
    Spells true ("#undef".toList ++ rest) directive := by
  obtain ⟨gap, whole, allBlank⟩ := exists_blanks_before rest
  unfold readUndefine? at read
  dsimp only at read
  split at read
  · next named =>
      cases read
      rw [tight.trim_eq] at named ⊢
      have spells :=
        Spells.undefine (.inl rfl) allBlank ((isMacroName_iff _).mpr named)
      rw [← whole] at spells
      exact spells
  · cases read

/-- The reader accepts the lenient grammar, and reads the directive that is
spelled. -/
theorem read?_iff_spells
    {line : Text} (tight : Tight line) (directive : Directive) :
    read? line = some (some directive) ↔ Spells true line directive := by
  refine ⟨fun read => ?_, read?_of_spells⟩
  unfold read? at read
  split at read
  · next rest found =>
      rw [eq_append_of_dropStart? found]
      exact spells_of_readDefine? (Option.some.inj read)
  · obtain ⟨rest, found, isRead⟩ := Option.map_eq_some_iff.mp read
    have whole := eq_append_of_dropStart? found
    rw [whole] at tight ⊢
    exact spells_of_readUndefine? (tight.of_suffix ⟨_, rfl⟩) isRead

theorem read?_ne_none
    {line : Text}
    (starts : startsWith "#define".toList line ∨ startsWith "#undef".toList line) :
    read? line ≠ none := by
  rcases starts with isDefine | isUndefine
  · obtain ⟨rest, found⟩ := Option.isSome_iff_exists.mp isDefine
    rw [eq_append_of_dropStart? found, read?_define]
    exact Option.some_ne_none _
  · obtain ⟨rest, found⟩ := Option.isSome_iff_exists.mp isUndefine
    rw [eq_append_of_dropStart? found, read?_undefine]
    exact Option.some_ne_none _

theorem IsParameter.mono
    {lenient : Bool} {name : Text} (isParameter : IsParameter false name) :
    IsParameter lenient name := by
  rcases isParameter with identifier | ⟨impossible, _⟩
  · exact .inl identifier
  · cases impossible

theorem IsParameter.ne_nil {name : Text}
    (isParameter : IsParameter false name) : name ≠ [] := by
  rintro rfl
  rcases isParameter with identifier | ⟨impossible, _⟩
  · exact not_isWordOf_nil _ _ identifier
  · cases impossible

/-- The strict lists are those that list no empty parameter. -/
theorem lists_false_iff (list : Text) (parameters : List Text) :
    Lists false list parameters ↔ Lists true list parameters ∧
      [] ∉ parameters := by
  constructor
  · intro lists
    refine ⟨?_, fun member => (lists.forall_isParameter [] member).ne_nil rfl⟩
    induction lists with
    | last blanksBefore isParameter blanksAfter =>
        exact .last blanksBefore isParameter.mono blanksAfter
    | more blanksBefore isParameter blanksAfter _ inductionHypothesis =>
        exact .more blanksBefore isParameter.mono blanksAfter
          inductionHypothesis
  · rintro ⟨lists, noneEmpty⟩
    have strict {name : Text} (nonempty : name ≠ [])
        (isParameter : IsParameter true name) :
        IsParameter false name := by
      rcases isParameter with identifier | ⟨_, empty⟩
      · exact .inl identifier
      · exact absurd empty nonempty
    induction lists with
    | last blanksBefore isParameter blanksAfter =>
        rw [List.mem_singleton] at noneEmpty
        exact .last blanksBefore
          (strict (Ne.symm noneEmpty) isParameter) blanksAfter
    | more blanksBefore isParameter blanksAfter _ inductionHypothesis =>
        rw [List.mem_cons, not_or] at noneEmpty
        exact .more blanksBefore
          (strict (Ne.symm noneEmpty.1) isParameter) blanksAfter
          (inductionHypothesis noneEmpty.2)

theorem listsAny_false_iff (list : Text) (parameters : List Text) :
    ListsAny false list parameters ↔ ListsAny true list parameters ∧
      [] ∉ parameters := by
  rw [ListsAny, ListsAny, lists_false_iff]
  constructor
  · rintro (⟨allBlank, rfl⟩ | ⟨notBlank, lists, noneEmpty⟩)
    · exact ⟨.inl ⟨allBlank, rfl⟩, List.not_mem_nil⟩
    · exact ⟨.inr ⟨notBlank, lists⟩, noneEmpty⟩
  · rintro ⟨empty | ⟨notBlank, lists⟩, noneEmpty⟩
    · exact .inl empty
    · exact .inr ⟨notBlank, lists, noneEmpty⟩

/-- The directive is spelled by the lenient grammar only: its name follows
`#undef` at once, or one of its parameters is empty. -/
def Slips (line : Text) : Directive → Prop
  | defineObject _ _ => False
  | defineFunction _ definition => [] ∈ definition.parameters
  | undefine name => line = "#undef".toList ++ name

/-- The strict grammar is the lenient one without the slips. -/
theorem spells_false_iff (line : Text) (directive : Directive) :
    Spells false line directive ↔ Spells true line directive ∧
      ¬ directive.Slips line := by
  constructor
  · intro spells
    cases spells with
    | object nonempty allBlank named apart =>
        exact ⟨.object nonempty allBlank named apart, id⟩
    | function nonempty allBlank named lists =>
        obtain ⟨lists, noneEmpty⟩ := (listsAny_false_iff _ _).mp lists
        exact ⟨.function nonempty allBlank named lists, noneEmpty⟩
    | @undefine gap name spaced allBlank named =>
        refine ⟨.undefine (.inl rfl) allBlank named, fun atOnce => ?_⟩
        have noGap : gap = [] :=
          List.append_left_eq_self.mp (List.append_cancel_left atOnce)
        exact spaced.elim Bool.false_ne_true (absurd noGap)
  · rintro ⟨spells, strict⟩
    cases spells with
    | object nonempty allBlank named apart =>
        exact .object nonempty allBlank named apart
    | function nonempty allBlank named lists =>
        exact .function nonempty allBlank named
          ((listsAny_false_iff _ _).mpr ⟨lists, strict⟩)
    | @undefine gap name _ allBlank named =>
        refine .undefine (.inr ?_) allBlank named
        rintro rfl
        exact strict rfl

/-! ## The tables after directives -/

/-- A directive changes the macros of its own name only. -/
theorem get?_apply_of_ne
    {directive : Directive} {other : Text}
    (different : other ≠ directive.macroName) (macros : Macros) :
    (directive.apply macros).objects.get? other = macros.objects.get? other ∧
      (directive.apply macros).functions.get? other =
        macros.functions.get? other := by
  cases directive with
  | defineObject name value => exact ⟨Table.get?_set_of_ne _ _ different, rfl⟩
  | defineFunction name definition =>
      exact ⟨rfl, Table.get?_set_of_ne _ _ different⟩
  | undefine name =>
      have kept {α : Type} (table : Table α) :
          (table.erase name).get? other = table.get? other :=
        (Table.get?_erase table name other).trans (if_neg different)
      exact ⟨kept _, kept _⟩

/-- A directive that is read in spite of a slip has no strict spelling. -/
theorem not_spells_of_slips
    {line : Text} {directive : Directive}
    (read : read? line = some (some directive))
    (slips : directive.Slips line) : ¬ ∃ other, Spells false line other := by
  rintro ⟨other, spells⟩
  obtain ⟨lenient, strict⟩ := (spells_false_iff line other).mp spells
  have readOther := read?_of_spells lenient
  rw [read] at readOther
  cases readOther
  exact strict slips

end Directive

open Text

/-- Only names of macros are defined, and only identifiers and empty texts are
parameters. -/
structure Macros.WellNamed (macros : Macros) : Prop where
  objects : ∀ entry ∈ macros.objects, IsMacroName entry.1
  functions : ∀ entry ∈ macros.functions, IsMacroName entry.1 ∧
    ∀ parameter ∈ entry.2.parameters, IsIdentifier parameter ∨ parameter = []

theorem Macros.wellNamed_empty : Macros.empty.WellNamed where
  objects := fun _ member => by cases member
  functions := fun _ member => by cases member

/-- A spelled directive defines only names that the grammar has. -/
theorem Macros.WellNamed.apply
    {macros : Macros} {line : Text} {directive : Directive}
    (wellNamed : macros.WellNamed)
    (spells : Directive.Spells true line directive) :
    (directive.apply macros).WellNamed := by
  cases spells with
  | object _ _ named _ =>
      refine ⟨fun entry member => ?_, wellNamed.functions⟩
      rcases Table.mem_of_mem_set member with rfl | earlier
      · exact named
      · exact wellNamed.objects entry earlier
  | function _ _ named lists =>
      refine ⟨wellNamed.objects, fun entry member => ?_⟩
      rcases Table.mem_of_mem_set member with rfl | earlier
      · refine ⟨named, fun parameter isListed => ?_⟩
        exact (lists.forall_isParameter parameter isListed).imp_right And.right
      · exact wellNamed.functions entry earlier
  | undefine _ _ _ =>
      refine ⟨fun entry member => ?_, fun entry member => ?_⟩
      · exact wellNamed.objects entry (List.mem_of_mem_filter member)
      · exact wellNamed.functions entry (List.mem_of_mem_filter member)

theorem Macros.WellNamed.macrosAfter
    {macros : Macros} (wellNamed : macros.WellNamed) (lines : List Text) :
    (macrosAfter macros lines).WellNamed := by
  induction lines generalizing macros with
  | nil => exact wellNamed
  | cons line later inductionHypothesis =>
      rw [Macro.macrosAfter]
      split
      · next directive read =>
          have spells :=
            (Directive.read?_iff_spells (tight_trim line) directive).mp read
          exact inductionHypothesis (wellNamed.apply spells)
      · exact inductionHypothesis wellNamed

/-- A line that starts like a directive is taken if the lenient grammar spells a
directive with it.  Then it changes the macros of one name; else the fault shows
the line, and the macros stay. The strict grammar is the lenient one without its
two slips. -/
theorem directives_are_read_by_the_lenient_grammar
    (macros : Macros) (number : Nat) (line : Text)
    (starts : startsWith "#define".toList (trim line) ∨ startsWith "#undef".toList (trim line)) :
    ((∃ output changed, processLine macros number line =
      .ok (output, changed)) ↔
        ∃ directive, Directive.Spells true (trim line) directive) ∧
      (∀ output changed, processLine macros number line =
        .ok (output, changed) →
        ∃ directive, Directive.Spells true (trim line) directive ∧
          output = [] ∧ changed = directive.apply macros ∧
          (∀ other, other ≠ directive.macroName →
            changed.objects.get? other = macros.objects.get? other ∧
              changed.functions.get? other = macros.functions.get? other) ∧
          ∀ later, macrosAfter macros (line :: later) =
            macrosAfter changed later) ∧
      (∀ fault, processLine macros number line = .error fault →
        fault = .directive number (trim line) ∧
          ∀ later, macrosAfter macros (line :: later) =
            macrosAfter macros later) ∧
      (∀ directive, Directive.Spells false (trim line) directive ↔
        Directive.Spells true (trim line) directive ∧
          ¬ directive.Slips (trim line)) ∧
      ∀ lines, (macrosAfter .empty lines).WellNamed := by
  have readIff := Directive.read?_iff_spells (tight_trim line)
  refine and_assoc.mp (and_assoc.mp ⟨?_, Directive.spells_false_iff (trim line),
    Macros.wellNamed_empty.macrosAfter⟩)
  cases read : Directive.read? (trim line) with
  | none => exact absurd read (Directive.read?_ne_none starts)
  | some found =>
      cases found with
      | none =>
          have refused :
              processLine macros number line =
                .error (.directive number (trim line)) := by
            rw [processLine, read]
          have noDirective :
              ¬ ∃ directive, Directive.Spells true (trim line) directive := by
            rintro ⟨directive, spells⟩
            rw [(readIff directive).mpr spells] at read
            cases read
          rw [refused]
          refine ⟨⟨iff_of_false ?_ noDirective, ?_⟩, ?_⟩
          · rintro ⟨_, _, impossible⟩
            cases impossible
          · intro _ _ impossible
            cases impossible
          · rintro _ ⟨⟩
            refine ⟨rfl, fun later => ?_⟩
            rw [macrosAfter, read]
      | some directive =>
          have spells := (readIff directive).mp read
          rw [processLine_of_directive read]
          refine ⟨⟨iff_of_true ⟨_, _, rfl⟩ ⟨directive, spells⟩, ?_⟩, ?_⟩
          · rintro _ _ ⟨⟩
            refine ⟨directive, spells, rfl, rfl, fun other different =>
              Directive.get?_apply_of_ne different macros, fun later => ?_⟩
            rw [macrosAfter, read]
          · intro _ impossible
            cases impossible

/-- A macro with blanks wherever the grammar has room for them. -/
def spaciousLine : Text :=
  "  #define \t PAIR( first ,second )  (first, second)  ".toList

/-- The blanks of `spaciousLine` leave no trace in the macro that it defines. -/
theorem directives_are_read_by_the_lenient_grammar_of_spacious :
    processLine .empty 1 spaciousLine =
        .ok ([], Macros.empty.defineFunction "PAIR".toList
          { parameters := ["first".toList, "second".toList], body :=
            "(first, second)".toList }) ∧
      ∃ directive, Directive.Spells true (trim spaciousLine) directive := by
  have starts :
      startsWith "#define".toList (trim spaciousLine) := by decide +kernel
  have processed : processLine .empty 1 spaciousLine =
      .ok ([], Macros.empty.defineFunction "PAIR".toList
        { parameters := ["first".toList, "second".toList], body :=
          "(first, second)".toList }) := by
    decide +kernel
  have grammar :=
    directives_are_read_by_the_lenient_grammar .empty 1 spaciousLine
      (.inl starts)
  exact ⟨processed, grammar.1.mp ⟨_, _, processed⟩⟩

/-- Both slips are accepted, and neither line is spelled by the strict
grammar. -/
theorem slips_are_accepted :
    (processLine .empty 1 "#undefX".toList = .ok ([], .empty) ∧
        ¬ ∃ directive, Directive.Spells false "#undefX".toList directive) ∧
      processLine .empty 2 "#define F(a,,b) a".toList =
          .ok ([], Macros.empty.defineFunction ['F']
            { parameters := [['a'], [], ['b']], body := ['a'] }) ∧
        ¬ ∃ directive,
          Directive.Spells false "#define F(a,,b) a".toList directive := by
  have readUndefine :
      Directive.read? "#undefX".toList = some (some (.undefine ['X'])) := by
    decide +kernel
  have readDefine : Directive.read? "#define F(a,,b) a".toList =
      some (some (.defineFunction ['F']
        { parameters := [['a'], [], ['b']], body := ['a'] })) := by
    decide +kernel
  refine ⟨⟨by decide +kernel, ?_⟩, by decide +kernel, ?_⟩
  · exact Directive.not_spells_of_slips readUndefine rfl
  · exact Directive.not_spells_of_slips readDefine (.tail _ (.head _))

end Macro
end LineScript
