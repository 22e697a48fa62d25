import LineScript.Proofs.Macro.Lexing

/-!
Parameters of macros and their names.

A body with other names for its parameters has its parts in the same places,
since a name takes the place of a name.  So it does not matter for the expansion
of a call which names the parameters have, as long as they are different and new
to the body.
-/

namespace LineScript
namespace Macro

open Text

theorem argument?_eq (name : Text) (parameters arguments : List Text) :
    argument? name parameters arguments =
      (parameters.idxOf? name).bind fun place => arguments[place]? := by
  fun_induction argument? name parameters arguments with
  | case1 parameters argument arguments => simp [List.idxOf?_cons]
  | case2 parameter parameters argument arguments different
      inductionHypothesis =>
      rw [inductionHypothesis, List.idxOf?_cons,
        if_neg (by simpa using different)]
      cases parameters.idxOf? name with
      | none => rfl
      | some place => rfl
  | case3 parameters arguments noPair =>
      cases parameters with
      | nil => rfl
      | cons parameter parameters =>
          cases arguments with
          | nil => simp
          | cons argument arguments => exact absurd rfl (noPair _ _ _ _ rfl)

/-- A name has an argument exactly if it is a parameter. -/
theorem argument?_eq_none_iff
    {parameters arguments : List Text}
    (lengths : arguments.length = parameters.length)
    (name : Text) :
    argument? name parameters arguments = none ↔ name ∉ parameters := by
  induction parameters generalizing arguments with
  | nil => simp [argument?]
  | cons parameter parameters inductionHypothesis =>
      cases arguments with
      | nil => cases lengths
      | cons argument arguments =>
          by_cases same : parameter = name
          · simp [argument?, same]
          · simp [argument?, same, Ne.symm same,
              inductionHypothesis (Nat.succ.inj lengths)]

theorem eq_of_argument?_self
    {name found : Text} {parameters : List Text}
    (isFound : argument? name parameters parameters = some found) :
    found = name := by
  induction parameters with
  | nil => cases isFound
  | cons parameter parameters inductionHypothesis =>
      rw [argument?] at isFound
      split at isFound
      · next same =>
          cases isFound
          exact same
      · exact inductionHypothesis isFound

/-- A parameter under its new name has the argument that it has under its old
one. -/
theorem argument?_of_argument?
    {name newName : Text} {parameters names arguments : List Text}
    (sameNames : names.length = parameters.length)
    (sameArguments : arguments.length = parameters.length)
    (distinct : names.Nodup)
    (renamed : argument? name parameters names = some newName) :
    argument? newName names arguments =
      argument? name parameters arguments := by
  induction parameters generalizing names arguments with
  | nil => cases renamed
  | cons parameter parameters inductionHypothesis =>
      cases names with
      | nil => cases sameNames
      | cons first names =>
          cases arguments with
          | nil => cases sameArguments
          | cons argument arguments =>
              obtain ⟨notLater, distinctLater⟩ := List.nodup_cons.mp distinct
              rw [argument?] at renamed
              by_cases same : parameter = name
              · rw [if_pos same] at renamed
                cases renamed
                rw [argument?, if_pos rfl, argument?, if_pos same]
              · rw [if_neg same] at renamed
                have different : first ≠ newName := by
                  rintro rfl
                  exact notLater (mem_of_argument? renamed)
                rw [argument?, if_neg different, argument?, if_neg same]
                exact inductionHypothesis (Nat.succ.inj sameNames)
                  (Nat.succ.inj sameArguments)
                  distinctLater renamed

def Lexeme.renamed (parameters names : List Text) : Lexeme → Lexeme
  | .word name => .word ((argument? name parameters names).getD name)
  | lexeme => lexeme

theorem Lexeme.text_renamed (parameters names : List Text) (lexeme : Lexeme) :
    (lexeme.renamed parameters names).text =
      substituteLexeme parameters names lexeme := by
  cases lexeme with
  | literal _ => rfl
  | number _ => rfl
  | word _ => rfl
  | other _ => rfl

theorem substituteLexeme_of_not_word
    (parameters arguments : List Text) {lexeme : Lexeme}
    (notWord : ∀ name, lexeme ≠ .word name) :
    substituteLexeme parameters arguments lexeme = lexeme.text := by
  cases lexeme with
  | literal _ => rfl
  | number _ => rfl
  | word name => exact absurd rfl (notWord name)
  | other _ => rfl

namespace Lexed

variable {numbers : Bool} {parts : List Lexeme} {line : Text}

/-- Substitution does not touch the start of a line unless it is a name. -/
theorem head?_substitute
    (lexed : Lexed numbers parts line)
    (starts : ∀ character ∈ line.head?, ¬ isNameChar character)
    (parameters arguments : List Text) :
    (parts.flatMap (substituteLexeme parameters arguments)).head? =
      line.head? := by
  cases lexed with
  | nil => rfl
  | @cons lexeme parts after fits later =>
      obtain ⟨first, rest, isText⟩ := fits.exists_cons
      have notWord : ∀ name, lexeme ≠ .word name := by
        rintro name rfl
        cases fits with
        | word named _ =>
            have member : first ∈ name := by
              rw [show name = first :: rest from isText]
              exact List.mem_cons_self
            rw [isText] at starts
            exact starts first rfl (isNameChar_of_mem_name named first member)
      rw [List.flatMap_cons, substituteLexeme_of_not_word _ _ notWord, isText]
      rfl

theorem renamed
    (lexed : Lexed numbers parts line) (parameters : List Text)
    {names : List Text} (named : ∀ name ∈ names, isName name) :
    Lexed numbers (parts.map (Lexeme.renamed parameters names))
      (parts.flatMap (substituteLexeme parameters names)) := by
  induction lexed with
  | nil => exact .nil
  | @cons lexeme parts after fits later inductionHypothesis =>
      have head : (∀ character ∈ after.head?, ¬ isNameChar character) →
          (parts.flatMap (substituteLexeme parameters names)).head? =
            after.head? :=
        fun starts => later.head?_substitute starts parameters names
      rw [List.map_cons, List.flatMap_cons, ← Lexeme.text_renamed]
      refine .cons ?_ inductionHypothesis
      cases fits with
      | closed isQuote isBody => exact .closed isQuote isBody
      | unclosed isQuote stillOpen =>
          rw [← later.lexemes_eq, lexemes]
          exact .unclosed isQuote stillOpen
      | number counts digit inside ends =>
          have stops : ∀ character ∈ after.head?, ¬ isNameChar character :=
            fun character isFirst isName =>
              ends character isFirst (Bool.or_eq_true_iff.mpr (.inl isName))
          refine .number counts digit inside ?_
          rw [head stops]
          exact ends
      | @word name _ isName ends =>
          refine .word ?_ ?_
          · cases found : argument? name parameters names with
            | none => exact isName
            | some newName => exact named newName (mem_of_argument? found)
          · rw [head ends]
            exact ends
      | other notQuote notNumber notName =>
          exact .other notQuote notNumber notName

end Lexed

/-- With new names for its parameters a body has the same parts, up to these
names. -/
theorem lexemes_substitute
    (body : Text) (parameters : List Text) {names : List Text}
    (named : ∀ name ∈ names, isName name) :
    lexemes false (substitute body parameters names) =
      (lexemes false body).map (Lexeme.renamed parameters names) :=
  ((lexed_lexemes false body).renamed parameters named).lexemes_eq

/-- A part is replaced by the same argument under its new name. -/
theorem substituteLexeme_renamed
    {lexeme : Lexeme} {parameters names arguments : List Text}
    (sameNames : names.length = parameters.length)
    (sameArguments : arguments.length = parameters.length)
    (distinct : names.Nodup) (fresh : ∀ name ∈ names, lexeme ≠ .word name) :
    substituteLexeme names arguments (lexeme.renamed parameters names) =
      substituteLexeme parameters arguments lexeme := by
  cases lexeme with
  | literal _ => rfl
  | number _ => rfl
  | word name =>
      rw [Lexeme.renamed, substituteLexeme, substituteLexeme]
      cases found : argument? name parameters names with
      | some newName =>
          have same :=
            argument?_of_argument? sameNames sameArguments distinct found
          have isParameter : argument? name parameters arguments ≠ none := by
            intro missing
            have absent := (argument?_eq_none_iff sameArguments name).mp missing
            rw [(argument?_eq_none_iff sameNames name).mpr absent] at found
            cases found
          obtain ⟨argument, isArgument⟩ :=
            Option.ne_none_iff_exists'.mp isParameter
          rw [Option.getD_some, same, isArgument, Option.getD_some,
            Option.getD_some]
      | none =>
          have notParameter := (argument?_eq_none_iff sameNames name).mp found
          have notName : name ∉ names := fun isNew => fresh name isNew rfl
          have lengths : arguments.length = names.length :=
            sameArguments.trans sameNames.symm
          rw [Option.getD_none,
            (argument?_eq_none_iff lengths name).mpr notName,
            (argument?_eq_none_iff sameArguments name).mpr notParameter]
  | other _ => rfl

/-- Each part of a body is replaced on its own, and so is what stands before and
after it. -/
theorem substitute_of_split
    {body : Text} {before after : List Lexeme} {part : Lexeme}
    (split : lexemes false body = before ++ part :: after)
    (parameters arguments : List Text) :
    substitute body parameters arguments =
      substitute (before.flatMap Lexeme.text) parameters arguments ++
        substituteLexeme parameters arguments part ++
        substitute (after.flatMap Lexeme.text) parameters arguments := by
  have lexed := lexed_lexemes false body
  rw [split] at lexed
  have lexedAfter : Lexed false after (after.flatMap Lexeme.text) := by
    rw [List.append_cons] at lexed
    exact lexed.of_append_right
  rw [substitute, split, substitute, substitute,
    lexed.of_append_left.lexemes_eq, lexedAfter.lexemes_eq, List.flatMap_append,
    List.flatMap_cons, List.append_assoc]

theorem substitute_self (body : Text) (parameters : List Text) :
    substitute body parameters parameters = body := by
  have same : substituteLexeme parameters parameters = Lexeme.text := by
    funext lexeme
    cases lexeme with
    | literal _ => rfl
    | number _ => rfl
    | word name =>
        rw [substituteLexeme, Lexeme.text]
        cases found : argument? name parameters parameters with
        | none => rfl
        | some argument => exact eq_of_argument?_self found
    | other _ => rfl
  rw [substitute, same, flatMap_lexemes]

/-- The parameters of a body can get new names.  Arguments take the places of
the parameters all at once: what stands around a parameter does not notice its
argument.  Literals stay as they are. -/
theorem parameters_can_be_renamed
    (body : Text) (parameters names arguments : List Text)
    (sameNames : names.length = parameters.length)
    (sameArguments : arguments.length = parameters.length)
    (distinct : names.Nodup) (named : ∀ name ∈ names, isName name)
    (fresh : ∀ name ∈ names, Lexeme.word name ∉ lexemes false body) :
    substitute (substitute body parameters names) names arguments =
        substitute body parameters arguments ∧
      (∀ before name after, lexemes false body = before ++ .word name :: after →
        substitute body parameters arguments =
          substitute (before.flatMap Lexeme.text) parameters arguments ++
            ((parameters.idxOf? name).bind fun place => arguments[place]?).getD
              name ++
            substitute (after.flatMap Lexeme.text) parameters arguments) ∧
      (∀ before literal after, lexemes false body =
        before ++ .literal literal :: after →
        substitute body parameters arguments =
          substitute (before.flatMap Lexeme.text) parameters arguments ++
            literal ++
            substitute (after.flatMap Lexeme.text) parameters arguments) ∧
      substitute body parameters parameters = body := by
  refine ⟨?_, ?_, ?_, substitute_self body parameters⟩
  · rw [substitute, lexemes_substitute body parameters named, List.flatMap_map,
      substitute]
    apply List.flatMap_congr
    intro lexeme member
    apply substituteLexeme_renamed sameNames sameArguments distinct
    rintro name isNew rfl
    exact fresh name isNew member
  · intro before name after split
    rw [substitute_of_split split, substituteLexeme, argument?_eq]
  · intro before literal after split
    rw [substitute_of_split split]
    rfl

/-- A body with its parameters in literals, behind a digit and in front of a
literal, and with a literal that is never closed. -/
def crowded : Text :=
  "1x + \"x\\\"\" + y'y' + x1 'x".toList

theorem lexemes_crowded :
    lexemes false crowded =
      [.other '1', .word ['x'], .other ' ', .other '+', .other ' ',
        .literal "\"x\\\"\"".toList,
        .other ' ', .other '+', .other ' ', .word ['y'], .literal "'y'".toList,
          .other ' ',
        .other '+', .other ' ', .word ['x', '1'], .other ' ',
          .literal "'x".toList] := by
  decide +kernel

/-- In `crowded` only the free-standing `x` and `y` are parameters, and they can
be called `p` and `q` first. -/
theorem parameters_can_be_renamed_of_crowded :
    substitute crowded ["x".toList, "y".toList] ["y + p".toList, "q".toList] =
        "1y + p + \"x\\\"\" + q'y' + x1 'x".toList ∧
      substitute crowded ["x".toList, "y".toList] ["p".toList, "q".toList] =
        "1p + \"x\\\"\" + q'y' + x1 'x".toList ∧
      substitute
        (substitute crowded ["x".toList, "y".toList] ["p".toList, "q".toList])
          ["p".toList, "q".toList] ["y + p".toList, "q".toList] =
        substitute crowded ["x".toList, "y".toList]
          ["y + p".toList, "q".toList] := by
  have fresh :
      ∀ name ∈ ["p".toList, "q".toList],
        Lexeme.word name ∉ lexemes false crowded := by
    rw [lexemes_crowded]
    decide
  refine ⟨?_, ?_, ?_⟩
  · rw [substitute, lexemes_crowded]
    decide +kernel
  · rw [substitute, lexemes_crowded]
    decide +kernel
  · exact (parameters_can_be_renamed crowded ["x".toList, "y".toList]
      ["p".toList, "q".toList]
      ["y + p".toList, "q".toList] rfl rfl (by decide) (by decide) fresh).1

end Macro
end LineScript
