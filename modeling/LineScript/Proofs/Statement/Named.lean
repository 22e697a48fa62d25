import LineScript.Proofs.Statement.Canonical

/-!
Statements whose canonical text starts with a name: calls, steps and
assignments.

The name may be any word, also one that opens statements of another shape.  What
tells these statements apart is the character after the name.
-/

namespace LineScript
namespace Statement

open Text

/-- A character that ends a name and does not make a known word of it. -/
structure EndsName (character : Char) : Prop where
  notName : ¬ isNameChar character
  notBlank : ¬ isBlank character
  notDot : character ≠ '.'

/-- A character that opens neither a call nor a block. -/
structure IsOperator (character : Char) : Prop extends EndsName character where
  notParen : character ≠ '('
  notBrace : character ≠ '{'

theorem endsName_paren : EndsName '(' :=
  ⟨by decide, by decide, by decide⟩

theorem isOperator_plus : IsOperator '+' :=
  ⟨⟨by decide, by decide, by decide⟩, by decide, by decide⟩

theorem isOperator_minus : IsOperator '-' :=
  ⟨⟨by decide, by decide, by decide⟩, by decide, by decide⟩

theorem isOperator_equals : IsOperator '=' :=
  ⟨⟨by decide, by decide, by decide⟩, by decide, by decide⟩

section Named

variable {name : Text} (named : isName name) {character : Char}

include named

theorem trimStart_named (rest : Text) :
    trimStart (name ++ rest) = name ++ rest :=
  trimStart_append (trimStart_of_trimmed (trim_name named))
    (name_ne_nil named) rest

theorem noComment_named (rest : Text) :
    startsWith "//".toList (name ++ rest) = false := by
  obtain ⟨first, others, rfl, starts, _⟩ := exists_cons_of_isName named
  have notSlash : '/' ≠ first := by
    rintro rfl
    exact absurd starts (by decide)
  simp [startsWith, dropStart?, notSlash]

theorem ne_brace_named (rest : Text) : name ++ rest ≠ ['}'] := by
  obtain ⟨first, others, rfl, starts, _⟩ := exists_cons_of_isName named
  intro same
  have isBrace : first = '}' := List.head_eq_of_cons_eq same
  rw [isBrace] at starts
  exact absurd starts (by decide)

theorem callInner?_named
    (ends : EndsName character) {word : Text}
    (isWord : ∀ letter ∈ word, isNameChar letter) (member rest : Text) :
    callInner? (word ++ '.' :: member) (name ++ character :: rest) = none := by
  have refused :
      dropStart? (word ++ '.' :: member) (name ++ character :: rest) =
        none := by
    cases dropped :
      dropStart? (word ++ '.' :: member) (name ++ character :: rest) with
    | none => rfl
    | some after =>
        have whole := eq_append_of_dropStart? dropped
        rw [List.append_assoc, List.cons_append] at whole
        have isRun := isNameChar_of_mem_name named
        have same := run_unique isRun ends.notName isWord (by decide) whole
        exact absurd same.2 ends.notDot
  rw [callInner?, refused]

theorem readConsole?_named (ends : EndsName character) (rest : Text) :
    readConsole? (name ++ character :: rest) = none := by
  have isWord : ∀ letter ∈ "console".toList, isNameChar letter :=
    List.all_eq_true.mp rfl
  have noCall := fun member => callInner?_named named ends isWord member rest
  have noWritef :
      callInner? "console.writef".toList (name ++ character :: rest) = none :=
    noCall "writef".toList
  have noWrite :
      callInner? "console.write".toList (name ++ character :: rest) = none :=
    noCall "write".toList
  have noSystem :
      callInner? "console.system".toList (name ++ character :: rest) = none :=
    noCall "system".toList
  simp only [readConsole?, noWritef, noWrite, noSystem, Option.map_none]

/-- A text that starts with a name, and with no known word, has a plain
shape. -/
theorem readBody_named (ends : EndsName character) (quoted rest : Text) :
    readBody quoted (name ++ character :: rest) =
      .ok (readPlain (name ++ character :: rest)) := by
  have noWord : ∀ word : Text, word.all isNameChar →
      afterWord? word (name ++ character :: rest) = none := by
    intro word isWord
    have isRun := isNameChar_of_mem_name named
    exact afterWord?_run
      (List.all_eq_true.mp isWord) isRun ends.notName ends.notBlank rest
  have noReturn := noWord "return".toList rfl
  have noVar := noWord "var".toList rfl
  have noBool := noWord "bool".toList rfl
  have noList := noWord "list".toList rfl
  have noConsole := readConsole?_named named ends rest
  simp only [readBody, noReturn, noConsole, noVar, noBool, noList]

theorem ofLine?_named (operator : IsOperator character) (rest : Text) :
    BlockKeyword.ofLine? (name ++ character :: rest) = none := by
  have noBraces :
      (name ++ character :: rest).dropWhile (· == '}') =
        name ++ character :: rest := by
    obtain ⟨first, others, rfl, starts, _⟩ := exists_cons_of_isName named
    apply List.dropWhile_cons_of_neg
    intro isBrace
    rw [beq_iff_eq.mp isBrace] at starts
    exact absurd starts (by decide)
  rw [BlockKeyword.ofLine?, noBraces, trimStart_named named, List.find?_eq_none]
  intro keyword _
  have isWord : ∀ letter ∈ keyword.text, isNameChar letter := by
    apply List.all_eq_true.mp
    cases keyword <;> rfl
  rw [BlockKeyword.heads]
  split
  · next found after dropped =>
      obtain ⟨tail, isTail, isAfter⟩ :=
        exists_of_dropStart?_run isWord operator.notName dropped
      cases tail with
      | nil =>
          have same : found = character := List.head_eq_of_cons_eq isAfter
          simp [same, operator.notBlank, operator.notParen, operator.notBrace]
      | cons first more =>
          have same : found = first := List.head_eq_of_cons_eq isAfter
          have nameChar : isNameChar found := by
            apply isNameChar_of_mem_name named found
            rw [isTail, same]
            exact List.mem_append_right _ List.mem_cons_self
          have notBlank := not_isBlank_of_isNameChar nameChar
          have notParen : found ≠ '(' := ne_of_isNameChar nameChar (by decide)
          have notBrace : found ≠ '{' := ne_of_isNameChar nameChar (by decide)
          simp [notBlank, notParen, notBrace]
  · exact Bool.false_ne_true

theorem splitCall?_named (operator : IsOperator character) (rest : Text) :
    splitCall? (name ++ character :: rest) = none := by
  have nonempty : name.isEmpty = false := by simpa using name_ne_nil named
  have refused : callInner? name (name ++ character :: rest) = none := by
    rw [callInner?, dropStart?_append]
    split
    · next same =>
        cases same
        exact absurd rfl operator.notParen
    · rfl
  simp [splitCall?, spanName_append named operator.notName, nonempty, refused]

/-- After a name and an operator only steps and assignments are tried. -/
theorem readPlain_named (operator : IsOperator character) (rest : Text) :
    readPlain (name ++ character :: rest) =
      ((step? (name ++ character :: rest)).map fun found =>
        Statement.step found.1 found.2).getD
        (((assignment? (name ++ character :: rest)).map fun found =>
          Statement.assign found.1 found.2).getD
            (.expression (name ++ character :: rest))) := by
  have noOpening : blockOpening? (name ++ character :: rest) = none := by
    rw [blockOpening?, ofLine?_named named operator, ite_self]
  simp only [readPlain, noOpening, ne_brace_named named, if_false,
    splitCall?_named named operator]
  cases step? (name ++ character :: rest) with
  | some found => rfl
  | none =>
      cases assignment? (name ++ character :: rest) with
      | some found => rfl
      | none => rfl

theorem readPlain_call {arguments : List Text} (listable : Listable arguments) :
    readPlain (name ++ bracketed arguments) = .call name arguments := by
  have noOpening : blockOpening? (name ++ bracketed arguments) = none := by
    have shape :
        name ++ bracketed arguments =
          (name ++ '(' :: commaList arguments) ++ [')'] := by
      simp [bracketed]
    rw [blockOpening?, endsWith, shape, List.getLast?_concat]
    rfl
  have nonempty : name.isEmpty = false := by simpa using name_ne_nil named
  have span : (spanName (name ++ bracketed arguments)).1 = name := by
    rw [bracketed, spanName_append named endsName_paren.notName]
  have isCall :
      splitCall? (name ++ bracketed arguments) = some (name, arguments) := by
    simp [splitCall?, span, nonempty, callInner?_bracketed name listable,
      listable.split]
  simp only [readPlain, noOpening, ne_brace_named named, if_false, isCall]

/-- The canonical text of a call is read as the call. -/
theorem read_call {arguments : List Text} (listable : Listable arguments) :
    read (name ++ bracketed arguments ++ [';']) =
      .ok (.call name arguments) := by
  have start := trimStart_named named (bracketed arguments)
  have noComment := noComment_named named (bracketed arguments)
  rw [read_concat_of_tight _ start noComment (tight_bracketed name arguments),
    bracketed, readBody_named named endsName_paren]
  exact congrArg _ (readPlain_call named listable)

theorem filter_named : (some (trim name)).filter isName = some name := by
  rw [trim_name named]
  exact Option.filter_eq_some_iff.mpr ⟨rfl, named⟩

theorem step?_increment :
    step? (name ++ ['+', '+']) = some (name, .increment) := by
  have dropped : dropEnd? "++".toList (name ++ ['+', '+']) = some name :=
    dropEnd?_append _ name
  simp only [step?, List.findSome?_cons, dropped, filter_named named,
    Option.map_some]

theorem step?_decrement :
    step? (name ++ ['-', '-']) = some (name, .decrement) := by
  have noPlus : dropEnd? "++".toList (name ++ ['-', '-']) = none := by
    simp [dropEnd?, dropStart?]
  have dropped : dropEnd? "--".toList (name ++ ['-', '-']) = some name := dropEnd?_append _ name
  simp only [step?, List.findSome?_cons, noPlus, dropped, filter_named named,
    Option.map_none, Option.filter_none, Option.map_some]

theorem read_step
    {sign : Char} (operator : IsOperator sign) {direction : Step}
    (isStep : step? (name ++ [sign, sign]) = some (name, direction)) :
    read (name ++ [sign, sign] ++ [';']) = .ok (.step name direction) := by
  have start := trimStart_named named [sign, sign]
  have noComment := noComment_named named [sign, sign]
  have tight : Tight (name ++ [sign, sign]) :=
    tight_append name (List.cons_ne_nil _ _)
      (tight_concat [sign] operator.notBlank)
  rw [read_concat_of_tight _ start noComment tight,
    readBody_named named operator.toEndsName, readPlain_named named operator,
    isStep]
  rfl

omit named in
theorem step?_eq_none
    {body : Text} {other : Char} (member : other ∈ body)
    (notName : ¬ isNameChar other)
    (notBlank : ¬ isBlank other) (notPlus : other ≠ '+')
    (notMinus : other ≠ '-') :
    step? body = none := by
  have refused : ∀ source : Option Text, (∀ text ∈ source, other ∈ text) →
      (source.map trim).filter isName = none := by
    intro source inSource
    rw [Option.filter_eq_none_iff]
    intro text isText isNamed
    obtain ⟨untrimmed, isUntrimmed, rfl⟩ := Option.map_eq_some_iff.mp isText
    have inTrimmed :=
      mem_trim_of_not_blank (inSource untrimmed isUntrimmed) notBlank
    exact not_mem_name isNamed notName inTrimmed
  have noEnd : ∀ ending :
      Text, other ∉ ending → ∀ text ∈ dropEnd? ending body, other ∈ text := by
    intro ending absent text found
    rw [eq_append_of_dropEnd? found, List.mem_append] at member
    exact member.resolve_right absent
  have noStart : ∀ start :
      Text, other ∉ start → ∀ text ∈ dropStart? start body, other ∈ text := by
    intro start absent text found
    rw [eq_append_of_dropStart? found, List.mem_append] at member
    exact member.resolve_left absent
  have notIncrement : other ∉ "++".toList := by simp [notPlus]
  have notDecrement : other ∉ "--".toList := by simp [notMinus]
  simp only [step?, List.findSome?_cons, List.findSome?_nil, Option.map_none,
    refused _ (noEnd _ notIncrement), refused _ (noEnd _ notDecrement),
    refused _ (noStart _ notIncrement), refused _ (noStart _ notDecrement)]

omit named in
/-- The first `=` that belongs to no comparison is that of the assignment. -/
theorem cutAssignmentFrom_run
    {run : Text} (isRun : ∀ letter ∈ run, isNameChar letter)
    {previous : Option Char}
    (notHead : previous.any isComparisonHead = false) {rest : Text}
    (notTail : rest.head?.any isComparisonTail = false) :
    cutAssignmentFrom previous .start (run ++ '=' :: rest) =
      some (run, rest) := by
  induction run generalizing previous with
  | nil =>
      rw [List.nil_append, cutAssignmentFrom, notHead, notTail]
      rfl
  | cons letter run inductionHypothesis =>
      obtain ⟨nameChar, later⟩ := List.forall_mem_cons.mp isRun
      have notEquals : (letter == '=') = false :=
        beq_false_of_ne (ne_of_isNameChar nameChar (by decide))
      have notHeadHere : (some letter).any isComparisonHead = false := by
        simp only [Option.any_some, isComparisonHead, Bool.or_eq_false_iff,
          beq_eq_false_iff_ne]
        refine ⟨⟨⟨?_, ?_⟩, ?_⟩, ?_⟩ <;>
          exact ne_of_isNameChar nameChar (by decide)
      have outside : Nesting.start.quotes = .outside := rfl
      have same :=
        Nesting.next_of_isPlain (Nesting.isPlain_of_isNameChar nameChar) outside
      rw [List.cons_append, cutAssignmentFrom, notEquals, same,
        inductionHypothesis later notHeadHere]
      simp

theorem assignment?_named {value : Text} (trimmed : trim value = value) :
    assignment? (name ++ '=' :: trimEnd (' ' :: value)) =
      some (name, value) := by
  have notTail :
      (trimEnd (' ' :: value)).head?.any isComparisonTail = false := by
    by_cases empty : value = []
    · rw [empty]
      rfl
    · rw [trimEnd_space_cons empty trimmed]
      rfl
  have found : cutAssignment (name ++ '=' :: trimEnd (' ' :: value)) =
      some (name, trimEnd (' ' :: value)) :=
    cutAssignmentFrom_run (isNameChar_of_mem_name named) rfl notTail
  simp [assignment?, found, trim_name named, named,
    trim_trimEnd_space_cons trimmed]

theorem read_assign {value : Text} (trimmed : trim value = value) :
    read (name ++ "= ".toList ++ value ++ [';']) =
      .ok (.assign name value) := by
  have shape :
      name ++ "= ".toList ++ value = name ++ '=' :: ' ' :: value := by simp
  have noStep : step? (name ++ '=' :: trimEnd (' ' :: value)) = none :=
    step?_eq_none (List.mem_append_right _ List.mem_cons_self) (by decide)
      (by decide)
      (by decide) (by decide)
  rw [shape, read_concat (trimStart_named named _) (noComment_named named _),
    trimEnd_append_of_not_blank name isOperator_equals.notBlank,
    readBody_named named isOperator_equals.toEndsName,
    readPlain_named named isOperator_equals, noStep,
    assignment?_named named trimmed]
  rfl

end Named

end Statement
end LineScript
