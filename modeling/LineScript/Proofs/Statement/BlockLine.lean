import LineScript.Proofs.Statement.Named
import LineScript.Source.Program

/-!
Lines of code that start with a control-flow word and hold a brace, and how they
are read as statements.

Such a line opens a block only if it ends with an opening brace.  Otherwise it
is read like any other text, mostly as an expression.
-/

namespace LineScript

open Text

namespace BlockKeyword

theorem brace_not_mem_text (keyword : BlockKeyword) : '{' ∉ keyword.text := by
  cases keyword <;> decide

/-- Behind the first brace of a line nothing decides about its word. -/
theorem heads_brace (keyword : BlockKeyword) (before after : Text) :
    heads (before ++ '{' :: after) keyword =
      heads (before ++ ['{']) keyword := by
  have absent := brace_not_mem_text keyword
  rw [heads, heads, dropStart?_append_cons absent,
    dropStart?_append_cons absent]
  cases dropStart? keyword.text before with
  | none => rfl
  | some rest =>
      cases rest with
      | nil => rfl
      | cons character rest => rfl

theorem ofLine?_brace (before after : Text) :
    ofLine? (before ++ '{' :: after) = ofLine? (before ++ ['{']) := by
  have closed : ∀ rest : Text, (before ++ '{' :: rest).dropWhile (· == '}') =
      before.dropWhile (· == '}') ++ '{' :: rest :=
    fun rest => dropWhile_append_cons (by decide) before rest
  have notBlank : ¬ isBlank '{' := by decide
  rw [ofLine?, ofLine?, trimStart, trimStart, closed, closed,
    dropWhile_append_cons notBlank, dropWhile_append_cons notBlank]
  congr 1
  funext keyword
  exact heads_brace keyword _ after

/-- The characters that a line with a control-flow word can start with. -/
def firstCharacters : Text :=
  ['}', 'i', 'e', 'w', 'f']

@[elab_as_elim]
theorem firstCharacter_cases
    {motive : Char → Prop} {first : Char} (starts : first ∈ firstCharacters)
    (closing : motive '}') (ifOrElse : motive 'i' ∧ motive 'e')
    (loop : motive 'w' ∧ motive 'f') : motive first := by
  simp only [firstCharacters, List.mem_cons, List.not_mem_nil,
    or_false] at starts
  rcases starts with rfl | rfl | rfl | rfl | rfl
  · exact closing
  · exact ifOrElse.1
  · exact ifOrElse.2
  · exact loop.1
  · exact loop.2

theorem exists_first_of_ofLine?
    {line : Text} {keyword : BlockKeyword} (start : trimStart line = line)
    (found : ofLine? line = some keyword) :
    ∃ first rest, line = first :: rest ∧ first ∈ firstCharacters := by
  cases line with
  | nil => cases found
  | cons first rest =>
      refine ⟨first, rest, rfl, ?_⟩
      by_cases closing : first = '}'
      · rw [closing]
        exact List.mem_cons_self
      · have isHead := List.find?_some found
        have kept : (first :: rest).dropWhile (· == '}') = first :: rest := by
          simp [closing]
        rw [kept, start, heads] at isHead
        cases dropped : dropStart? keyword.text (first :: rest) with
        | none =>
            rw [dropped] at isHead
            cases isHead
        | some after =>
            have whole := eq_append_of_dropStart? dropped
            cases keyword <;> cases List.head_eq_of_cons_eq whole <;> decide

end BlockKeyword

namespace Statement

def bodyOf (statement : Text) : Text :=
  trimEnd ((dropEnd? [';'] statement).getD statement)

theorem bodyOf_append_cons
    {character : Char} (notBlank : ¬ isBlank character)
    (notSemicolon : character ≠ ';') (before after : Text) :
    bodyOf (before ++ character :: after) =
      before ++ character :: bodyOf after := by
  have absent : character ∉ [';'].reverse := by simpa using notSemicolon
  have dropped : dropEnd? [';'] (before ++ character :: after) =
      (dropEnd? [';'] after).map (before ++ character :: ·) := by
    have reversed : (before ++ character :: after).reverse =
        after.reverse ++ character :: before.reverse := by
      simp
    rw [dropEnd?, dropEnd?, reversed, dropStart?_append_cons absent,
      Option.map_map, Option.map_map]
    congr 1
    funext rest
    simp
  rw [bodyOf, bodyOf, dropped]
  cases dropEnd? [';'] after with
  | none => exact trimEnd_append_of_not_blank before notBlank after
  | some rest => exact trimEnd_append_of_not_blank before notBlank rest

section Reading

variable {first : Char} (starts : first ∈ BlockKeyword.firstCharacters)

include starts

/-- No statement but the plain ones starts with such a character. -/
theorem read_of_firstCharacter
    {rest body : Text} (trimmed : trim (first :: rest) = first :: rest)
    (isBody : bodyOf (first :: rest) = first :: body) :
    read (first :: rest) = .ok (readPlain (first :: body)) := by
  have plain : ∀ quoted text,
      readBody quoted (first :: text) = .ok (readPlain (first :: text)) := by
    intro quoted text
    exact BlockKeyword.firstCharacter_cases starts rfl ⟨rfl, rfl⟩ ⟨rfl, rfl⟩
  have noComment : startsWith "//".toList (first :: rest) = false :=
    BlockKeyword.firstCharacter_cases starts rfl ⟨rfl, rfl⟩ ⟨rfl, rfl⟩
  rw [read, trimmed, noComment, ← bodyOf, isBody, plain]
  rfl

end Reading

/-- A line of code that starts with a control-flow word and holds a brace. -/
structure IsBlockLine (line : Text) (keyword : BlockKeyword) : Prop where
  trimmed : trim line = line
  opens : Program.blockOpening? line = some keyword

namespace IsBlockLine

variable {line : Text} {keyword : BlockKeyword}
    (isBlockLine : IsBlockLine line keyword)

include isBlockLine

theorem brace_mem : '{' ∈ line := by
  have opens := isBlockLine.opens
  rw [Program.blockOpening?] at opens
  split at opens
  · next held => simpa using held
  · cases opens

theorem ofLine?_eq : BlockKeyword.ofLine? line = some keyword := by
  have opens := isBlockLine.opens
  rw [Program.blockOpening?] at opens
  split at opens
  · exact opens
  · cases opens

theorem exists_brace :
    ∃ before after, line = before ++ '{' :: after ∧
      bodyOf line = before ++ '{' :: bodyOf after := by
  obtain ⟨before, after, whole⟩ := List.append_of_mem isBlockLine.brace_mem
  refine ⟨before, after, whole, ?_⟩
  rw [whole]
  exact bodyOf_append_cons (by decide) (by decide) before after

theorem brace_mem_bodyOf : '{' ∈ bodyOf line := by
  obtain ⟨before, after, _, isBody⟩ := isBlockLine.exists_brace
  rw [isBody]
  exact List.mem_append_right _ List.mem_cons_self

theorem ofLine?_bodyOf : BlockKeyword.ofLine? (bodyOf line) = some keyword := by
  obtain ⟨before, after, whole, isBody⟩ := isBlockLine.exists_brace
  rw [isBody, BlockKeyword.ofLine?_brace,
    ← BlockKeyword.ofLine?_brace before after, ← whole]
  exact isBlockLine.ofLine?_eq

theorem exists_first :
    ∃ first rest body, line = first :: rest ∧ bodyOf line = first :: body ∧
      first ∈ BlockKeyword.firstCharacters := by
  have start := trimStart_of_trimmed isBlockLine.trimmed
  obtain ⟨first, rest, isLine, starts⟩ :=
    BlockKeyword.exists_first_of_ofLine? start isBlockLine.ofLine?_eq
  obtain ⟨before, after, whole, isBody⟩ := isBlockLine.exists_brace
  rw [isLine] at whole
  cases before with
  | nil =>
      cases List.head_eq_of_cons_eq whole
      exact absurd starts (by decide)
  | cons character before =>
      cases List.head_eq_of_cons_eq whole
      exact ⟨first, rest, _, isLine, isBody, starts⟩

theorem trim_bodyOf : trim (bodyOf line) = bodyOf line := by
  have start := trimStart_of_trimmed isBlockLine.trimmed
  obtain ⟨first, rest, body, isLine, isBody, _⟩ := isBlockLine.exists_first
  apply trim_of_tight
  · rw [isLine] at start
    rw [isBody]
    exact trimStart_cons_of_not_blank (not_blank_of_trimStart start) body
  · exact tight_trimEnd _

/-- A line with a control-flow word and a brace has one of the plain shapes. -/
theorem read_eq : read line = .ok (readPlain (bodyOf line)) := by
  have trimmed := isBlockLine.trimmed
  obtain ⟨first, rest, body, isLine, isBody, starts⟩ := isBlockLine.exists_first
  rw [isLine] at trimmed isBody ⊢
  rw [isBody]
  exact read_of_firstCharacter starts trimmed isBody

/-- What a line with a control-flow word can be read as. -/
theorem readPlain_cases :
    readPlain (bodyOf line) = .blockOpen keyword ∨
      (∃ name arguments, readPlain (bodyOf line) = .call name arguments) ∨
      (∃ name value, readPlain (bodyOf line) = .assign name value) ∨
      (readPlain (bodyOf line) = .expression (bodyOf line) ∧
        splitCall? (bodyOf line) = none) := by
  have isWord := isBlockLine.ofLine?_bodyOf
  have held := isBlockLine.brace_mem_bodyOf
  have notClosing : bodyOf line ≠ ['}'] := by
    intro closing
    rw [closing] at held
    exact absurd held (by decide)
  have noStep :=
    step?_eq_none held (by decide) (by decide) (by decide) (by decide)
  rw [readPlain, blockOpening?, isWord]
  split
  · next found =>
      split at found
      · cases found
        exact .inl rfl
      · cases found
  · rw [if_neg notClosing, noStep]
    cases call : splitCall? (bodyOf line) with
    | some found => exact .inr (.inl ⟨_, _, rfl⟩)
    | none =>
        cases assigns : assignment? (bodyOf line) with
        | some found => exact .inr (.inr (.inl ⟨_, _, rfl⟩))
        | none => exact .inr (.inr (.inr ⟨rfl, rfl⟩))

end IsBlockLine

end Statement

namespace Expression

theorem readInteger?_eq_none {text : Text} (held : '{' ∈ text) :
    Decimal.readInteger? text = none := by
  have refused : ∀ run : Text, '{' ∈ run → Decimal.readDigits? run = none := by
    intro run member
    have noNumber : run.isEmpty || !run.all isDigit := by
      rw [Bool.or_eq_true, Bool.not_eq_true', List.all_eq_false]
      exact .inr ⟨'{', member, by decide⟩
    rw [Decimal.readDigits?, if_pos noNumber]
  have unsigned : Decimal.readSigned? text = none := by
    unfold Decimal.readSigned?
    split
    · next rest =>
        rw [refused rest (List.mem_of_ne_of_mem (by decide) held)]
        rfl
    · next rest =>
        rw [refused rest (List.mem_of_ne_of_mem (by decide) held)]
        rfl
    · rw [refused text held]
      rfl
  rw [Decimal.readInteger?, unsigned]
  rfl

section Reading

variable {first : Char} {rest : Text}
    (starts : first ∈ BlockKeyword.firstCharacters)
  (held : '{' ∈ first :: rest) (notCall : splitCall? (first :: rest) = none)

include starts held notCall

/-- A text that starts like a line with a control-flow word and holds a brace is
a conditional or arithmetic, if it is no call. -/
theorem readTrimmed_of_firstCharacter :
    (splitConditional? (first :: rest) = none →
      readTrimmed (first :: rest) = .arithmetic (first :: rest)) ∧
    ∀ condition yes no, splitConditional? (first :: rest) =
      some (condition, yes, no) →
      readTrimmed (first :: rest) =
        .conditional (readTrimmed condition) (readTrimmed yes)
          (readTrimmed no) := by
  have noString : stringLiteral? (first :: rest) = none :=
    BlockKeyword.firstCharacter_cases starts rfl ⟨rfl, rfl⟩ ⟨rfl, rfl⟩
  have noChar : charLiteral? (first :: rest) = none :=
    BlockKeyword.firstCharacter_cases starts rfl ⟨rfl, rfl⟩ ⟨rfl, rfl⟩
  have notNegated : negated? (first :: rest) = none :=
    BlockKeyword.firstCharacter_cases starts rfl ⟨rfl, rfl⟩ ⟨rfl, rfl⟩
  have noName : isName (first :: rest) = false := by
    apply Bool.eq_false_iff.mpr
    intro named
    exact not_mem_name named (by decide) held
  rw [readTrimmed]
  simp only [List.isEmpty_cons, Bool.false_eq_true, if_false, noString, noChar,
    notCall, noName]
  split
  · next negated => cases notNegated.symm.trans negated
  · constructor
    · intro notConditional
      split
      · next split => cases notConditional.symm.trans split
      · rw [readInteger?_eq_none held]
    · intro condition yes no isConditional
      split
      · next split =>
          cases isConditional.symm.trans split
          rfl
      · next split => cases isConditional.symm.trans split

end Reading

end Expression

open Statement in
/-- A line with a control-flow word that is read as an expression is arithmetic,
if it is no conditional. -/
theorem Statement.IsBlockLine.read_body
    {line : Text} {keyword : BlockKeyword}
    (isBlockLine : IsBlockLine line keyword)
    (isExpression : readPlain (bodyOf line) = .expression (bodyOf line))
    (notConditional : splitConditional? (bodyOf line) = none) :
    Expression.read (bodyOf line) = .arithmetic (bodyOf line) := by
  have trimmed := isBlockLine.trim_bodyOf
  have held := isBlockLine.brace_mem_bodyOf
  have notCall : splitCall? (bodyOf line) = none := by
    rcases isBlockLine.readPlain_cases
      with opening | ⟨_, _, call⟩ | ⟨_, _, assigns⟩ | ⟨_, notCall⟩
    · cases isExpression.symm.trans opening
    · cases isExpression.symm.trans call
    · cases isExpression.symm.trans assigns
    · exact notCall
  obtain ⟨first, rest, body, _, isBody, starts⟩ := isBlockLine.exists_first
  rw [isBody] at trimmed held notCall notConditional ⊢
  rw [Expression.read, trimmed]
  exact (Expression.readTrimmed_of_firstCharacter starts held notCall).1
    notConditional

end LineScript
