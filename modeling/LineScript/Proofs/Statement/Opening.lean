import LineScript.Proofs.Statement.BlockLine
import LineScript.Proofs.Text.Pieces

/-!
Texts that start with a block: a control-flow word, a condition between brackets
and a brace.

Such a text opens a block if it ends with the brace.  With more text behind the
brace it is an expression, arithmetic or a conditional whose condition is
arithmetic.
-/

namespace LineScript

open Text

def opening (keyword : BlockKeyword) (condition : Text) : Text :=
  keyword.text ++ ' ' :: '(' :: (condition ++ [')', ' ', '{'])

/-- A text between the brackets of a condition: its own brackets and literals
are closed, and nothing of it stands outside the brackets around it. -/
structure IsCondition (condition : Text) : Prop where
  inside : ∀ (separator : Separator) (depth : Nat),
    separator.scan.run ⟨.outside, depth + 1⟩ condition =
      some ⟨.outside, depth + 1⟩
  balanced : braceBalance condition = 0

theorem IsCondition.closedQuotes
    {condition : Text} (isCondition : IsCondition condition) :
    Quotes.outside.after condition = .outside :=
  (Scan.quotes_of_run (isCondition.inside .comma 0)).symm

section Opening

variable {keyword : BlockKeyword} {condition : Text}

theorem opening_append (keyword : BlockKeyword) (condition rest : Text) :
    opening keyword condition ++ rest =
      (keyword.text ++ ' ' :: '(' :: (condition ++ [')', ' '])) ++ '{' ::
        rest := by
  simp [opening]

theorem opening_eq (keyword : BlockKeyword) (condition : Text) :
    opening keyword condition =
      (keyword.text ++ ' ' :: '(' :: (condition ++ [')', ' '])) ++ ['{'] := by
  rw [← opening_append, List.append_nil]

theorem brace_mem_opening_append
    (keyword : BlockKeyword) (condition rest : Text) :
    '{' ∈ opening keyword condition ++ rest := by
  rw [opening_append]
  exact List.mem_append_right _ List.mem_cons_self

theorem trimStart_opening_append
    (keyword : BlockKeyword) (condition rest : Text) :
    trimStart (opening keyword condition ++ rest) =
      opening keyword condition ++ rest := by
  cases keyword <;> rfl

theorem trim_opening_append
    {rest : Text} (tight : Tight (opening keyword condition ++ rest)) :
    trim (opening keyword condition ++ rest) =
      opening keyword condition ++ rest :=
  trim_of_tight (trimStart_opening_append keyword condition rest) tight

/-- An opening line opens a bracket and leaves it open. -/
theorem run_opening
    {separator : Separator} (isCondition : IsCondition condition)
    (absent : separator.character ∉ keyword.text) (depth : Nat) :
    separator.scan.run ⟨.outside, depth⟩ (opening keyword condition) =
      some ⟨.outside, depth + 1⟩ := by
  have word :
      separator.scan.run ⟨.outside, depth⟩ keyword.text =
        some ⟨.outside, depth⟩ := by
    apply Scan.run_of_ignored
    intro character member
    apply Separator.step_of_isPlain rfl
    · have named : ∀ character ∈ keyword.text, isNameChar character := by
        cases keyword <;> exact List.all_eq_true.mp rfl
      exact Nesting.isPlain_of_isNameChar (named character member)
    · rintro rfl
      exact absent member
  have blank :
      separator.scan.step ⟨.outside, depth⟩ ' ' = some ⟨.outside, depth⟩ :=
    separator.scan.blank (by decide) rfl
  have opens :
      separator.scan.step ⟨.outside, depth⟩ '(' = some ⟨.outside, depth + 1⟩ :=
        rfl
  have closes :
      separator.scan.step ⟨.outside, depth + 1⟩ ')' = some ⟨.outside, depth⟩ :=
        rfl
  have brace :
      separator.scan.step ⟨.outside, depth⟩ '{' = some ⟨.outside, depth + 1⟩ :=
        rfl
  rw [opening, Scan.run_append_of_run word, Scan.run_cons_of_step blank,
    Scan.run_cons_of_step opens,
    Scan.run_append_of_run (isCondition.inside separator depth),
    Scan.run_cons_of_step closes, Scan.run_cons_of_step blank,
    Scan.run_cons_of_step brace, Scan.run_nil]

section Reading

open Statement

/-- An opening is a block line, whatever follows it. -/
theorem isBlockLine_opening
    {rest : Text} (tight : Tight (opening keyword condition ++ rest)) :
    IsBlockLine (opening keyword condition ++ rest) keyword where
  trimmed := trim_opening_append tight
  opens := by
    have held : (opening keyword condition ++ rest).contains '{' := by
      simpa using brace_mem_opening_append keyword condition rest
    rw [Program.blockOpening?, if_pos held]
    cases keyword <;> rfl

/-- The line that opens a block is read as its word. -/
theorem read_opening (keyword : BlockKeyword) (condition : Text) :
    read (opening keyword condition) = .ok (.blockOpen keyword) := by
  have tight : Tight (opening keyword condition) := by
    rw [opening_eq]
    exact tight_concat _ (by decide)
  have isBlockLine : IsBlockLine (opening keyword condition) keyword := by
    rw [← List.append_nil (opening keyword condition)] at tight ⊢
    exact isBlockLine_opening tight
  have isBody :
      bodyOf (opening keyword condition) = opening keyword condition := by
    rw [opening_eq]
    exact bodyOf_append_cons (by decide) (by decide) _ []
  have ends : endsWith '{' (opening keyword condition) := by
    rw [opening_eq, endsWith, List.getLast?_concat]
    rfl
  rw [isBlockLine.read_eq, isBody, readPlain, Statement.blockOpening?,
    if_pos ends, isBlockLine.ofLine?_eq]

theorem splitCall?_opening (rest : Text) :
    splitCall? (opening keyword condition ++ rest) = none := by
  cases keyword <;> rfl

theorem exists_of_cutAssignmentFrom
    {before rest left right : Text} (absent : '=' ∉ before)
    {previous : Option Char} {nesting : Nesting}
    (found : cutAssignmentFrom previous nesting (before ++ rest) = some (left, right)) :
    ∃ inner, left = before ++ inner := by
  induction before generalizing previous nesting left with
  | nil => exact ⟨left, rfl⟩
  | cons character before inductionHypothesis =>
      obtain ⟨notEquals, absentLater⟩ := not_or.mp (mt List.mem_cons.mpr absent)
      have different : (character == '=') = false :=
        beq_false_of_ne (Ne.symm notEquals)
      rw [List.cons_append, cutAssignmentFrom, different, Bool.and_false,
        Bool.false_and, Bool.false_and, if_neg Bool.false_ne_true] at found
      obtain ⟨⟨innerLeft, innerRight⟩, foundLater, same⟩ :=
        Option.map_eq_some_iff.mp found
      cases same
      obtain ⟨inner, rfl⟩ := inductionHypothesis absentLater foundLater
      exact ⟨inner, rfl⟩

/-- No `=` in the condition makes an assignment of the line. -/
theorem assignment?_opening (rest : Text) :
    assignment? (opening keyword condition ++ rest) = none := by
  have shape : opening keyword condition ++ rest =
      (keyword.text ++ [' ', '(']) ++
        (condition ++ [')', ' ', '{'] ++ rest) := by
    simp [opening]
  have absent : '=' ∉ keyword.text ++ [' ', '('] := by
    cases keyword <;> decide
  rw [assignment?, cutAssignment, shape]
  cases found : cutAssignmentFrom none .start
      ((keyword.text ++ [' ', '(']) ++ (condition ++ [')', ' ', '{'] ++ rest))
        with
  | none => rfl
  | some parts =>
      obtain ⟨left, right⟩ := parts
      obtain ⟨inner, rfl⟩ := exists_of_cutAssignmentFrom absent found
      have held : '(' ∈ trim (keyword.text ++ [' ', '('] ++ inner) :=
        mem_trim_of_not_blank (by simp) (by decide)
      have noName : ¬ isName (trim (keyword.text ++ [' ', '('] ++ inner)) :=
        fun named => not_mem_name named (by decide) held
      rw [Option.bind_some]
      exact if_neg noName

/-- A text that starts with a block and does not end with an opening brace is an
expression. -/
theorem readPlain_opening
    {rest : Text}
    (ends : endsWith '{' (opening keyword condition ++ rest) = false) :
    readPlain (opening keyword condition ++ rest) =
      .expression (opening keyword condition ++ rest) := by
  have held := brace_mem_opening_append keyword condition rest
  have notClosing : opening keyword condition ++ rest ≠ ['}'] := by
    intro closing
    rw [closing] at held
    exact absurd held (by decide)
  have noStep :=
    step?_eq_none held (by decide) (by decide) (by decide) (by decide)
  rw [readPlain, Statement.blockOpening?, ends, if_neg Bool.false_ne_true,
    if_neg notClosing, splitCall?_opening, noStep, assignment?_opening]

end Reading

theorem exists_first_of_opening
    (keyword : BlockKeyword) (condition rest : Text) :
    ∃ first later, opening keyword condition ++ rest = first :: later ∧
      first ∈ BlockKeyword.firstCharacters := by
  cases keyword <;> exact ⟨_, _, rfl, by decide⟩

/-- The condition of a conditional that starts with a block starts with it too,
and is no conditional itself. -/
theorem exists_of_splitConditional?
    (isCondition : IsCondition condition) {rest test yes no : Text}
    (found : splitConditional? (opening keyword condition ++ rest) = some (test, yes, no)) :
    ∃ inner, test = opening keyword condition ++ inner ∧
      splitConditional? test = none := by
  have absent : Separator.question.character ∉ keyword.text := by
    cases keyword <;> decide
  have opened := run_opening isCondition absent 0
  have cut :
      ∀ text, cutTopLevel '?' text = Separator.question.scan.stop .start text :=
    Separator.question.cutTopLevelFrom_eq_stop .start
  rw [splitConditional?, cut] at found
  cases stopped :
    Separator.question.scan.stop .start (opening keyword condition ++ rest) with
  | none =>
      rw [stopped] at found
      cases found
  | some parts =>
      obtain ⟨before, branches⟩ := parts
      obtain ⟨inner, rfl⟩ := Scan.exists_of_stop_append opened stopped
      obtain ⟨reached, character, _, read, stops⟩ := Scan.exists_of_stop stopped
      obtain ⟨rfl, _⟩ := Separator.step_eq_none_iff.mp stops
      have isTest : test = trim (opening keyword condition ++ inner) := by
        rw [stopped] at found
        dsimp only at found
        split at found
        · cases found
        · cases found
          rfl
      have trimmed : trim (opening keyword condition ++ inner) =
          opening keyword condition ++ trimEnd inner := by
        rw [trim, trimStart_opening_append, opening_append, opening_append]
        exact trimEnd_append_of_not_blank _ (by decide) inner
      have noStop := Scan.stop_of_run (Scan.run_trim rfl read rfl)
      refine ⟨trimEnd inner, isTest.trans trimmed, ?_⟩
      rw [isTest, splitConditional?, cut, noStop]

open Expression in
/-- A text that starts with a block is arithmetic, or a conditional whose
condition starts with the block and is arithmetic. -/
theorem readTrimmed_opening
    (isCondition : IsCondition condition) (keyword : BlockKeyword)
    (rest : Text) :
    readTrimmed (opening keyword condition ++ rest) =
        .arithmetic (opening keyword condition ++ rest) ∨
      ∃ inner yes no, readTrimmed (opening keyword condition ++ rest) =
        .conditional
          (.arithmetic (opening keyword condition ++ inner)) yes no := by
  have reads : ∀ later,
      (splitConditional? (opening keyword condition ++ later) = none →
        readTrimmed (opening keyword condition ++ later) =
          .arithmetic (opening keyword condition ++ later)) ∧
      ∀ test yes no,
        splitConditional? (opening keyword condition ++ later) =
          some (test, yes, no) →
          readTrimmed (opening keyword condition ++ later) =
            .conditional (readTrimmed test) (readTrimmed yes)
              (readTrimmed no) := by
    intro later
    have held := brace_mem_opening_append keyword condition later
    have notCall : splitCall? (opening keyword condition ++ later) = none :=
      splitCall?_opening later
    obtain ⟨first, others, shape, starts⟩ :=
      exists_first_of_opening keyword condition later
    rw [shape] at held notCall ⊢
    exact readTrimmed_of_firstCharacter starts held notCall
  cases parts : splitConditional? (opening keyword condition ++ rest) with
  | none => exact .inl ((reads rest).1 parts)
  | some found =>
      obtain ⟨test, yes, no⟩ := found
      obtain ⟨inner, rfl, notConditional⟩ :=
        exists_of_splitConditional? isCondition parts
      have isTest := (reads inner).1 notConditional
      have whole := (reads rest).2 _ yes no parts
      rw [isTest] at whole
      exact .inr ⟨inner, _, _, whole⟩

end Opening
end LineScript
