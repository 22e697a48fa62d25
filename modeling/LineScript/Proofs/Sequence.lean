import LineScript.Proofs.Body
import LineScript.Proofs.Statement.Opening

/-!
Sequences of statements and of blocks with control-flow words, as they stand in
the body of a function.

Written line by line, as the body of a function that is declared by name, a
sequence is run by running its statements outside the blocks.
-/

namespace LineScript

open Text

/-- Statements and blocks, one after the other.  A block holds a sequence of its
own. -/
inductive Sequence
  | done
  | statement (text : Text) (later : Sequence)
  | block (keyword : BlockKeyword) (condition : Text) (inner later : Sequence)

namespace Sequence

/-- The lines of a body: each statement, each opening and each closing brace on
its own line. -/
def lines : Sequence → List Text
  | done => []
  | statement text later => (text ++ [';']) :: later.lines
  | block keyword condition inner later =>
      opening keyword condition :: (inner.lines ++ [['}']] ++ later.lines)

def statements : Sequence → List Text
  | done => []
  | statement text later => (text ++ [';']) :: later.statements
  | block _ _ _ later => later.statements

end Sequence

def Separator.semicolon : Separator := ⟨';', by decide, by decide⟩

/-- A statement without its semicolon that is no block: its brackets and
literals are closed, no semicolon stands outside them, and it does not end with
a brace. -/
structure IsSimple (text : Text) : Prop where
  trimmed : trim text = text
  nonempty : text ≠ []
  closed : ∀ depth, Separator.semicolon.scan.run ⟨.outside, depth⟩ text =
    some ⟨.outside, depth⟩
  balanced : braceBalance text = 0
  noBrace : endsWith '{' text = false ∧ endsWith '}' text = false

/-- All statements and conditions of the sequence are well formed. -/
def Sequence.WellFormed : Sequence → Prop
  | done => True
  | statement text later => IsSimple text ∧ later.WellFormed
  | block _ condition inner later =>
      IsCondition condition ∧ inner.WellFormed ∧ later.WellFormed

namespace Text

theorem braceBalanceFrom_append_after (quotes : Quotes) (before after : Text) :
    braceBalanceFrom quotes (before ++ after) =
      braceBalanceFrom quotes before +
        braceBalanceFrom (quotes.after before) after := by
  induction before generalizing quotes with
  | nil => exact (Int.zero_add _).symm
  | cons character before inductionHypothesis =>
      rw [List.cons_append, braceBalanceFrom, braceBalanceFrom,
        inductionHypothesis]
      have goesOn : quotes.after (character :: before) =
          (quotes.next character).after before := rfl
      rw [goesOn]
      split
      · rfl
      · split
        · omega
        · split
          · omega
          · rfl

theorem braceBalance_append
    {before : Text} (closed : Quotes.outside.after before = .outside)
    (after : Text) :
    braceBalance (before ++ after) =
      braceBalance before + braceBalance after := by
  rw [braceBalance, braceBalanceFrom_append_after, closed]
  rfl

end Text

theorem IsSimple.closedQuotes {text : Text} (simple : IsSimple text) :
    Quotes.outside.after text = .outside :=
  (Scan.quotes_of_run (simple.closed 0)).symm

theorem IsSimple.braceBalance_line {text : Text} (simple : IsSimple text) :
    braceBalance (text ++ [';']) = 0 := by
  rw [braceBalance_append simple.closedQuotes, simple.balanced]
  rfl

/-- The line that opens a block opens one bracket more than it closes. -/
theorem braceBalance_opening
    {condition : Text} (isCondition : IsCondition condition)
    (keyword : BlockKeyword) :
    braceBalance (opening keyword condition) = 1 := by
  have start : braceBalance (opening keyword condition) =
      braceBalance (condition ++ [')', ' ', '{']) := by
    cases keyword <;> rfl
  rw [start, braceBalance_append isCondition.closedQuotes, isCondition.balanced]
  rfl

namespace Sequence

/-- What is open before the lines of a sequence is still open after them. -/
theorem closes_lines
    {sequence : Sequence} (wellFormed : sequence.WellFormed) {opened : Int}
    (isOpen : 0 < opened) {rest : List Text} (closes : Closes opened rest) :
    Closes opened (sequence.lines ++ rest) := by
  induction sequence generalizing opened rest with
  | done => exact closes
  | statement text later inductionHypothesis =>
      obtain ⟨simple, laterFormed⟩ := wellFormed
      apply closes_cons_iff.mpr
      rw [simple.braceBalance_line, Int.add_zero]
      exact .inr ⟨isOpen, inductionHypothesis laterFormed isOpen closes⟩
  | block keyword condition inner later innerHypothesis laterHypothesis =>
      obtain ⟨isCondition, innerFormed, laterFormed⟩ := wellFormed
      have closing : braceBalance ['}'] = -1 := rfl
      have afterInner :
          Closes (opened + 1) ([['}']] ++ (later.lines ++ rest)) := by
        apply closes_cons_iff.mpr
        rw [closing, Int.add_neg_cancel_right]
        exact .inr ⟨isOpen, laterHypothesis laterFormed isOpen closes⟩
      have stillOpen : 0 < opened + 1 := by omega
      have shape : (block keyword condition inner later).lines ++ rest =
          opening keyword condition ::
            (inner.lines ++ ([['}']] ++ (later.lines ++ rest))) := by
        simp [lines]
      rw [shape]
      apply closes_cons_iff.mpr
      rw [braceBalance_opening isCondition keyword]
      exact .inr ⟨stillOpen, innerHypothesis innerFormed stillOpen afterInner⟩

/-- A block ends with its closing brace. -/
theorem closes_block
    {inner : Sequence} (innerFormed : inner.WellFormed) {condition : Text}
    (isCondition : IsCondition condition) (keyword : BlockKeyword) :
    Closes 0 (opening keyword condition :: (inner.lines ++ [['}']])) := by
  have last : Closes (0 + 1) [['}']] :=
    closes_cons_iff.mpr (.inl ⟨by decide, rfl⟩)
  apply closes_cons_iff.mpr
  rw [braceBalance_opening isCondition keyword]
  exact .inr ⟨by decide, closes_lines innerFormed (by decide) last⟩

end Sequence

namespace Evaluation

variable {settings : Settings} {invoke : Invoker Action} {scope : ScopeId}
    {function : Function}

/-- After a line that leaves no brace open the lines that follow can be replaced
by others that are run alike. -/
theorem runLines_cons_congr
    {line : Text} (balanced : braceBalance line ≤ 0) {later others : List Text}
    (same : runLines settings invoke scope function 0 later =
      runLines settings invoke scope function 0 others) :
    runLines settings invoke scope function 0 (line :: later) =
      runLines settings invoke scope function 0 (line :: others) := by
  cases reads : Statement.read line with
  | error fault => rw [runLines, runLines, walkLines, walkLines, reads]; rfl
  | ok statement =>
      by_cases isBlock : ∃ keyword, statement = .blockOpen keyword
      · obtain ⟨keyword, rfl⟩ := isBlock
        have closes : Closes 0 [line] :=
          closes_cons_iff.mpr (.inl ⟨by simpa using balanced, rfl⟩)
        rw [← List.nil_append later, ← List.nil_append others,
          runLines_block reads closes, runLines_block reads closes, same]
      · by_cases isReturn : ∃ value, statement = .returns value
        · obtain ⟨value, rfl⟩ := isReturn
          rw [runLines, runLines, walkLines, walkLines, reads]
          rfl
        · have notBlock : ∀ keyword, statement ≠ .blockOpen keyword :=
            fun keyword same => isBlock ⟨keyword, same⟩
          have notReturn : ∀ value, statement ≠ .returns value :=
            fun value same => isReturn ⟨value, same⟩
          rw [runLines_cons reads notBlock notReturn,
            runLines_cons reads notBlock notReturn, same]

/-- Line by line, a sequence is run by running its statements outside the
blocks. -/
theorem runLines_sequence
    {sequence : Sequence} (wellFormed : sequence.WellFormed) :
    runLines settings invoke scope function 0 sequence.lines =
      runLines settings invoke scope function 0 sequence.statements := by
  induction sequence with
  | done => rfl
  | statement text later inductionHypothesis =>
      obtain ⟨simple, laterFormed⟩ := wellFormed
      exact runLines_cons_congr (Int.le_of_eq simple.braceBalance_line)
        (inductionHypothesis laterFormed)
  | block keyword condition inner later _ laterHypothesis =>
      obtain ⟨isCondition, innerFormed, laterFormed⟩ := wellFormed
      have closes := Sequence.closes_block innerFormed isCondition keyword
      rw [Sequence.lines, Sequence.statements, ← laterHypothesis laterFormed]
      exact runLines_block (read_opening keyword condition) closes later.lines

end Evaluation
end LineScript
