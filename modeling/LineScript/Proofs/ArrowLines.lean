import LineScript.Function
import LineScript.Proofs.Sequence

/-!
The lines of an arrow function with a block for a body.

The block is cut at its semicolons, and none stands between a block with a
control-flow word and what follows it.  So blocks in a row and the statement
behind them are one line.
-/

namespace LineScript

open Text

def spaced : Text → Text
  | [] => []
  | first :: rest => ' ' :: first :: rest

theorem spaced_of_ne_nil {text : Text} (nonempty : text ≠ []) :
    spaced text = ' ' :: text := by
  obtain ⟨first, rest, rfl⟩ := List.exists_cons_of_ne_nil nonempty
  rfl

/-- The sequence on one line: a semicolon behind each statement, and blanks
between. -/
def Sequence.text : Sequence → Text
  | done => []
  | statement text later => text ++ ';' :: spaced later.text
  | block keyword condition inner later =>
      opening keyword condition ++ (spaced inner.text ++ [' ', '}']) ++
        spaced later.text

/-- Blocks in a row: the word and the condition of the first one, and all that
follows its opening brace. -/
structure BlockRow where
  keyword : BlockKeyword
  condition : Text
  rest : Text

namespace BlockRow

def head (row : BlockRow) : Text :=
  opening row.keyword row.condition

def text (row : BlockRow) : Text :=
  row.head ++ row.rest

def single (keyword : BlockKeyword) (condition : Text) (inner : Sequence) :
    BlockRow where
  keyword := keyword
  condition := condition
  rest := spaced inner.text ++ [' ', '}']

def followedBy (row next : BlockRow) : BlockRow :=
  { row with rest := row.rest ++ ' ' :: next.text }

theorem text_followedBy (row next : BlockRow) :
    (row.followedBy next).text = row.text ++ ' ' :: next.text := by
  simp [followedBy, text, head]

end BlockRow

theorem Sequence.text_block
    (keyword : BlockKeyword) (condition : Text) (inner later : Sequence) :
    (block keyword condition inner later).text =
      (BlockRow.single keyword condition inner).text ++ spaced later.text :=
  rfl

/-- A line of an arrow function with a block for a body. -/
inductive ArrowLine
  | statement (text : Text)
  | blocks (row : BlockRow)
  | glued (row : BlockRow) (text : Text)

namespace ArrowLine

def source : ArrowLine → Text
  | statement text => text
  | blocks row => row.text
  | glued row text => row.text ++ ' ' :: text

def text (line : ArrowLine) : Text :=
  ClosureBody.terminated line.source

/-- The blocks that the line starts with. -/
def row? : ArrowLine → Option BlockRow
  | statement _ => none
  | blocks row => some row
  | glued row _ => some row

end ArrowLine

namespace Sequence

/-- The lines of an arrow function whose block is the sequence, where `pending`
holds the blocks directly before it.  A statement behind blocks is glued to
them. -/
def arrowLines : (pending : Option BlockRow) → Sequence → List ArrowLine
  | none, done => []
  | some row, done => [.blocks row]
  | none, statement text later => .statement text :: later.arrowLines none
  | some row, statement text later => .glued row text :: later.arrowLines none
  | none, block keyword condition inner later =>
      later.arrowLines (some (.single keyword condition inner))
  | some row, block keyword condition inner later =>
      later.arrowLines (some (row.followedBy (.single keyword condition inner)))

/-- The lines of the statements outside the blocks that do not stand directly
behind a block. -/
def unglued : (behindBlock : Bool) → Sequence → List Text
  | _, done => []
  | false, statement text later => (text ++ [';']) :: later.unglued false
  | true, statement _ later => later.unglued false
  | _, block _ _ _ later => later.unglued true

end Sequence

theorem semicolon_not_mem_text (keyword : BlockKeyword) :
    Separator.semicolon.character ∉ keyword.text := by
  cases keyword <;> decide

theorem run_spaced (depth : Nat) (text : Text) :
    Separator.semicolon.scan.run ⟨.outside, depth⟩ (spaced text) =
      Separator.semicolon.scan.run ⟨.outside, depth⟩ text := by
  cases text with
  | nil => rfl
  | cons first rest =>
      exact Scan.run_cons_of_step
        (Separator.semicolon.scan.blank (by decide) rfl) _

/-- A block leaves as many brackets open as were open before it. -/
theorem BlockRow.run_single
    {condition : Text} (isCondition : IsCondition condition)
    (keyword : BlockKeyword) {inner : Sequence} {depth : Nat}
    (readInner : Separator.semicolon.scan.run ⟨.outside, depth + 1⟩ inner.text =
      some ⟨.outside, depth + 1⟩) :
    Separator.semicolon.scan.run ⟨.outside, depth⟩
      (single keyword condition inner).text =
      some ⟨.outside, depth⟩ := by
  have opened := run_opening isCondition (semicolon_not_mem_text keyword) depth
  have closing : Separator.semicolon.scan.run ⟨.outside, depth + 1⟩ [' ', '}'] =
      some ⟨.outside, depth⟩ := rfl
  rw [← run_spaced] at readInner
  rw [text, head, single, Scan.run_append_of_run opened,
    Scan.run_append_of_run readInner, closing]

/-- Between the braces of a block no semicolon ends a statement. -/
theorem Sequence.run_text
    {sequence : Sequence} (wellFormed : sequence.WellFormed) (depth : Nat) :
    Separator.semicolon.scan.run ⟨.outside, depth + 1⟩ sequence.text =
      some ⟨.outside, depth + 1⟩ := by
  induction sequence generalizing depth with
  | done => rfl
  | statement text later inductionHypothesis =>
      obtain ⟨simple, laterFormed⟩ := wellFormed
      have passes : Separator.semicolon.scan.step ⟨.outside, depth + 1⟩ ';' =
          some ⟨.outside, depth + 1⟩ := rfl
      rw [Sequence.text, Scan.run_append_of_run (simple.closed _),
        Scan.run_cons_of_step passes, run_spaced,
        inductionHypothesis laterFormed]
  | block keyword condition inner later innerHypothesis laterHypothesis =>
      obtain ⟨isCondition, innerFormed, laterFormed⟩ := wellFormed
      have readBlock :=
        BlockRow.run_single isCondition keyword
          (innerHypothesis innerFormed (depth + 1))
      rw [Sequence.text_block, Scan.run_append_of_run readBlock, run_spaced,
        laterHypothesis laterFormed]

/-- The trimmed pieces between the semicolons of a text, the blank ones
aside. -/
def statementsOf (source : Text) : List Text :=
  ((topLevelPieces ';' .start source).map trim).filter fun statement =>
    !statement.isEmpty

theorem ClosureBody.lines_block (source : Text) :
    (block source).lines = (statementsOf source).map terminated := by
  rw [lines, splitTopLevel]
  split
  · next empty =>
      have blank : trim source = [] := List.isEmpty_iff.mp empty
      obtain ⟨before, after, whole, blanksBefore, blanksAfter⟩ :=
        exists_blanks_around source
      have allBlank : ∀ character ∈ source, isBlank character := by
        rw [whole, blank, List.append_nil]
        exact List.forall_mem_append.mpr ⟨blanksBefore, blanksAfter⟩
      have read : Separator.semicolon.scan.run .start source = some .start :=
        Scan.run_blanks rfl allBlank
      have single : topLevelPieces ';' .start source = [source] :=
        Separator.pieces_of_run read
      rw [statementsOf, single, List.map_singleton, blank]
      rfl
  · rfl

/-- A text without a semicolon at the top level is one statement. -/
theorem statementsOf_of_run
    {reached : Nesting} {source : Text}
    (read : Separator.semicolon.scan.run .start source = some reached)
    (notBlank : trim source ≠ []) : statementsOf source = [trim source] := by
  have single : topLevelPieces ';' .start source = [source] :=
    Separator.pieces_of_run read
  rw [statementsOf, single, List.map_singleton]
  exact List.filter_eq_self.mpr (by simpa using notBlank)

/-- The first semicolon at the top level ends the first statement. -/
theorem statementsOf_append
    {source : Text}
    (read : Separator.semicolon.scan.run .start source = some .start)
    (notBlank : trim source ≠ []) (rest : Text) :
    statementsOf (source ++ ';' :: rest) =
      trim source :: statementsOf rest := by
  have cut : topLevelPieces ';' .start (source ++ ';' :: rest) =
      source :: topLevelPieces ';' .start rest :=
    Separator.pieces_append read rest
  rw [statementsOf, cut, List.map_cons,
    List.filter_cons_of_pos (by simpa using notBlank), statementsOf]

theorem statementsOf_space_cons (source : Text) :
    statementsOf (' ' :: source) = statementsOf source := by
  have passed : ¬ (Nesting.start.exposes ';' ∧ ' ' = ';') := by decide
  have unmoved : Nesting.start.next ' ' = .start := rfl
  rw [statementsOf, topLevelPieces_cons_of_not passed, unmoved, topLevelPieces,
    List.modifyHead_cons, List.map_cons, trim_space_cons, ← List.map_cons,
    ← topLevelPieces, statementsOf]

theorem statementsOf_spaced (source : Text) :
    statementsOf (spaced source) = statementsOf source := by
  cases source with
  | nil => rfl
  | cons first rest => exact statementsOf_space_cons (first :: rest)

/-- The row ends with a brace, and all its brackets and literals are closed. -/
structure BlockRow.Closed (row : BlockRow) : Prop where
  isCondition : IsCondition row.condition
  read : Separator.semicolon.scan.run .start row.text = some .start
  ends : ∃ inner, row.rest = inner ++ ['}']

namespace BlockRow

theorem closed_single
    {condition : Text} (isCondition : IsCondition condition) {inner : Sequence}
    (innerFormed : inner.WellFormed) (keyword : BlockKeyword) :
    (single keyword condition inner).Closed where
  isCondition := isCondition
  read := run_single isCondition keyword (Sequence.run_text innerFormed 0)
  ends := ⟨spaced inner.text ++ [' '], by simp [single]⟩

theorem text_ne_nil (row : BlockRow) : row.text ≠ [] := by
  rw [text, head, opening_eq]
  simp

variable {row : BlockRow} (closed : row.Closed)

include closed

theorem Closed.followedBy {next : BlockRow} (nextClosed : next.Closed) :
    (row.followedBy next).Closed where
  isCondition := closed.isCondition
  read := by
    have blank : Separator.semicolon.scan.step .start ' ' = some .start := rfl
    rw [text_followedBy, Scan.run_append_of_run closed.read,
      Scan.run_cons_of_step blank, nextClosed.read]
  ends := by
    obtain ⟨inner, isRest⟩ := nextClosed.ends
    refine ⟨row.rest ++ ' ' :: (next.head ++ inner), ?_⟩
    simp [BlockRow.followedBy, text, isRest]

theorem Closed.tight_text : Tight row.text := by
  obtain ⟨inner, isRest⟩ := closed.ends
  rw [text, isRest, ← List.append_assoc]
  exact tight_concat _ (by decide)

theorem Closed.trim_text : trim row.text = row.text :=
  trim_opening_append closed.tight_text

end BlockRow

theorem tight_glued (row : BlockRow) {text : Text} (simple : IsSimple text) :
    Tight (row.text ++ ' ' :: text) := by
  rw [List.append_cons]
  exact tight_append _ simple.nonempty (tight_of_trimmed simple.trimmed)

theorem trim_glued (row : BlockRow) {text : Text} (simple : IsSimple text) :
    trim (row.text ++ ' ' :: text) = row.text ++ ' ' :: text := by
  have tight := tight_glued row simple
  rw [BlockRow.text, BlockRow.head, List.append_assoc] at tight ⊢
  exact trim_opening_append tight

/-- Cutting the text of a sequence gives its lines.  The induction carries the
blocks that were read since the last semicolon. -/
theorem Sequence.statementsOf_text
    {sequence : Sequence} (wellFormed : sequence.WellFormed)
    (pending : Option BlockRow) (closed : pending.elim True BlockRow.Closed) :
    statementsOf (pending.elim [] BlockRow.text ++ spaced sequence.text) =
      (sequence.arrowLines pending).map ArrowLine.source := by
  induction sequence generalizing pending with
  | done =>
      cases pending with
      | none => rfl
      | some row =>
          have notBlank : trim row.text ≠ [] := by
            rw [closed.trim_text]
            exact row.text_ne_nil
          have whole : row.text ++ spaced [] = row.text := List.append_nil _
          rw [Option.elim_some, Sequence.text, whole,
            statementsOf_of_run closed.read notBlank, closed.trim_text]
          rfl
  | statement text later inductionHypothesis =>
      obtain ⟨simple, laterFormed⟩ := wellFormed
      have nonempty : text ++ ';' :: spaced later.text ≠ [] := by simp
      have laterLines := inductionHypothesis laterFormed none trivial
      rw [Sequence.text, spaced_of_ne_nil nonempty]
      cases pending with
      | none =>
          have notBlank : trim text ≠ [] := by
            rw [simple.trimmed]
            exact simple.nonempty
          rw [Option.elim_none, List.nil_append, statementsOf_space_cons,
            statementsOf_append (simple.closed 0) notBlank, simple.trimmed]
          exact congrArg (text :: ·) laterLines
      | some row =>
          have trimmed := trim_glued row simple
          have notBlank : trim (row.text ++ ' ' :: text) ≠ [] := by
            rw [trimmed]
            simp
          have blank :
              Separator.semicolon.scan.step .start ' ' = some .start := rfl
          have read :
              Separator.semicolon.scan.run .start (row.text ++ ' ' :: text) =
              some .start := by
            rw [Scan.run_append_of_run closed.read, Scan.run_cons_of_step blank]
            exact simple.closed 0
          have whole : row.text ++ ' ' :: (text ++ ';' :: spaced later.text) =
              row.text ++ ' ' :: text ++ ';' :: spaced later.text := by
            simp
          rw [Option.elim_some, whole, statementsOf_append read notBlank,
            trimmed]
          exact congrArg (_ :: ·) laterLines
  | block keyword condition inner later _ laterHypothesis =>
      obtain ⟨isCondition, innerFormed, laterFormed⟩ := wellFormed
      have nextClosed := BlockRow.closed_single isCondition innerFormed keyword
      have nonempty :
          (BlockRow.single keyword condition inner).text ++ spaced later.text ≠
            [] := by
        simp [BlockRow.text_ne_nil]
      rw [Sequence.text_block, spaced_of_ne_nil nonempty]
      cases pending with
      | none =>
          rw [Option.elim_none, List.nil_append, statementsOf_space_cons]
          exact laterHypothesis laterFormed (some _) nextClosed
      | some row =>
          have longer :=
            laterHypothesis laterFormed (some _) (closed.followedBy nextClosed)
          rw [Option.elim_some, BlockRow.text_followedBy,
            List.append_assoc] at longer
          exact longer

/-- The lines of an arrow function are those of its sequence. -/
theorem Sequence.lines_text
    {sequence : Sequence} (wellFormed : sequence.WellFormed) :
    (ClosureBody.block sequence.text).lines =
      (sequence.arrowLines none).map ArrowLine.text := by
  have cut := statementsOf_text wellFormed none trivial
  rw [Option.elim_none, List.nil_append, statementsOf_spaced] at cut
  rw [ClosureBody.lines_block, cut, List.map_map]
  rfl

end LineScript
