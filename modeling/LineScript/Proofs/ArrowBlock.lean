import LineScript.Proofs.ArrowLines
import LineScript.Proofs.OneLineBlock

/-!
Arrow functions with a block for a body, and how they are run.

A line that holds blocks and the statement behind them is no block: it is run as
an expression that looks up the names in the condition of the first block, and
the statement is not run.
-/

namespace LineScript

open Text

open Statement in
theorem bodyOf_terminated {source : Text} (tight : Tight source) :
    bodyOf (ClosureBody.terminated source) = source := by
  have kept :
      ∀ {brace : Char}, ¬ isBlank brace → brace ≠ ';' → endsWith brace source →
      bodyOf source = source := by
    intro brace notBlank notSemicolon ends
    obtain ⟨before, rfl⟩ := List.getLast?_eq_some_iff.mp (beq_iff_eq.mp ends)
    exact bodyOf_append_cons notBlank notSemicolon before []
  rw [ClosureBody.terminated]
  split
  · next ends =>
      rcases Bool.or_eq_true_iff.mp ends with opens | closes
      · exact kept (by decide) (by decide) opens
      · exact kept (by decide) (by decide) closes
  · rw [bodyOf, dropEnd?_append]
    exact tight.trimEnd_eq

namespace Evaluation

section Opening

variable {keyword : BlockKeyword} {condition : Text}

theorem bareNames_opening (keyword : BlockKeyword) (condition rest : Text) :
    Arithmetic.bareNames (opening keyword condition ++ rest) =
      Arithmetic.bareNames (opening keyword condition) := by
  rw [opening_append, Arithmetic.bareNames_brace, ← opening_eq]

/-- Run as an expression, a text that starts with a block looks up the names in
the condition of the block and does nothing else. -/
theorem runExpression_opening
    (isCondition : IsCondition condition) {rest : Text}
    (tight : Tight (opening keyword condition ++ rest)) (invoke : Invoker Action)
    (scope : ScopeId) :
    runExpression (evaluateText invoke scope)
        (opening keyword condition ++ rest) =
      lookUp scope (Arithmetic.bareNames (opening keyword condition)) := by
  have trimmed := trim_opening_append tight
  rcases readTrimmed_opening isCondition keyword rest with
    isArithmetic | ⟨inner, yes, no, isConditional⟩
  · rw [← bareNames_opening keyword condition rest]
    apply runExpression_arithmetic
    rw [Expression.read, trimmed, isArithmetic]
  · rw [← bareNames_opening keyword condition inner]
    apply runExpression_of_evaluated
    intro machine
    have never : ∀ value, Arithmetic.evaluate (machine.lookupNumber scope)
        (opening keyword condition ++ inner) ≠ .ok value :=
      Arithmetic.evaluate_ne_ok_of_brace
        (brace_mem_opening_append keyword condition inner)
    have evaluated :
        (evaluate invoke scope
          (.arithmetic (opening keyword condition ++ inner))).run machine =
          ((Arithmetic.evaluate (machine.lookupNumber scope)
            (opening keyword condition ++ inner)).map .float64, machine) := rfl
    rw [evaluateText, Expression.read, trimmed, isConditional, evaluate,
      choose, Action.run_bind, evaluated]
    cases failed : Arithmetic.evaluate (machine.lookupNumber scope)
        (opening keyword condition ++ inner) with
    | ok value => exact absurd failed (never value)
    | error fault => rfl

/-- In a body, a line that starts with a block and does not end with an opening
brace looks up the names in the condition of the block and is passed over. -/
theorem runLines_opening
    (isCondition : IsCondition condition) {rest : Text}
    (tight : Tight (opening keyword condition ++ rest))
    (ends : endsWith '{' (opening keyword condition ++ rest) = false)
    (settings : Settings) (invoke : Invoker Action) (scope : ScopeId)
    (function : Function) (later : List Text) :
    runLines settings invoke scope function 0
        (ClosureBody.terminated (opening keyword condition ++ rest) :: later) =
      (do
        lookUp scope (Arithmetic.bareNames (opening keyword condition))
        runLines settings invoke scope function 0 later) := by
  have isBody := bodyOf_terminated tight
  have isBlockLine : Statement.IsBlockLine
      (ClosureBody.terminated (opening keyword condition ++ rest)) keyword := by
    rw [ClosureBody.terminated]
    split
    · exact isBlockLine_opening tight
    · rw [List.append_assoc]
      apply isBlockLine_opening
      rw [← List.append_assoc]
      exact tight_concat _ (by decide)
  have reads := isBlockLine.read_eq
  rw [isBody, readPlain_opening ends] at reads
  rw [← runExpression_opening isCondition tight invoke scope]
  exact runLines_expression reads later

end Opening
end Evaluation

namespace ArrowLine

/-- The statement of the line is well formed, and its blocks are closed. -/
def WellFormed : ArrowLine → Prop
  | statement text => IsSimple text
  | blocks row => row.Closed
  | glued row text => row.Closed ∧ IsSimple text

theorem text_statement {text : Text} (simple : IsSimple text) :
    (statement text).text = text ++ [';'] := by
  obtain ⟨notOpening, notClosing⟩ := simple.noBrace
  rw [ArrowLine.text, source, ClosureBody.terminated, notOpening, notClosing]
  rfl

open Evaluation in
/-- Of a line that starts with a block only the names of its head are looked
up. -/
theorem runLines_cons
    {line : ArrowLine} (wellFormed : line.WellFormed) {row : BlockRow}
    (starts : line.row? = some row)
    (settings : Settings) (invoke : Invoker Action) (scope : ScopeId)
    (function : Function) (later : List Text) :
    runLines settings invoke scope function 0 (line.text :: later) =
      (do
        lookUp scope (Arithmetic.bareNames row.head)
        runLines settings invoke scope function 0 later) := by
  cases line with
  | statement text => cases starts
  | blocks row =>
      cases starts
      have tight := wellFormed.tight_text
      obtain ⟨inner, isRest⟩ := wellFormed.ends
      have ends : endsWith '{' row.text = false := by
        rw [BlockRow.text, isRest, ← List.append_assoc, endsWith,
          List.getLast?_concat]
        rfl
      exact runLines_opening wellFormed.isCondition tight ends settings invoke
        scope function later
  | glued row text =>
      cases starts
      obtain ⟨closed, simple⟩ := wellFormed
      have tight := tight_glued row simple
      have ends : endsWith '{' (row.text ++ ' ' :: text) = false := by
        rw [List.append_cons, endsWith,
          List.getLast?_append_of_ne_nil _ simple.nonempty]
        exact simple.noBrace.1
      rw [BlockRow.text, BlockRow.head, List.append_assoc] at tight ends
      rw [ArrowLine.text, source, BlockRow.text, BlockRow.head,
        List.append_assoc]
      exact runLines_opening closed.isCondition tight ends settings invoke scope
        function later

end ArrowLine

namespace Sequence

/-- Joining closed blocks to the statements behind them gives well-formed
lines. -/
theorem wellFormed_of_mem_arrowLines
    {sequence : Sequence} (wellFormed : sequence.WellFormed)
    (pending : Option BlockRow) (closed : pending.elim True BlockRow.Closed) :
    ∀ line ∈ sequence.arrowLines pending, line.WellFormed := by
  induction sequence generalizing pending with
  | done =>
      cases pending with
      | none => exact List.forall_mem_nil _
      | some row => exact List.forall_mem_singleton.mpr closed
  | statement text later inductionHypothesis =>
      obtain ⟨simple, laterFormed⟩ := wellFormed
      have laterLines := inductionHypothesis laterFormed none trivial
      cases pending with
      | none => exact List.forall_mem_cons.mpr ⟨simple, laterLines⟩
      | some row =>
          exact List.forall_mem_cons.mpr ⟨⟨closed, simple⟩, laterLines⟩
  | block keyword condition inner later _ laterHypothesis =>
      obtain ⟨isCondition, innerFormed, laterFormed⟩ := wellFormed
      have nextClosed := BlockRow.closed_single isCondition innerFormed keyword
      cases pending with
      | none => exact laterHypothesis laterFormed (some _) nextClosed
      | some row =>
          exact laterHypothesis laterFormed (some _)
            (closed.followedBy nextClosed)

end Sequence

open Evaluation

/-- Where no condition has a name to look up, only the statements that do not
stand directly behind a block are run. -/
theorem Sequence.runLines_arrowLines
    {settings : Settings} {invoke : Invoker Action} {scope : ScopeId}
    {function : Function}
    {sequence : Sequence} (wellFormed : sequence.WellFormed)
    (pending : Option BlockRow) (closed : pending.elim True BlockRow.Closed)
    (nameless :
      ∀ line ∈ sequence.arrowLines pending, ∀ row, line.row? = some row →
      Arithmetic.bareNames row.head = []) :
    runLines settings invoke scope function 0
      ((sequence.arrowLines pending).map ArrowLine.text) =
      runLines settings invoke scope function 0
        (sequence.unglued pending.isSome) := by
  have passedOver : ∀ (line : ArrowLine) (row : BlockRow), line.WellFormed →
      line.row? = some row → Arithmetic.bareNames row.head = [] → ∀ later,
        runLines settings invoke scope function 0 (line.text :: later) =
          runLines settings invoke scope function 0 later := by
    intro line row lineFormed starts noNames later
    rw [ArrowLine.runLines_cons lineFormed starts, noNames]
    rfl
  induction sequence generalizing pending with
  | done =>
      cases pending with
      | none => rfl
      | some row =>
          have noNames := nameless (.blocks row) List.mem_cons_self row rfl
          exact passedOver (.blocks row) row closed rfl noNames []
  | statement text later inductionHypothesis =>
      obtain ⟨simple, laterFormed⟩ := wellFormed
      cases pending with
      | none =>
          have same := inductionHypothesis laterFormed none trivial
            fun line member => nameless line (List.mem_cons_of_mem _ member)
          rw [arrowLines, List.map_cons, ArrowLine.text_statement simple]
          exact runLines_cons_congr (Int.le_of_eq simple.braceBalance_line) same
      | some row =>
          have same := inductionHypothesis laterFormed none trivial
            fun line member => nameless line (List.mem_cons_of_mem _ member)
          have noNames := nameless (.glued row text) List.mem_cons_self row rfl
          exact (passedOver (.glued row text) row
            ⟨closed, simple⟩ rfl noNames _).trans same
  | block keyword condition inner later _ laterHypothesis =>
      obtain ⟨isCondition, innerFormed, laterFormed⟩ := wellFormed
      have nextClosed := BlockRow.closed_single isCondition innerFormed keyword
      cases pending with
      | none => exact laterHypothesis laterFormed (some _) nextClosed nameless
      | some row =>
          exact laterHypothesis laterFormed (some _)
            (closed.followedBy nextClosed) nameless

/-- A sequence as the body of a function that is declared by name and as the
block of an arrow function.  The first runs the statements outside the blocks.
The second has one line for blocks in a row and the statement behind them, and
such a line only looks up the names in the condition of the first block: of the
statements outside the blocks it does not run those that stand directly behind a
block. -/
theorem arrow_functions_lose_statements_behind_blocks
    {sequence : Sequence} (wellFormed : sequence.WellFormed) {closure : Closure}
    (written : closure.body = .block sequence.text) :
    (∀ settings invoke scope function,
      runLines settings invoke scope function 0 sequence.lines =
        runLines settings invoke scope function 0 sequence.statements) ∧
    closure.function.body = (sequence.arrowLines none).map ArrowLine.text ∧
    (∀ line ∈ sequence.arrowLines none, ∀ row, line.row? = some row →
      OnlyLooksUp line.text (Arithmetic.bareNames row.head)) ∧
    ((∀ line ∈ sequence.arrowLines none, ∀ row, line.row? = some row →
        Arithmetic.bareNames row.head = []) →
      ∀ settings invoke scope function,
        runLines settings invoke scope function 0 closure.function.body =
          runLines settings invoke scope function 0
            (sequence.unglued false)) := by
  have isBody :
      closure.function.body =
        (sequence.arrowLines none).map ArrowLine.text := by
    rw [← Sequence.lines_text wellFormed, ← written]
    rfl
  refine ⟨?_, isBody, ?_, ?_⟩
  · intro settings invoke scope function
    exact runLines_sequence wellFormed
  · intro line member row starts
    have lineFormed :=
      Sequence.wellFormed_of_mem_arrowLines wellFormed none trivial line member
    exact .of_runLines (ArrowLine.runLines_cons lineFormed starts)
  · intro nameless settings invoke scope function
    rw [isBody]
    exact Sequence.runLines_arrowLines wellFormed none trivial nameless

def barred : Sequence :=
  .block .ifWord "1".toList (.statement "a = 2".toList .done)
    (.statement "console.write(\"x\")".toList
      (.statement "console.write(\"y\")".toList .done))

theorem wellFormed_barred : barred.WellFormed := by
  refine ⟨⟨fun _ _ => rfl, rfl⟩, ⟨?_, trivial⟩, ?_, ?_, trivial⟩
  · exact ⟨rfl, by decide, fun depth => by cases depth <;> rfl, rfl, by decide⟩
  · exact ⟨rfl, by decide, fun depth => by cases depth <;> rfl, rfl, by decide⟩
  · exact ⟨rfl, by decide, fun depth => by cases depth <;> rfl, rfl, by decide⟩

def barredArrow : Closure where
  name := "f".toList
  parameters := []
  returns := .void
  body := .block barred.text

theorem nameless_barred :
    ∀ line ∈ barred.arrowLines none, ∀ row, line.row? = some row →
      Arithmetic.bareNames row.head = [] := by
  refine List.forall_mem_cons.mpr ⟨?_, List.forall_mem_singleton.mpr ?_⟩
  · rintro row isRow
    cases isRow
    decide +kernel
  · intro row isRow
    cases isRow

/-- The first of the two statements behind the block of `barred` is lost: it
stands on the line of the block. -/
theorem arrow_functions_lose_statements_behind_blocks_of_barred :
    barred.WellFormed ∧
      barred.lines =
        ["if (1) ".toList ++ ['{'], "a = 2;".toList, ['}'],
          "console.write(\"x\");".toList, "console.write(\"y\");".toList] ∧
      barredArrow.function.body =
        ["if (1) { a = 2; } console.write(\"x\");".toList,
          "console.write(\"y\");".toList] ∧
      ∀ settings invoke scope function,
        runLines settings invoke scope function 0 barred.lines =
            runLines settings invoke scope function 0
              ["console.write(\"x\");".toList, "console.write(\"y\");".toList] ∧
          runLines settings invoke scope function 0 barredArrow.function.body =
            runLines settings invoke scope function 0
              ["console.write(\"y\");".toList] := by
  have written : barredArrow.body = .block barred.text := rfl
  obtain ⟨named, isBody, _, arrow⟩ :=
    arrow_functions_lose_statements_behind_blocks wellFormed_barred written
  refine ⟨wellFormed_barred, rfl, isBody, ?_⟩
  intro settings invoke scope function
  exact ⟨named settings invoke scope function,
    arrow nameless_barred settings invoke scope function⟩

/-- A line that prints a text without escapes and holes. -/
theorem run_runLines_write
    {settings : Settings} {invoke : Invoker Action} {scope : ScopeId}
    {function : Function}
    {line template text : Text}
    (reads : Statement.read line = .ok (.write template [] true))
    (isString : Expression.read template = .string text) {machine : Machine}
    (interpolated : interpolate machine scope text = .ok text)
    (later : List Text) :
    (runLines settings invoke scope function 0 (line :: later)).run machine =
      (runLines settings invoke scope function 0 later).run
        { machine with output := (text ++ ['\n']) :: machine.output } := by
  have evaluated : (evaluateText invoke scope template).run machine =
      (.ok (.string text), machine) := by
    rw [evaluateText, isString]
    show ((interpolate machine scope text).map Value.string, machine) = _
    rw [interpolated]
    rfl
  have rendered : (render (evaluateText invoke scope) template []).run machine =
      (.ok (.string text), machine) := by
    rw [render, Action.run_bind, evaluated]
    rfl
  rw [runLines_cons reads (by rintro _ ⟨⟩) (by rintro _ ⟨⟩), Action.run_bind,
    run_runStatement_write rendered]
  rfl

/-- The statement directly behind the block is run by the function that is
declared by name, and not by the arrow function. -/
theorem statement_behind_a_block_is_not_run :
    barred.WellFormed ∧ ∀ settings invoke function,
      ((runLines settings invoke 0 function 0 barred.lines).run
        .start).2.output =
          ["y\n".toList, "x\n".toList] ∧
        ((runLines settings invoke 0 function 0 barredArrow.function.body).run
          .start).2.output =
          ["y\n".toList] := by
  refine ⟨wellFormed_barred, ?_⟩
  intro settings invoke function
  have isBody :
      barredArrow.function.body = (barred.arrowLines none).map ArrowLine.text :=
    Sequence.lines_text wellFormed_barred
  have readX : Statement.read "console.write(\"x\");".toList =
      .ok (.write "\"x\"".toList [] true) := rfl
  have readY : Statement.read "console.write(\"y\");".toList =
      .ok (.write "\"y\"".toList [] true) := rfl
  have stringX :
      Expression.read "\"x\"".toList = .string "x".toList := by decide +kernel
  have stringY :
      Expression.read "\"y\"".toList = .string "y".toList := by decide +kernel
  have interpolatedX :
      ∀ machine, interpolate machine 0 "x".toList = .ok "x".toList := by
    intro machine
    with_unfolding_all rfl
  have interpolatedY :
      ∀ machine, interpolate machine 0 "y".toList = .ok "y".toList := by
    intro machine
    with_unfolding_all rfl
  rw [runLines_sequence wellFormed_barred, isBody,
    Sequence.runLines_arrowLines wellFormed_barred none trivial nameless_barred]
  constructor
  · have onlyWrites : barred.statements =
        ["console.write(\"x\");".toList, "console.write(\"y\");".toList] := rfl
    rw [onlyWrites, run_runLines_write readX stringX (interpolatedX _),
      run_runLines_write readY stringY (interpolatedY _)]
    rfl
  · have onlyLast : barred.unglued (none : Option BlockRow).isSome =
        ["console.write(\"y\");".toList] := rfl
    rw [onlyLast, run_runLines_write readY stringY (interpolatedY _)]
    rfl

end LineScript
