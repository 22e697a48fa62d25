import LineScript.Proofs.Accounting
import LineScript.Proofs.Body
import LineScript.Proofs.Source.Layout

/-!
Blocks inside the bodies of functions.

The body of a function has all its lines but the first and the last one.  A
block inside it ends in the body, or else the last line of the function, which
closes the function, closes the block too.  In the second case the body has no
end of the block, and a run that gets to it fails.
-/

namespace LineScript

open Text

namespace Text

variable {opened : Int} {lines : List Text}

theorem balance_take_drop (lines : List Text) (index : Nat) :
    balance lines =
      balance (lines.take index) + balance (lines.drop index) := by
  rw [← balance_append, List.take_append_drop]

/-- After no line of a block that does not end are its brackets closed. -/
theorem open_of_blockLengthFrom?
    (endless : blockLengthFrom? opened lines = none) {count : Nat}
    (positive : 0 < count)
    (within : count ≤ lines.length) :
    0 < opened + balance (lines.take count) := by
  induction lines generalizing opened count with
  | nil =>
      rw [List.length_nil] at within
      omega
  | cons line later inductionHypothesis =>
      rw [blockLengthFrom?] at endless
      by_cases closed : opened + braceBalance line ≤ 0
      · rw [if_pos closed] at endless
        cases endless
      · rw [if_neg closed, Option.map_eq_none_iff] at endless
        rcases Nat.exists_eq_add_one.mpr positive with ⟨fewer, rfl⟩
        rw [List.take_succ_cons, balance_cons]
        by_cases isFirst : fewer = 0
        · rw [isFirst, List.take_zero, balance_nil]
          omega
        · rw [List.length_cons] at within
          have stillOpen :=
            inductionHypothesis endless (Nat.pos_of_ne_zero isFirst) (by omega)
          omega

/-- Lines that close as many brackets as they open hold the end of a block. -/
theorem exists_blockLength?
    (nonempty : lines ≠ []) (closed : balance lines ≤ 0) :
    ∃ length, blockLength? lines = some length := by
  cases found : blockLength? lines with
  | some length => exact ⟨length, rfl⟩
  | none =>
      have stillOpen :=
        open_of_blockLengthFrom? found (List.length_pos_iff.mpr nonempty)
        (Nat.le_refl _)
      rw [List.take_length] at stillOpen
      omega

/-- A block that no line ends ends with the next line, if that closes its
brackets. -/
theorem blockLength?_concat
    {last : Text} (endless : blockLength? lines = none)
    (closed : balance (lines ++ [last]) ≤ 0) :
    blockLength? (lines ++ [last]) = some (lines.length + 1) := by
  have closes : Closes 0 (lines ++ [last]) := by
    refine ⟨by simp, by rwa [Int.zero_add], ?_⟩
    intro count positive inside
    rw [List.length_append, List.length_singleton] at inside
    have within : count ≤ lines.length := by omega
    rw [List.take_append_of_le_length within]
    exact open_of_blockLengthFrom? endless positive within
  have found := closes.blockLengthFrom?_append []
  rw [List.append_nil, List.length_append, List.length_singleton] at found
  exact found

/-- A block ends as many lines behind its opening as it has, that line
included. -/
theorem blockEnd?_of_blockLength?
    {index length : Nat}
    (found : blockLength? (lines.drop index) = some length) :
    blockEnd? lines index = some (index + length - 1) := by
  rw [blockEnd?, found, Option.map_some]

/-- The block from one of the lines on ends in a line. -/
theorem blockEnd?_inside
    {index last : Nat} (found : blockEnd? lines index = some last) :
    index ≤ last ∧ last < lines.length := by
  obtain ⟨length, isLength, rfl⟩ := Option.map_eq_some_iff.mp found
  have bounds := blockLength?_bounds isLength
  rw [List.length_drop] at bounds
  omega

section Body

variable {index : Nat} (inside : index < lines.length)
  (neverBelow : 0 ≤ balance (lines.take index))
include inside neverBelow

/-- In balanced lines a block ends. -/
theorem exists_blockEnd? (balanced : balance lines = 0) :
    ∃ last, blockEnd? lines index = some last := by
  have nonempty : lines.drop index ≠ [] := by
    rw [← List.length_pos_iff, List.length_drop]
    omega
  have parts := balance_take_drop lines index
  rcases exists_blockLength? nonempty (by omega) with ⟨length, found⟩
  exact ⟨_, blockEnd?_of_blockLength? found⟩

/-- A block ends in one of the lines, or else in the line that closes what they
leave open. -/
theorem blockEnd?_or_concat
    {closing : Text} (closed : balance lines + braceBalance closing ≤ 0) :
    (∃ last, blockEnd? lines index = some last ∧ index ≤ last ∧
      last < lines.length) ∨
      (blockEnd? lines index = none ∧
        blockEnd? (lines ++ [closing]) index = some lines.length) := by
  cases found : blockEnd? lines index with
  | some last => exact .inl ⟨last, rfl, blockEnd?_inside found⟩
  | none =>
      refine .inr ⟨rfl, ?_⟩
      have endless : blockLength? (lines.drop index) = none :=
        Option.map_eq_none_iff.mp found
      have parts := balance_take_drop lines index
      have closedToo : balance (lines.drop index ++ [closing]) ≤ 0 := by
        rw [balance_append, balance_cons, balance_nil]
        omega
      have length := blockLength?_concat endless closedToo
      rw [← List.drop_append_of_le_length (Nat.le_of_lt inside),
        List.length_drop] at length
      rw [blockEnd?_of_blockLength? length]
      congr 1
      omega

end Body

end Text

/-- Each block that a line of the body opens ends in a line of the body. -/
def BlocksEnd (body : List Text) : Prop :=
  ∀ index line keyword, body[index]? = some line →
    Statement.read line = .ok (.blockOpen keyword) →
    ∃ last, blockEnd? body index = some last ∧ index ≤ last ∧ last < body.length

namespace Evaluation

/-- Runs the lines of a body, with another ending in place of the fault at a
block that no line of the body closes. -/
def runLinesOr
    (unclosed : BlockKeyword → Action (Option Value)) (settings : Settings)
    (invoke : Invoker Action) (scope : ScopeId) (function : Function)
    (skipped : Nat) (lines : List Text) : Action (Option Value) :=
  walkLines unclosed (runStatement settings invoke scope)
    (returnValue (evaluateText invoke scope) function) skipped lines

/-- Only at a block without an end can two endings be told apart. -/
theorem walkLines_eq_of_endless
    {unclosed other : BlockKeyword → Action (Option Value)}
    {run : Statement → Action Unit}
    {answer : Option Text → Action (Option Value)} {lines : List Text}
    (atEndless : ∀ index line keyword, lines[index]? = some line →
      Statement.read line = .ok (.blockOpen keyword) →
        blockEnd? lines index = none → unclosed keyword = other keyword)
    (skipped : Nat) :
    walkLines unclosed run answer skipped lines =
      walkLines other run answer skipped lines := by
  induction lines generalizing skipped with
  | nil => rw [walkLines, walkLines]
  | cons line later inductionHypothesis =>
      have laterSame : ∀ skipped,
          walkLines unclosed run answer skipped later =
            walkLines other run answer skipped later := by
        apply inductionHypothesis
        intro index opening keyword isOpening reads endless
        apply atEndless (index + 1) opening keyword isOpening reads
        rw [blockEnd?, List.drop_succ_cons, Option.map_eq_none_iff.mp endless,
          Option.map_none]
      cases skipped with
      | succ skipped => exact laterSame skipped
      | zero =>
          rw [walkLines, walkLines]
          cases reads : Statement.read line with
          | error fault => rfl
          | ok statement =>
              rw [ofExcept_ok_bind, ofExcept_ok_bind]
              cases statement with
              | blockOpen keyword =>
                  cases found : blockLength? (line :: later) with
                  | some length => exact laterSame (length - 1)
                  | none =>
                      apply atEndless 0 line keyword rfl reads
                      rw [blockEnd?, List.drop_zero, found, Option.map_none]
              | returns value => rfl
              | _ => exact congrArg (run _ >>= fun _ => ·) (laterSame 0)

section Lines

variable (settings : Settings) (invoke : Invoker Action) (scope : ScopeId)
    (function : Function)

/-- With the fault as the other ending the run is the one that functions
have. -/
theorem runLinesOr_fault (skipped : Nat) (lines : List Text) :
    runLinesOr
      (fun keyword =>
        throw (.malformed (.unclosedBlock keyword.text function.name)))
        settings invoke scope function skipped lines =
      runLines settings invoke scope function skipped lines :=
  rfl

/-- A run of lines whose blocks end gets to no block without an end. -/
theorem runLinesOr_of_blocksEnd
    (unclosed : BlockKeyword → Action (Option Value)) {lines : List Text}
    (blocksEnd : BlocksEnd lines) (skipped : Nat) :
    runLinesOr unclosed settings invoke scope function skipped lines =
      runLines settings invoke scope function skipped lines := by
  apply walkLines_eq_of_endless
  intro index line keyword isLine reads endless
  rcases blocksEnd index line keyword isLine reads with ⟨last, found, _⟩
  rw [endless] at found
  cases found

/-- A run that gets to a block without an end fails. -/
theorem runLines_of_endless
    {index : Nat} {lines : List Text} {line : Text} {keyword : BlockKeyword}
    (isLine : lines[index]? = some line)
    (reads : Statement.read line = .ok (.blockOpen keyword))
    (endless : blockEnd? lines index = none) :
    runLines settings invoke scope function index lines =
      throw (.malformed (.unclosedBlock keyword.text function.name)) := by
  obtain ⟨inside, rfl⟩ := List.getElem?_eq_some_iff.mp isLine
  have noLength : blockLength? (lines.drop index) = none :=
    Option.map_eq_none_iff.mp endless
  rw [List.drop_eq_getElem_cons inside] at noLength
  rw [runLines_eq_drop, List.drop_eq_getElem_cons inside, runLines, walkLines,
    reads, ofExcept_ok_bind]
  simp only [noLength]
  rfl

end Lines

end Evaluation

/-! ## Functions of a program -/

namespace Program

/-- Up to no line of its body are the brackets of a function closed, but its
last line closes them. -/
theorem balance_of_header
    {opening closing : CodeLine} {inner : List CodeLine} {header : Header}
    (isHeader : Header.read? opening.number opening.text = .ok (some header))
    (isBlock : IsBlock (opening :: (inner ++ [closing]))) :
    (∀ count, count ≤ (CodeLine.texts inner).length →
        0 ≤ balance ((CodeLine.texts inner).take count)) ∧
      balance (CodeLine.texts inner) + braceBalance closing.text < 0 := by
  have opens := Header.braceBalance_of_read? isHeader
  have texts : CodeLine.texts (opening :: (inner ++ [closing])) =
      opening.text :: (CodeLine.texts inner ++ [closing.text]) := by
    simp [CodeLine.texts]
  rw [IsBlock, texts] at isBlock
  constructor
  · intro count within
    have stillOpen := isBlock.stillOpen (count + 1) (Nat.succ_pos count)
      (by simpa using Nat.lt_succ_of_le within)
    rw [List.take_succ_cons, balance_cons,
      List.take_append_of_le_length within] at stillOpen
    omega
  · have closed := isBlock.closed
    rw [balance_cons, balance_append, balance_cons, balance_nil] at closed
    omega

/-- A block in the body of a function ends in the body or, if not, in the line
that closes the function.  All end in the body if its brackets are balanced, as
they are if the last line closes no more than the function; then no run of the
body gets to a block without an end, since the run has no use for the fault
there.  A run that gets to a block that the last line closes fails. -/
theorem blocks_end_in_the_body_or_with_the_function
    {lines : List Text} {program : Program} {item : Item} {style : HeaderStyle}
    {definition : Function} (scanned : scan lines = .ok program)
    (member : item ∈ program.items)
    (declares : item.kind = .function style definition) :
    ∃ before opening inner closing after,
      CodeLine.ofLines lines =
        before ++ opening :: (inner ++ closing :: after) ∧
      item.line = opening.number ∧
      definition.body = CodeLine.texts inner ∧
      (∀ index, index < definition.body.length →
        (∃ last, blockEnd? definition.body index = some last ∧
            index ≤ last ∧ last < definition.body.length) ∨
          (blockEnd? definition.body index = none ∧
            blockEnd? (definition.body ++ [closing.text]) index =
              some definition.body.length)) ∧
      (braceBalance closing.text = -1 → balance definition.body = 0) ∧
      (balance definition.body = 0 → BlocksEnd definition.body) ∧
      (∀ settings invoke scope,
        Evaluation.runLinesOr
            (fun keyword =>
              throw (.malformed (.unclosedBlock keyword.text definition.name)))
            settings invoke scope definition 0 definition.body =
          Evaluation.runLines settings invoke scope definition 0
            definition.body) ∧
      (BlocksEnd definition.body → ∀ unclosed settings invoke scope,
        Evaluation.runLinesOr unclosed settings invoke scope definition 0
          definition.body =
          Evaluation.runLines settings invoke scope definition 0
            definition.body) ∧
      ∀ index line keyword, definition.body[index]? = some line →
        Statement.read line = .ok (.blockOpen keyword) →
        blockEnd? definition.body index = none → ∀ settings invoke scope,
          Evaluation.runLines settings invoke scope definition index
            definition.body =
            throw (.malformed
              (.unclosedBlock keyword.text definition.name)) := by
  obtain ⟨before, group, after, whole, covers, _⟩ :=
    (layout_of_scan scanned).exists_group member
  cases covers with
  | importing => cases declares
  | skipped => cases declares
  | statement => cases declares
  | @function opening closing inner header notImport isHeader isBlock =>
      cases declares
      obtain ⟨neverBelow, closed⟩ := balance_of_header isHeader isBlock
      refine ⟨before, opening, inner, closing, after, ?_, rfl, rfl, ?_, ?_, ?_,
        ?_, ?_, ?_⟩
      · rw [whole, List.cons_append, List.append_assoc, List.singleton_append]
      · intro index inside
        exact blockEnd?_or_concat inside
          (neverBelow index (Nat.le_of_lt inside))
          (Int.le_of_lt closed)
      · intro closesOne
        have notBelow := neverBelow _ (Nat.le_refl _)
        rw [List.take_length] at notBelow
        show balance (CodeLine.texts inner) = 0
        omega
      · intro balanced index line keyword isLine reads
        have inside := (List.getElem?_eq_some_iff.mp isLine).1
        have notBelow := neverBelow index (Nat.le_of_lt inside)
        rcases exists_blockEnd? inside notBelow balanced with ⟨last, found⟩
        exact ⟨last, found, blockEnd?_inside found⟩
      · intro settings invoke scope
        exact Evaluation.runLinesOr_fault settings invoke scope _ 0 _
      · intro blocksEnd unclosed settings invoke scope
        exact Evaluation.runLinesOr_of_blocksEnd settings invoke scope
          _ unclosed blocksEnd 0
      · intro index line keyword isLine reads endless settings invoke scope
        exact Evaluation.runLines_of_endless settings invoke scope _ isLine
          reads endless

/-- The first block ends in the body, the second one with the function. -/
def halfClosedFunction : Function :=
  { name := "f".toList
    parameters := []
    returns := .void
    body :=
      ["if (a) ".toList ++ ['{'], ['}'], "while (b) ".toList ++ ['{']] }

def halfClosed : List Text :=
  ("fn f() ".toList ++ ['{']) :: (halfClosedFunction.body ++ [['}', '}']])

def halfClosedProgram : Program :=
  { items := [{ line := 1, kind := .function .typed halfClosedFunction }] }

theorem scan_halfClosed : scan halfClosed = .ok halfClosedProgram := by
  decide +kernel

/-- The first block of `halfClosed` ends in the body of its function, and a run
that gets to the second one fails. -/
theorem blocks_end_in_the_body_or_with_the_function_of_halfClosed :
    scan halfClosed = .ok halfClosedProgram ∧
      blockEnd? halfClosedFunction.body 0 = some 1 ∧
      blockEnd? halfClosedFunction.body 2 = none ∧
      ∀ settings invoke scope,
        Evaluation.runLines settings invoke scope halfClosedFunction 2
          halfClosedFunction.body =
          throw (.malformed (.unclosedBlock "while".toList "f".toList)) := by
  have member :
      (⟨1, .function .typed halfClosedFunction⟩ :
        Item) ∈ halfClosedProgram.items := by
    decide
  obtain ⟨_, _, _, _, _, _, _, _, _, _, _, _, _, fails⟩ :=
    blocks_end_in_the_body_or_with_the_function scan_halfClosed member rfl
  have reads :
      Statement.read ("while (b) ".toList ++ ['{']) =
        .ok (.blockOpen .whileWord) := by
    decide +kernel
  refine ⟨scan_halfClosed, by decide +kernel, by decide +kernel, ?_⟩
  exact fails 2 _ .whileWord rfl reads (by decide +kernel)

def closedTogether : Text :=
  "fn f() ".toList ++ '{' :: "\nif (x) ".toList ++ ['{', '\n', '}', '}'] ++
    "\nf();\n".toList

/-- A call fails at a block that has an end in the source. -/
theorem block_closed_with_its_function_fails :
    Program.parse closedTogether =
        .ok
          { items :=
              [{ line := 1
                 kind := .function .typed
                   { name := "f".toList
                     parameters := []
                     returns := .void
                     body := ["if (x) ".toList ++ ['{']] } },
               { line := 4, kind := .statement "f();".toList }] } ∧
      Statement.read ("if (x) ".toList ++ ['{']) = .ok (.blockOpen .ifWord) ∧
      blockEnd? ["if (x) ".toList ++ ['{']] 0 = none ∧
      (showing { assignment := .shadow, callLimit := 1, commands :=
        fun _ _ => .refused .notFound }
          closedTogether).map Showing.reports =
        .ok [⟨"f();".toList, .malformed (.unclosedBlock "if".toList "f".toList)⟩] := by
  decide +kernel

end Program
end LineScript
