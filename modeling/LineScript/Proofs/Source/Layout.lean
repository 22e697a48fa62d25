import LineScript.Proofs.Macro.Expansion
import LineScript.Proofs.Source.Blocks
import LineScript.Proofs.Source.CodeLines
import LineScript.Proofs.Source.Header

/-!
How the items of a program lie on its lines of code: each item covers the next
few lines, in order and without gaps.  Carving lines succeeds with exactly the
items of a layout.
-/

namespace LineScript

open Text

open Program in
/-- What an item says about the lines that it covers. -/
inductive Item.Covers : Item → List CodeLine → Prop
  | importing {line : CodeLine} {moduleName : Text}
      (isImport : import? line.text = some moduleName) :
      Covers { line := line.number, kind := .importing moduleName } [line]
  | function {opening closing : CodeLine} {inner : List CodeLine}
      {header : Header} (notImport : import? opening.text = none)
      (isHeader : Header.read? opening.number opening.text = .ok (some header))
      (isBlock : IsBlock (opening :: (inner ++ [closing]))) :
      Covers
        { line := opening.number
          kind := .function header.style
            { name := header.name
              parameters := header.parameters
              returns := header.returns
              body := CodeLine.texts inner } }
        (opening :: (inner ++ [closing]))
  | skipped {line : CodeLine} {later : List CodeLine} {keyword : BlockKeyword}
      (notImport : import? line.text = none)
      (notHeader : Header.read? line.number line.text = .ok none)
      (opens : blockOpening? line.text = some keyword)
      (isChain : Chain (line :: later)) :
      Covers
        { line := line.number, kind := .skipped keyword (line :: later).length }
        (line :: later)
  | statement {line : CodeLine}
      (notImport : import? line.text = none)
      (notHeader : Header.read? line.number line.text = .ok none)
      (notBlock : blockOpening? line.text = none) :
      Covers { line := line.number, kind := .statement line.text } [line]

/-- The items cover the lines one after another.  After blocks that are passed
over no line goes on with them. -/
inductive Layout : List Item → List CodeLine → Prop
  | nil : Layout [] []
  | cons {item : Item} {items : List Item} {group rest : List CodeLine}
      (covers : item.Covers group)
        (ends : item.isSkipped → Program.continues rest = false)
      (later : Layout items rest) : Layout (item :: items) (group ++ rest)

section Carving

open Program

variable {item : Item} {items : List Item} {group rest : List CodeLine}

theorem Item.Covers.exists_first (covers : item.Covers group) :
    ∃ first later, group = first :: later ∧ first.number = item.line := by
  cases covers <;> exact ⟨_, _, rfl, rfl⟩

/-- One step of the carving: the lines of an item give this item. -/
theorem Item.Covers.scanItems_append (covers : item.Covers group)
    (ends : item.isSkipped → continues rest = false) :
    scanItems (group ++ rest) = (scanItems rest).map (item :: ·) := by
  cases covers with
  | importing isImport =>
      rw [List.singleton_append, scanItems, isImport]
  | @function opening closing inner header notImport isHeader isBlock =>
      have isLength := isBlock.blockLength?_append rest
      rw [List.cons_append] at isLength ⊢
      rw [scanItems, notImport]
      have isRest : ((inner ++ [closing]) ++ rest).drop
          ((opening :: (inner ++ [closing])).length - 1) = rest :=
            List.drop_left
      have isBody : ((inner ++ [closing]) ++ rest).take
          ((opening :: (inner ++ [closing])).length - 2) = inner := by
        simp
      simp only [isHeader, isLength, declared, isRest, isBody]
  | @skipped line later keyword notImport notHeader opens isChain =>
      have isLength := isChain.chainLength_append (ends rfl)
      rw [List.cons_append] at isLength ⊢
      rw [scanItems, notImport]
      have isRest : (later ++ rest).drop ((line :: later).length - 1) = rest :=
        List.drop_left
      simp only [notHeader, opens, isLength, isRest]
  | statement notImport notHeader notBlock =>
      rw [List.singleton_append, scanItems, notImport]
      simp only [notHeader, notBlock]

/-- One step of the carving: the first lines are those of an item. -/
theorem exists_covers {line : CodeLine} {later : List CodeLine}
    (scanned : scanItems (line :: later) = .ok items) :
    ∃ (item : Item) (group rest : List CodeLine), line :: later =
      group ++ rest ∧
      item.Covers group ∧ (item.isSkipped → continues rest = false) := by
  cases isImport : import? line.text with
  | some moduleName =>
      exact ⟨_, [line], later, rfl, .importing isImport,
        (absurd · Bool.false_ne_true)⟩
  | none =>
      cases isHeader : Header.read? line.number line.text with
      | error fault => simp [scanItems, isImport, isHeader] at scanned
      | ok found =>
          cases found with
          | some header =>
              cases isLength :
                blockLength? (CodeLine.texts (line :: later)) with
              | none =>
                  simp [scanItems, isImport, isHeader, isLength] at scanned
              | some length =>
                  obtain ⟨block, rest, whole, isBlock, _⟩ :=
                    exists_block isLength
                  obtain ⟨opening, more, rfl⟩ :=
                    List.exists_cons_of_ne_nil isBlock.nonempty
                  cases List.head_eq_of_cons_eq whole
                  obtain ⟨inner, closing, rfl⟩ :=
                    exists_closing_line isBlock
                      (Header.braceBalance_of_read? isHeader)
                  exact ⟨_, _, rest, whole, .function isImport isHeader isBlock,
                    (absurd · Bool.false_ne_true)⟩
          | none =>
              cases opens : blockOpening? line.text with
              | none =>
                  exact ⟨_, [line], later, rfl,
                    .statement isImport isHeader opens,
                    (absurd · Bool.false_ne_true)⟩
              | some keyword =>
                  cases isLength : chainLength (line :: later) with
                  | error fault =>
                      simp [scanItems, isImport, isHeader, opens, isLength]
                        at scanned
                  | ok length =>
                      obtain ⟨chain, rest, whole, isChain, ends, _⟩ :=
                        exists_chain (List.cons_ne_nil _ _) isLength
                      obtain ⟨first, more, rfl⟩ :=
                        List.exists_cons_of_ne_nil isChain.nonempty
                      cases List.head_eq_of_cons_eq whole
                      exact ⟨_, _, rest, whole,
                        .skipped isImport isHeader opens isChain,
                        fun _ => ends⟩

/-- What is scanned is laid out on the lines.  The induction is that of the
scanner, and each of its cases covers some lines. -/
theorem layout_of_scanItems {lines : List CodeLine} {items : List Item}
    (scanned : scanItems lines = .ok items) : Layout items lines := by
  cases lines with
  | nil =>
      rw [scanItems] at scanned
      cases scanned
      exact .nil
  | cons line later =>
      obtain ⟨item, group, rest, whole, covers, ends⟩ := exists_covers scanned
      have shorter : rest.length < (line :: later).length := by
        obtain ⟨first, others, rfl, _⟩ := covers.exists_first
        rw [whole, List.length_append, List.length_cons]
        omega
      rw [whole, covers.scanItems_append ends] at scanned
      obtain ⟨others, scannedRest, rfl⟩ := exists_ok_of_map scanned
      rw [whole]
      exact .cons covers ends (layout_of_scanItems scannedRest)
termination_by lines.length

/-- Whatever is laid out on the lines is what the scanner finds. -/
theorem Layout.scanItems_eq
    {lines : List CodeLine} (layout : Layout items lines) :
    scanItems lines = .ok items := by
  induction layout with
  | nil => rw [scanItems]
  | cons covers ends later inductionHypothesis =>
      rw [covers.scanItems_append ends, inductionHypothesis]
      rfl

end Carving

/-! ## The partition -/

namespace Layout

variable {items : List Item} {lines : List CodeLine}

theorem exists_groups (layout : Layout items lines) :
    ∃ groups : List (List CodeLine), groups.flatten = lines ∧
      List.Forall₂ Item.Covers items groups := by
  induction layout with
  | nil => exact ⟨[], rfl, .nil⟩
  | @cons item items group rest covers _ _ inductionHypothesis =>
      obtain ⟨groups, flat, coversAll⟩ := inductionHypothesis
      exact ⟨group :: groups, by rw [List.flatten_cons, flat],
        .cons covers coversAll⟩

/-- The lines of an item can be replaced by others with the same first line that
it covers. -/
theorem exists_group
    (layout : Layout items lines) {item : Item} (member : item ∈ items) :
    ∃ before group after, lines = before ++ (group ++ after) ∧
      item.Covers group ∧
      ∀ other, item.Covers other → other.head? = group.head? →
        Layout items (before ++ (other ++ after)) := by
  induction layout with
  | nil => cases member
  | @cons earlier items group rest covers ends later inductionHypothesis =>
      rcases List.mem_cons.mp member with rfl | isLater
      · refine ⟨[], group, rest, rfl, covers, ?_⟩
        intro other coversToo _
        rw [List.nil_append]
        exact .cons coversToo ends later
      · obtain ⟨before, found, after, rfl, coversFound, replace⟩ :=
          inductionHypothesis isLater
        refine ⟨group ++ before, found, after, (List.append_assoc _ _ _).symm,
          coversFound, ?_⟩
        intro other coversToo sameFirst
        rw [List.append_assoc]
        apply Layout.cons covers _ (replace other coversToo sameFirst)
        -- Whether the blocks passed over go on is read off one line, the same in both.
        have sameHead :
            (before ++ (other ++ after)).head? =
              (before ++ (found ++ after)).head? := by
          obtain ⟨first, more, rfl, _⟩ := coversFound.exists_first
          obtain ⟨otherFirst, others, rfl, _⟩ := coversToo.exists_first
          cases sameFirst
          cases before <;> rfl
        rw [Program.continues, sameHead]
        exact ends

theorem exists_line
    (layout : Layout items lines) {item : Item} (member : item ∈ items) :
    ∃ line ∈ lines, line.number = item.line := by
  obtain ⟨before, group, after, rfl, covers, _⟩ := layout.exists_group member
  obtain ⟨first, later, rfl, sameNumber⟩ := covers.exists_first
  exact ⟨first, by simp, sameNumber⟩

theorem pairwise (layout : Layout items lines)
    (increasing : lines.Pairwise fun first second => first.number < second.number) :
    items.Pairwise fun first second => first.line < second.line := by
  induction layout with
  | nil => exact .nil
  | cons covers _ later inductionHypothesis =>
      obtain ⟨_, increasingLater, across⟩ := List.pairwise_append.mp increasing
      apply List.Pairwise.cons _ (inductionHypothesis increasingLater)
      intro other isLater
      obtain ⟨first, more, rfl, firstNumber⟩ := covers.exists_first
      obtain ⟨line, isLine, sameNumber⟩ := later.exists_line isLater
      rw [← firstNumber, ← sameNumber]
      exact across first List.mem_cons_self line isLine

end Layout

namespace Program

/-- The items cover the code of the lines group by group, in order and without
gaps, and their line numbers increase. -/
structure LiesOn (program : Program) (lines : List Text) : Prop where
  covers : ∃ groups : List (List CodeLine), groups.flatten =
    CodeLine.ofLines lines ∧
    List.Forall₂ Item.Covers program.items groups
  increasing : program.items.Pairwise fun first second =>
    first.line < second.line

theorem layout_of_scan {lines : List Text} {program : Program}
    (scanned : scan lines = .ok program) :
    Layout program.items (CodeLine.ofLines lines) := by
  obtain ⟨items, scannedItems, rfl⟩ := exists_ok_of_map scanned
  exact layout_of_scanItems scannedItems

/-- The program of a source lies on its lines of code. -/
theorem liesOn_of_scan {lines : List Text} {program : Program}
    (scanned : scan lines = .ok program) : program.LiesOn lines :=
  have layout := layout_of_scan scanned
  ⟨layout.exists_groups, layout.pairwise (CodeLine.pairwise_ofLines lines)⟩

/-- The items of a program are its lines of code, cut into consecutive groups.
A line of code is a line without its comments and has the number of that line,
also in the source: each line of a source becomes one line when its macros are
expanded. -/
theorem items_partition_the_code_lines (program : Program) :
    (∀ lines : List Text, scan lines = .ok program →
      program.LiesOn lines ∧
      (CodeLine.ofLines lines).Pairwise
        (fun first second => first.number < second.number) ∧
      ∀ codeLine, codeLine ∈ CodeLine.ofLines lines ↔
        ∃ before line after, lines = before ++ line :: after ∧
          codeLine.number = before.length + 1 ∧
          codeLine.text = CodeLine.codeAfter before line ∧ codeLine.text ≠ []) ∧
    (∀ source : Text, parse source = .ok program →
      ∃ lines, Macro.preprocess source = .ok lines ∧ scan lines = .ok program) ∧
    ∀ source lines, Macro.preprocess source = .ok lines →
      List.Forall₂
        (fun line output => Macro.Becomes line output ∧ '\n' ∉ output)
        (Text.lines source) lines := by
  refine ⟨?_, ?_, ?_⟩
  · intro lines scanned
    exact ⟨liesOn_of_scan scanned, CodeLine.pairwise_ofLines lines,
      fun _ => CodeLine.mem_ofLines_iff⟩
  · intro source parsed
    exact exists_ok_of_bind parsed
  · intro source lines preprocessed
    exact Macro.preprocess_forall₂ preprocessed

/-- Lines with a comment over two of them, a block inside a function, a chain of
blocks and code beside closing brackets. -/
def nestedLines : List Text :=
  ["import math;".toList,
    "fn f(x: Int64) ".toList ++ ['{'],
    "if (x) ".toList ++ '{' :: " // one".toList,
    "y = x; /* two".toList,
    "three */ ".toList ++ ['}'],
    "".toList,
    "return x; ".toList ++ ['}'],
    "if (a) ".toList ++ '{' :: " b = 1;".toList,
    '}' :: " else { c = 2; }".toList]

/-- A source with these lines, after a macro and before its use. -/
def nestedSource : Text :=
  (("#define ONE 1".toList :: (nestedLines ++ ["f(ONE);".toList])).map
    (· ++ ['\n'])).flatten

def nested : List Text :=
  [] :: (nestedLines ++ ["f(1);".toList])

/-- The function of these lines, without the statement beside its last
bracket. -/
def nestedFunction : Function :=
  { name := "f".toList
    parameters := [{ name := "x".toList, tag := .int64 }]
    returns := .void
    body := ["if (x) ".toList ++ ['{'], "y = x;".toList, ['}']] }

def nestedProgram : Program :=
  { items :=
      [{ line := 2, kind := .importing "math".toList },
        { line := 3, kind := .function .typed nestedFunction },
        { line := 9, kind := .skipped .ifWord 2 },
        { line := 11, kind := .statement "f(1);".toList }] }

theorem preprocess_nested : Macro.preprocess nestedSource = .ok nested := by
  decide +kernel

theorem scan_nested : scan nested = .ok nestedProgram := by
  decide +kernel

/-- The lines of `nestedSource` become those of `nested`, and its items cover
them. -/
theorem items_partition_the_code_lines_of_nested :
    scan nested = .ok nestedProgram ∧ parse nestedSource = .ok nestedProgram ∧
      nestedProgram.LiesOn nested ∧
      (∃ lines, Macro.preprocess nestedSource = .ok lines ∧
        scan lines = .ok nestedProgram) ∧
      List.Forall₂
        (fun line output => Macro.Becomes line output ∧ '\n' ∉ output)
        (Text.lines nestedSource) nested := by
  have parsed : parse nestedSource = .ok nestedProgram := by
    rw [parse, preprocess_nested]
    exact scan_nested
  obtain ⟨scans, parses, preprocesses⟩ :=
    items_partition_the_code_lines nestedProgram
  exact ⟨scan_nested, parsed, (scans nested scan_nested).1,
    parses nestedSource parsed,
    preprocesses nestedSource nested preprocess_nested⟩

/-- A function has all code of its lines but the closing one.  Of that line
nothing is kept: it can be replaced by any other line that closes as much, and
the items stay the same. -/
theorem only_the_closing_line_is_dropped
    {lines : List Text} {program : Program} {item : Item} {style : HeaderStyle}
    {definition : Function} (scanned : scan lines = .ok program)
    (member : item ∈ program.items)
    (declares : item.kind = .function style definition) :
    ∃ before opening inner closing after header,
      CodeLine.ofLines lines =
        before ++ opening :: (inner ++ closing :: after) ∧
      item.line = opening.number ∧
      Header.read? opening.number opening.text = .ok (some header) ∧
      style = header.style ∧
      definition =
        { name := header.name
          parameters := header.parameters
          returns := header.returns
          body := CodeLine.texts inner } ∧
      braceBalance closing.text < 0 ∧
      (CodeLine.texts (opening :: (inner ++ [closing])) =
          opening.text :: (definition.body ++ [['}']]) ↔ closing.text = ['}']) ∧
      ∀ other : CodeLine, braceBalance other.text ≤ braceBalance closing.text →
        scanItems (before ++ opening :: (inner ++ other :: after)) =
          .ok program.items := by
  obtain ⟨before, group, after, whole, covers, replace⟩ :=
    (layout_of_scan scanned).exists_group member
  cases covers with
  | importing => cases declares
  | skipped => cases declares
  | statement => cases declares
  | @function opening closing inner header notImport isHeader isBlock =>
      cases declares
      refine ⟨before, opening, inner, closing, after, header, ?_, rfl, isHeader,
        rfl, rfl,
        isBlock.balance_last_neg, ?_, ?_⟩
      · rw [whole, List.cons_append, List.append_assoc, List.singleton_append]
      · simp [CodeLine.texts]
      · intro other closesMore
        have otherBlock : IsBlock (opening :: (inner ++ [other])) :=
          isBlock.replace_last closesMore
        have layout := replace _ (.function notImport isHeader otherBlock) rfl
        rw [List.cons_append, List.append_assoc,
          List.singleton_append] at layout
        exact layout.scanItems_eq

/-- The function of `nested` keeps its lines up to the one that closes it. -/
theorem only_the_closing_line_is_dropped_of_nested :
    scan nested = .ok nestedProgram ∧
    ∃ before opening inner closing after header,
      CodeLine.ofLines nested =
        before ++ opening :: (inner ++ closing :: after) ∧
      3 = opening.number ∧
      Header.read? opening.number opening.text = .ok (some header) ∧
      .typed = header.style ∧
      nestedFunction =
        { name := header.name
          parameters := header.parameters
          returns := header.returns
          body := CodeLine.texts inner } ∧
      braceBalance closing.text < 0 ∧
      (CodeLine.texts (opening :: (inner ++ [closing])) =
          opening.text :: (nestedFunction.body ++ [['}']]) ↔
            closing.text = ['}']) ∧
      ∀ other : CodeLine, braceBalance other.text ≤ braceBalance closing.text →
        scanItems (before ++ opening :: (inner ++ other :: after)) =
          .ok nestedProgram.items := by
  have member :
      (⟨3, .function .typed nestedFunction⟩ : Item) ∈ nestedProgram.items := by
    decide
  exact ⟨scan_nested, only_the_closing_line_is_dropped scan_nested member rfl⟩

/-- A statement beside the closing bracket is in no item. -/
theorem statement_beside_the_closing_bracket_is_lost :
    scan ["fn f() ".toList ++ ['{'], "x = 1; ".toList ++ ['}']] =
      .ok
        { items :=
            [{ line := 1
               kind := .function .typed
                 { name := "f".toList, parameters := [], returns :=
                   .void, body := [] } }] } := by
  decide +kernel

end Program
end LineScript
