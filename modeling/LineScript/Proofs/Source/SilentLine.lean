import LineScript.Proofs.Accounting
import LineScript.Proofs.Macro.Blanks
import LineScript.Proofs.Source.Comments
import LineScript.Proofs.Source.Renumbering

/-!
Silent lines in a source: blank lines, and lines with a remark only.

Such a line, put anywhere between the lines of a source but inside a comment, is
no part of the program.  All it does is to move the lines behind it.
-/

namespace LineScript

open Text

/-- Where the line with a number stands after one more line took the place of
the line with another number. -/
def movedFrom (place number : Nat) : Nat :=
  if number < place then number else number + 1

theorem movedFrom_of_lt {place number : Nat} (before : number < place) :
    movedFrom place number = number :=
  if_pos before

theorem movedFrom_of_le {place number : Nat} (behind : place ≤ number) :
    movedFrom place number = number + 1 :=
  if_neg (Nat.not_lt.mpr behind)

namespace CodeLine

open Document

/-- Nothing is left of a silent line, and it opens no comment. -/
theorem stripFrom_of_silent {line : Text} (silent : Silent line) :
    trim (stripFrom .code line).1 = [] ∧ (stripFrom .code line).2 = false := by
  induction silent with
  | nil => exact ⟨rfl, rfl⟩
  | @blank first rest blank _ inductionHypothesis =>
      have notSlash : first ≠ '/' := by
        rintro rfl
        cases blank
      have notQuote : first ≠ '"' := by
        rintro rfl
        cases blank
      rw [stripFrom_code_cons notSlash]
      simp only [if_neg notQuote]
      rw [trim, trimStart_cons_of_blank blank, ← trim]
      exact inductionHypothesis
  | remark text => exact ⟨rfl, rfl⟩

theorem concat_ne_cons
    {last other : Char} (different : last ≠ other) {line : Text}
    (notFirst : ∀ tail, line ≠ other :: tail) (tail : Text) :
    line ++ [last] ≠ other :: tail := by
  intro whole
  cases line with
  | nil =>
      cases whole
      exact different rfl
  | cons first rest =>
      cases whole
      exact notFirst rest rfl

/-- A blank behind a line stays behind it, or is a part of a comment. -/
theorem stripFrom_concat
    {last : Char} (blank : isBlank last) (place : Place) (line : Text) :
    stripFrom place (line ++ [last]) = stripFrom place line ∨
      stripFrom place (line ++ [last]) =
        ((stripFrom place line).1 ++ [last], (stripFrom place line).2) := by
  have apart : ∀ {other : Char}, ¬ isBlank other → last ≠ other := by
    rintro other notBlank rfl
    exact notBlank blank
  -- A character in front of both results keeps what they have to do with each other.
  have prepend : ∀ (character : Char) {kept longer : Text × Bool},
      (longer = kept ∨ longer = (kept.1 ++ [last], kept.2)) →
        (character :: longer.1, longer.2) = (character :: kept.1, kept.2) ∨
          (character :: longer.1, longer.2) =
            (character :: kept.1 ++ [last], kept.2) := by
    rintro character kept longer (rfl | rfl)
    · exact .inl rfl
    · exact .inr rfl
  fun_induction stripFrom place line with
  | case1 place =>
      cases place with
      | code =>
          rw [List.nil_append, stripFrom_code_cons (apart (by decide)),
            if_neg (apart (by decide))]
          exact .inr rfl
      | string escaped =>
          cases escaped with
          | true =>
              rw [List.nil_append, stripFrom, stripFrom]
              exact .inr rfl
          | false =>
              rw [List.nil_append, stripFrom, if_neg (apart (by decide)),
                if_neg (apart (by decide))]
              exact .inr rfl
      | comment => exact .inl (stripFrom_comment_cons fun _ => by simp)
  | case2 rest inductionHypothesis =>
      rw [List.cons_append, List.cons_append, stripFrom]
      exact inductionHypothesis
  | case3 character rest goesOn inductionHypothesis =>
      rw [List.cons_append, stripFrom]
      · exact inductionHypothesis
      · intro tail star
        exact concat_ne_cons (apart (by decide))
          (fun tail => goesOn tail star) tail
  | case4 character rest kept opened later inductionHypothesis =>
      rw [later] at inductionHypothesis
      rw [List.cons_append, stripFrom]
      exact prepend character inductionHypothesis
  | case5 character rest place kept opened later inductionHypothesis =>
      rw [later] at inductionHypothesis
      rw [List.cons_append, stripFrom]
      exact prepend character inductionHypothesis
  | case6 text => exact .inl rfl
  | case7 rest inductionHypothesis =>
      rw [List.cons_append, List.cons_append, stripFrom]
      exact inductionHypothesis
  | case8 character rest noRemark noComment kept opened later
      inductionHypothesis =>
      rw [later] at inductionHypothesis
      rw [List.cons_append, stripFrom]
      · exact prepend character inductionHypothesis
      · intro tail slash
        exact concat_ne_cons (apart (by decide))
          (fun tail => noRemark tail slash) tail
      · intro tail slash
        exact concat_ne_cons (apart (by decide))
          (fun tail => noComment tail slash) tail

section Lines

variable {inComment : Bool} {number : Nat}

/-- Lines behind the place have their numbers moved by one. -/
theorem stripLines_move
    {place : Nat} (behind : place ≤ number) (lines : List Text) :
    stripLines inComment (number + 1) lines =
      (stripLines inComment number lines).map (renumber (movedFrom place)) := by
  induction lines generalizing inComment number with
  | nil => rfl
  | cons line lines inductionHypothesis =>
      rw [stripLines_cons, stripLines_cons,
        inductionHypothesis (Nat.le_succ_of_le behind)]
      split
      · rfl
      · rw [List.map_cons, renumber, movedFrom_of_le behind]

/-- A silent line outside comments moves the lines of code behind it. -/
theorem stripLines_insert
    {before : List Text} (notOpen : opensAfter inComment before = false)
    {line : Text} (silent : Silent line) (after : List Text) :
    stripLines inComment number (before ++ line :: after) =
      (stripLines inComment number (before ++ after)).map
        (renumber (movedFrom (number + before.length))) := by
  induction before generalizing inComment number with
  | nil =>
      obtain ⟨isEmpty, closed⟩ := stripFrom_of_silent silent
      have isOpen : inComment = false := notOpen
      rw [List.nil_append, List.nil_append, stripLines_cons, isOpen]
      simp only [placeAt, Bool.false_eq_true, if_false, isEmpty, closed]
      exact stripLines_move (Nat.le_refl number) after
  | cons first before inductionHypothesis =>
      have isBefore : number < number + (first :: before).length := by
        rw [List.length_cons]
        omega
      rw [List.cons_append, List.cons_append, stripLines_cons, stripLines_cons,
        inductionHypothesis notOpen, List.length_cons, Nat.add_right_comm,
        Nat.add_assoc]
      split
      · rfl
      · rw [List.map_cons, renumber, ← List.length_cons,
          movedFrom_of_lt isBefore]

/-- A blank behind a line changes no line of code. -/
theorem stripLines_concat
    {last : Char} (blank : isBlank last) (before : List Text) (line : Text)
    (after : List Text) :
    stripLines inComment number (before ++ (line ++ [last]) :: after) =
      stripLines inComment number (before ++ line :: after) := by
  induction before generalizing inComment number with
  | nil =>
      rw [List.nil_append, List.nil_append, stripLines_cons, stripLines_cons]
      rcases stripFrom_concat blank (placeAt inComment) line with same | longer
      · rw [same]
      · rw [longer, trim_concat_of_blank _ blank]
  | cons first before inductionHypothesis =>
      rw [List.cons_append, List.cons_append, stripLines_cons, stripLines_cons,
        inductionHypothesis]

theorem opensAfter_concat
    {last : Char} (blank : isBlank last) (before : List Text) (line : Text)
    (after : List Text) :
    opensAfter inComment (before ++ (line ++ [last]) :: after) =
      opensAfter inComment (before ++ line :: after) := by
  have sameComment :
      ∀ place, (stripFrom place (line ++ [last])).2 =
        (stripFrom place line).2 := by
    intro place
    rcases stripFrom_concat blank place line with same | longer
    · rw [same]
    · rw [longer]
  rw [opensAfter, opensAfter, List.foldl_append, List.foldl_append,
    List.foldl_cons, List.foldl_cons, sameComment]

end Lines

end CodeLine

/-! ## Macros -/

namespace Macro

theorem processLine_move
    {place number : Nat} (behind : place ≤ number) (macros : Macros)
    (line : Text) :
    processLine macros (number + 1) line =
      (processLine macros number line).mapError
        (SourceFault.renumber (movedFrom place)) := by
  rw [processLine, processLine]
  cases Directive.read? (trim line) with
  | none => rfl
  | some found =>
      cases found with
      | some directive => rfl
      | none =>
          dsimp only [Except.mapError, SourceFault.renumber]
          rw [movedFrom_of_le behind]

/-- Faults behind the place have their numbers moved by one. -/
theorem processLines_move
    {place number : Nat} (behind : place ≤ number) (macros : Macros)
    (lines : List Text) :
    processLines macros (number + 1) lines =
      (processLines macros number lines).mapError
        (SourceFault.renumber (movedFrom place)) := by
  induction lines generalizing macros number with
  | nil => rfl
  | cons line later inductionHypothesis =>
      rw [processLines, processLines, processLine_move behind]
      cases processLine macros number line with
      | error fault => rfl
      | ok processed =>
          dsimp only [Except.mapError]
          rw [inductionHypothesis (Nat.le_succ_of_le behind)]
          exact (mapError_map _ _).symm

theorem processLine_stay
    {place number : Nat} (before : number < place) (macros : Macros)
    (line : Text) :
    (processLine macros number line).mapError
      (SourceFault.renumber (movedFrom place)) =
      processLine macros number line := by
  rw [processLine]
  cases Directive.read? (trim line) with
  | none => rfl
  | some found =>
      cases found with
      | some directive => rfl
      | none =>
          dsimp only [Except.mapError, SourceFault.renumber]
          rw [movedFrom_of_lt before]

theorem processLines_stay
    {place number : Nat} {lines : List Text}
    (before : number + lines.length ≤ place) (macros : Macros) :
    (processLines macros number lines).mapError
      (SourceFault.renumber (movedFrom place)) =
      processLines macros number lines := by
  induction lines generalizing macros number with
  | nil => rfl
  | cons line later inductionHypothesis =>
      rw [List.length_cons] at before
      have stays := processLine_stay (by omega : number < place) macros line
      rw [processLines]
      cases processed : processLine macros number line with
      | error fault =>
          rw [processed] at stays
          exact congrArg Except.error (Except.error.inj stays)
      | ok output =>
          dsimp only
          rw [mapError_map, inductionHypothesis (by omega)]

theorem length_of_processLines
    {macros : Macros} {number : Nat} {lines outputs : List Text}
    (processed : processLines macros number lines = .ok outputs) :
    outputs.length = lines.length := by
  have writes : macros.Writes fun _ => True :=
    ⟨by intros; trivial, by intros; trivial⟩
  exact (processLines_forall₂ processed writes fun _ _ _ _ =>
    trivial).length_eq.symm

/-- A blank behind a line changes at most the output for the line, and puts the
blank behind it. -/
theorem processLine_concat
    {last : Char} (blank : isBlank last) (macros : Macros) (number : Nat)
    (line : Text) :
    processLine macros number (line ++ [last]) =
      processLine macros number line ∨
      ∃ output, processLine macros number line = .ok (output, macros) ∧
        processLine macros number (line ++ [last]) =
          .ok (output ++ [last], macros) := by
  rw [processLine, processLine, trim_concat_of_blank line blank]
  cases Directive.read? (trim line) with
  | none =>
      exact .inr ⟨_, rfl, by rw [expand, expandPasses_concat blank, ← expand]⟩
  | some found =>
      cases found with
      | none => exact .inl rfl
      | some directive => exact .inl rfl

theorem processLines_concat
    {last : Char} (blank : isBlank last) (macros : Macros) (number : Nat)
    (before : List Text) (line : Text) (after : List Text) :
    processLines macros number (before ++ (line ++ [last]) :: after) =
        processLines macros number (before ++ line :: after) ∨
      ∃ outputs output others,
        processLines macros number (before ++ line :: after) =
          .ok (outputs ++ output :: others) ∧
        processLines macros number (before ++ (line ++ [last]) :: after) =
          .ok (outputs ++ (output ++ [last]) :: others) := by
  rw [processLines_append, processLines_append]
  cases processLines macros number before with
  | error fault => exact .inl rfl
  | ok outputs =>
      rcases processLine_concat blank (macrosAfter macros before)
        (number + before.length) line
        with same | ⟨output, processed, processedToo⟩
      · left
        rw [processLines, processLines, same]
      · rw [processLines_cons processed, processLines_cons processedToo]
        cases processLines (macrosAfter macros before)
          (number + before.length + 1) after with
        | error fault => exact .inl rfl
        | ok others => exact .inr ⟨outputs, output, others, rfl, rfl⟩

end Macro

/-- Behind the lines no comment is open, once the macros in them are
expanded. -/
def OutsideComments (earlier : List Text) : Prop :=
  ∀ outputs, Macro.processLines .empty 1 earlier = .ok outputs →
    CodeLine.opensAfter false outputs = false

namespace Program

def parseLines (lines : List Text) : Except SourceFault Program :=
  (Macro.processLines .empty 1 lines).bind scan

/-- A silent line among preprocessed lines only moves the numbers behind it. -/
theorem scan_insert
    {before : List Text} (notOpen : CodeLine.opensAfter false before = false)
    {line : Text} (silent : Silent line) (after : List Text) :
    scan (before ++ line :: after) =
      ((scan (before ++ after)).map
        (renumber (movedFrom (before.length + 1)))).mapError
        (SourceFault.renumber (movedFrom (before.length + 1))) := by
  rw [scan, scan, CodeLine.ofLines, CodeLine.ofLines,
    CodeLine.stripLines_insert notOpen silent, Nat.add_comm 1,
    scanItems_renumber]
  cases scanItems (CodeLine.stripLines false 1 (before ++ after)) with
  | error fault => rfl
  | ok items => rfl

/-- A silent line among the lines of a source moves the lines behind it, and
that is all. -/
theorem parseLines_insert
    {before : List Text} (outside : OutsideComments before) {line : Text}
    (silent : Silent line) (after : List Text) :
    parseLines (before ++ line :: after) =
      ((parseLines (before ++ after)).map
        (renumber (movedFrom (before.length + 1)))).mapError
        (SourceFault.renumber (movedFrom (before.length + 1))) := by
  have behind : before.length + 1 ≤ 1 + before.length :=
    Nat.le_of_eq (Nat.add_comm _ _)
  have stays :=
    Macro.processLines_stay (Nat.le_of_eq (Nat.add_comm 1 before.length)) .empty
  rw [parseLines, parseLines,
    Macro.processLines_append_cons silent.read?_eq_none,
    Macro.processLines_append, Macro.processLines_move behind]
  cases processed : Macro.processLines .empty 1 before with
  | error fault =>
      rw [processed] at stays
      exact congrArg Except.error (Except.error.inj stays).symm
  | ok outputs =>
      have inserted := scan_insert (outside outputs processed)
        (silent.expandPasses (Macro.macrosAfter .empty before) Macro.maxPasses)
      rw [Macro.length_of_processLines processed] at inserted
      cases Macro.processLines (Macro.macrosAfter .empty before)
        (1 + before.length) after with
      | error fault => rfl
      | ok others => exact inserted others

/-- A blank behind a line of a source changes nothing. -/
theorem parseLines_concat
    {last : Char} (blank : isBlank last) (before : List Text) (line : Text)
    (after : List Text) :
    parseLines (before ++ (line ++ [last]) :: after) =
      parseLines (before ++ line :: after) := by
  rw [parseLines, parseLines]
  rcases Macro.processLines_concat blank .empty 1 before line after with
    same | ⟨outputs, output, others, processed, processedToo⟩
  · rw [same]
  · rw [processed, processedToo]
    show scan _ = scan _
    rw [scan, CodeLine.ofLines, CodeLine.stripLines_concat blank]
    rfl

end Program

theorem OutsideComments.of_concat
    {last : Char} (blank : isBlank last) {before : List Text} {line : Text}
    (outside : OutsideComments (before ++ [line ++ [last]])) :
    OutsideComments (before ++ [line]) := by
  intro outputs processed
  rcases Macro.processLines_concat blank .empty 1 before line [] with
    same | ⟨earlier, output, others, processedToo, longer⟩
  · exact outside outputs (same.trans processed)
  · cases processed.symm.trans processedToo
    rw [← CodeLine.opensAfter_concat blank]
    exact outside _ longer

/-! ## Sources -/

/-- The source with one more line behind as many lines as the position says.  A
last line without a line feed gets one. -/
def insertLine (line : Text) : (position : Nat) → (source : Text) → Text
  | 0, source => line ++ '\n' :: source
  | position + 1, source =>
      match cut '\n' source with
      | some (first, later) => first ++ '\n' :: insertLine line position later
      | none => source ++ '\n' :: (line ++ ['\n'])

theorem not_mem_of_cut_eq_none {separator : Char} {text : Text}
    (notFound : cut separator text = none) : separator ∉ text := by
  intro member
  obtain ⟨before, after, rfl, absent⟩ := List.eq_append_cons_of_mem member
  rw [cut_append absent] at notFound
  cases notFound

/-- The lines are those of the source and the one more.  A carriage return at
the end of the source belongs to the end of its line as soon as a line feed
follows. -/
theorem lines_insertLine
    {line : Text} (noFeed : '\n' ∉ line) {position : Nat} {source : Text}
    (within : position ≤ (lines source).length) :
    lines (insertLine line position source) =
        (lines source).take position ++ dropCarriageReturn line ::
          (lines source).drop position ∨
      ∃ before last, lines source = before ++ [last ++ ['\r']] ∧
        position = before.length + 1 ∧
        lines (insertLine line position source) =
          before ++ [last] ++ [dropCarriageReturn line] := by
  induction position generalizing source with
  | zero => exact .inl (lines_cons_feed noFeed source)
  | succ position inductionHypothesis =>
      rw [insertLine]
      cases found : cut '\n' source with
      | some parts =>
          obtain ⟨rfl, absent⟩ := eq_append_of_cut found
          dsimp only
          rw [lines_cons_feed absent, List.length_cons] at within
          rw [lines_cons_feed absent, lines_cons_feed absent]
          rcases inductionHypothesis (Nat.le_of_succ_le_succ within) with
            inserted | ⟨before, last, isSource, rfl, inserted⟩
          · left
            rw [inserted, List.take_succ_cons, List.drop_succ_cons,
              List.cons_append]
          · right
            refine ⟨dropCarriageReturn parts.1 :: before, last, ?_, rfl, ?_⟩
            · rw [isSource, List.cons_append]
            · rw [inserted, List.cons_append, List.cons_append]
      | none =>
          have absent := not_mem_of_cut_eq_none found
          have nonempty : source ≠ [] := by
            rintro rfl
            exact absurd within (Nat.not_succ_le_zero position)
          have single := lines_of_not_mem nonempty absent
          dsimp only
          rw [single, List.length_singleton] at within
          have isFirst : position = 0 := by omega
          rw [lines_cons_feed absent, lines_cons_feed noFeed, single, isFirst]
          cases dropped : dropEnd? ['\r'] source with
          | some last =>
              right
              rw [eq_append_of_dropEnd? dropped, dropCarriageReturn_concat]
              exact ⟨[], last, rfl, rfl, rfl⟩
          | none =>
              left
              rw [dropCarriageReturn, dropped, Option.getD_none]
              rfl

/-- A silent line anywhere between the lines of a source but inside a comment
changes nothing but numbers: those of the lines behind it, on items and on
faults, grow by one.  A run of the source shows the same. -/
theorem silent_lines_only_move_later_lines
    {source line : Text} {position : Nat} (silent : Silent line)
    (noFeed : '\n' ∉ line) (within : position ≤ (lines source).length)
    (outside : OutsideComments ((lines source).take position)) :
    Program.parse (insertLine line position source) =
        ((Program.parse source).map
          (Program.renumber (movedFrom (position + 1)))).mapError
          (SourceFault.renumber (movedFrom (position + 1))) ∧
      ∀ settings, showing settings (insertLine line position source) =
        (showing settings source).mapError
          (SourceFault.renumber (movedFrom (position + 1))) := by
  have parsed : Program.parse (insertLine line position source) =
      ((Program.parse source).map
        (Program.renumber (movedFrom (position + 1)))).mapError
        (SourceFault.renumber (movedFrom (position + 1))) := by
    show Program.parseLines _ = ((Program.parseLines _).map _).mapError _
    rcases lines_insertLine noFeed within
      with inserted | ⟨before, last, isSource, rfl, inserted⟩
    · have moved := Program.parseLines_insert outside silent.dropCarriageReturn
        ((lines source).drop position)
      rw [List.length_take, Nat.min_eq_left within,
        List.take_append_drop] at moved
      rw [inserted, moved]
    · have whole : (before ++ [last ++ ['\r']]).take (before.length + 1) =
          before ++ [last ++ ['\r']] :=
        List.take_of_length_le (by simp)
      rw [isSource, whole] at outside
      have moved :=
        Program.parseLines_insert
          (outside.of_concat rfl) silent.dropCarriageReturn []
      rw [List.append_nil, List.length_append, List.length_singleton] at moved
      rw [inserted, moved, isSource, Program.parseLines_concat rfl]
  refine ⟨parsed, ?_⟩
  intro settings
  cases isProgram : Program.parse source with
  | error fault =>
      rw [isProgram] at parsed
      rw [showing_of_fault settings isProgram, showing_of_fault settings parsed]
      rfl
  | ok program =>
      rw [isProgram] at parsed
      rw [showing_of_parse settings isProgram, showing_of_parse settings parsed,
        Program.run_renumber]
      rfl

/-- A macro, and a function behind a comment of two lines. -/
def sheltered : Text :=
  "#define CLOSE ".toList ++ '}' :: "\n/* two\nlines */ fn f() ".toList ++
    '{' :: "\nx = 1;\n".toList ++ '}' :: "\ny = 2;\n".toList

def shelteredRemark : Text := "\t// CLOSE".toList

def shelteredFunction : Function :=
  { name := "f".toList, parameters := [], returns := .void, body :=
    ["x = 1;".toList] }

theorem outsideComments_sheltered :
    OutsideComments ((lines sheltered).take 3) := by
  have processed : Macro.processLines .empty 1 ((lines sheltered).take 3) =
      .ok [[], "/* two".toList, "lines */ fn f() ".toList ++ ['{']] := by
    decide +kernel
  intro outputs processedToo
  cases processed.symm.trans processedToo
  decide

theorem parse_sheltered :
    Program.parse sheltered =
      .ok
        { items :=
            [{ line := 3, kind := .function .typed shelteredFunction },
             { line := 6, kind := .statement "y = 2;".toList }] } := by
  decide +kernel

/-- A remark in the function of `sheltered` moves only the statement behind it, by
one line. -/
theorem silent_lines_only_move_later_lines_of_sheltered :
    OutsideComments ((lines sheltered).take 3) ∧
      Program.parse (insertLine shelteredRemark 3 sheltered) =
        .ok
          { items :=
              [{ line := 3, kind := .function .typed shelteredFunction },
               { line := 7, kind := .statement "y = 2;".toList }] } ∧
      ∀ settings, showing settings (insertLine shelteredRemark 3 sheltered) =
        (showing settings sheltered).mapError
          (SourceFault.renumber (movedFrom 4)) := by
  have silent : Silent shelteredRemark := .blank (by decide) (.remark _)
  have noFeed : '\n' ∉ shelteredRemark := by decide
  have within : 3 ≤ (lines sheltered).length := by decide +kernel
  obtain ⟨parsed, shows⟩ :=
    silent_lines_only_move_later_lines silent noFeed within
      outsideComments_sheltered
  rw [parse_sheltered] at parsed
  exact ⟨outsideComments_sheltered, parsed, shows⟩

end LineScript
