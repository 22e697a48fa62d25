import LineScript.Proofs.Macro.Remark
import LineScript.Proofs.Source.Comments

/-!
Remarks behind the lines of a source.

A remark behind a line is no part of the program, if the line is no directive,
stands outside comments, and has neither a comment nor an open literal after its
macros are expanded.
-/

namespace LineScript

open Text

/-- The text in the middle is a line of the source that the three texts make
up. -/
structure IsLine (before line after : Text) : Prop where
  starts : before = [] ∨ endsWith '\n' before
  noFeed : '\n' ∉ line
  ends : (after = [] ∧ line ≠ []) ∨
    (∃ later, after = '\n' :: later ∧ ¬ endsWith '\r' line) ∨
    ∃ later, after = '\r' :: '\n' :: later

theorem dropCarriageReturn_remarked (line remark : Text) :
    ∃ left, dropCarriageReturn (remarked line remark) = remarked line left := by
  by_cases ending : endsWith '\r' (remarked line remark)
  · rcases List.eq_nil_or_concat remark with rfl | ⟨shorter, last, rfl⟩
    · simp [endsWith, remarked] at ending
    · have isLast : last = '\r' := by
        rw [endsWith, remarked, List.concat_eq_append, List.append_cons,
          List.append_cons, List.append_cons, ← List.append_assoc,
          List.getLast?_concat] at ending
        exact Option.some.inj (beq_iff_eq.mp ending)
      refine ⟨shorter, ?_⟩
      rw [isLast, List.concat_eq_append,
        ← dropCarriageReturn_concat (remarked line shorter)]
      simp [remarked]
  · exact ⟨remark, dropCarriageReturn_of_not_ending ending⟩

/-- A remark behind a line of a source changes no other line of it. -/
theorem IsLine.lines_eq
    {before line after : Text} (isLine : IsLine before line after) :
    ∃ later, lines (before ++ line ++ after) = lines before ++ line :: later ∧
      ∀ remark, '\n' ∉ remark →
        ∃ left, lines (before ++ remarked line remark ++ after) =
          lines before ++ remarked line left :: later := by
  obtain ⟨starts, noFeed, ends⟩ := isLine
  have noFeedToo :
      ∀ {remark : Text}, '\n' ∉ remark → '\n' ∉ remarked line remark := by
    intro remark free
    simp [remarked, noFeed, free]
  simp only [List.append_assoc, lines_append starts]
  rcases ends with ⟨rfl, nonempty⟩ | ⟨later, rfl, noReturn⟩ | ⟨later, rfl⟩
  · refine ⟨[], ?_, ?_⟩
    · rw [List.append_nil, lines_of_not_mem nonempty noFeed]
    · intro remark free
      refine ⟨remark, ?_⟩
      rw [List.append_nil,
        lines_of_not_mem (by simp [remarked]) (noFeedToo free)]
  · refine ⟨lines later, ?_, ?_⟩
    · rw [lines_cons_feed noFeed, dropCarriageReturn_of_not_ending noReturn]
    · intro remark free
      obtain ⟨left, isLeft⟩ := dropCarriageReturn_remarked line remark
      refine ⟨left, ?_⟩
      rw [lines_cons_feed (noFeedToo free), isLeft]
  · have returned : ∀ text : Text, '\n' ∉ text →
        lines (text ++ '\r' :: '\n' :: later) = text :: lines later := by
      intro text free
      have freeToo : '\n' ∉ text ++ ['\r'] := by simp [free]
      rw [List.append_cons, lines_cons_feed freeToo, dropCarriageReturn_concat]
    refine ⟨lines later, ?_, ?_⟩
    · rw [returned line noFeed]
    · intro remark free
      exact ⟨remark, by rw [returned _ (noFeedToo free)]⟩

namespace CodeLine

open Document

/-- Where the scan for comments stands when the scan for literals stands at a
position.  The scan for comments knows strings only. -/
def placeOf : Quotes → Place
  | .outside => .code
  | .inside quote escaped => if quote = '"' then .string escaped else .code

/-- Whether a character at a position, with the next one behind it, stands in a
string or is neither the start of a comment nor a double quote inside a
character literal. -/
def readAlike (quotes : Quotes) (character : Char) (next : Option Char) :
    Bool :=
  placeOf quotes != .code ||
    (!(character == '/' && opensComment next) && (quotes == .outside || character != '"'))

/-- Whether a text, read from a position on, has no comment in it and leaves no
literal open. A character literal may hold neither a double quote nor the start
of a comment. -/
def uncommented : Quotes → Text → Bool
  | quotes, [] => quotes == .outside
  | quotes, character :: rest =>
      readAlike quotes character rest.head? &&
        uncommented (quotes.next character) rest

section Positions

variable {quotes : Quotes} {character : Char}

theorem of_readAlike
    {next : Option Char} (isCode : placeOf quotes = .code)
    (alike : readAlike quotes character next) :
    (character = '/' → opensComment next = false) ∧
      (quotes = .outside ∨ character ≠ '"') := by
  simpa [readAlike, isCode, imp_iff_not_or] using alike

theorem placeOf_next_of_code
    (isCode : placeOf quotes = .code) (notQuote : character ≠ '"') :
    placeOf (quotes.next character) = .code := by
  cases quotes with
  | outside =>
      rw [Quotes.next]
      split
      · exact if_neg notQuote
      · rfl
  | inside quote escaped =>
      have other : quote ≠ '"' := by
        rintro rfl
        cases isCode
      cases escaped with
      | true => exact if_neg other
      | false =>
          rw [Quotes.next]
          split
          · exact if_neg other
          · split
            · rfl
            · exact if_neg other

theorem stripFrom_code_cons_of_alike
    {rest : Text} (isCode : placeOf quotes = .code) (notQuote : character ≠ '"')
    (alike : readAlike quotes character rest.head?) :
    stripFrom .code (character :: rest) =
      let later := stripFrom (placeOf (quotes.next character)) rest
      (character :: later.1, later.2) := by
  rw [placeOf_next_of_code isCode notQuote]
  apply stripFrom_code_cons_of_opens_nothing notQuote
  exact (of_readAlike isCode alike).1

/-- One character: the scan for comments keeps it and stays with the scan for
literals. -/
theorem stripFrom_placeOf_cons
    {rest : Text} (alike : readAlike quotes character rest.head?) :
    stripFrom (placeOf quotes) (character :: rest) =
      let later := stripFrom (placeOf (quotes.next character)) rest
      (character :: later.1, later.2) := by
  cases quotes with
  | outside =>
      by_cases opens : character = '"'
      · rw [opens]
        exact stripFrom_code_cons (by decide) rest
      · exact stripFrom_code_cons_of_alike rfl opens alike
  | inside quote escaped =>
      by_cases inString : quote = '"'
      · rw [inString]
        show stripFrom (.string escaped) (character :: rest) = _
        cases escaped with
        | true =>
            rw [stripFrom]
            rfl
        | false =>
            have together :
                placeOf (Quotes.next (.inside '"' false) character) =
                if character = '\\' then .string true
                else if character = '"' then .code
                else .string false := by
              rw [Quotes.next]
              split
              · rfl
              · split
                · rfl
                · rfl
            rw [stripFrom, together]
      · have isCode : placeOf (.inside quote escaped) = .code := if_neg inString
        have notQuote : character ≠ '"' := by
          simpa using (of_readAlike isCode alike).2
        rw [isCode]
        exact stripFrom_code_cons_of_alike isCode notQuote alike

/-- A text without comments and open literals is kept as it is. -/
theorem stripFrom_append_of_uncommented
    {text rest : Text} (clean : uncommented quotes text)
    (apart : opensComment rest.head? = false) :
    stripFrom (placeOf quotes) (text ++ rest) =
      (text ++ (stripFrom .code rest).1, (stripFrom .code rest).2) := by
  induction text generalizing quotes with
  | nil =>
      rw [beq_iff_eq.mp clean]
      rfl
  | cons character text inductionHypothesis =>
      obtain ⟨alike, cleanLater⟩ := Bool.and_eq_true_iff.mp clean
      have alikeToo : readAlike quotes character (text ++ rest).head? := by
        cases text with
        | nil =>
            rw [List.nil_append]
            have ends : opensComment none = false := rfl
            simpa [readAlike, apart, ends] using alike
        | cons next text => exact alike
      rw [List.cons_append, stripFrom_placeOf_cons alikeToo,
        inductionHypothesis cleanLater]
      rfl

end Positions

section Remarks

variable {text : Text} (clean : uncommented .outside text)

include clean

theorem stripFrom_of_uncommented : stripFrom .code text = (text, false) := by
  have apart : opensComment ([] : Text).head? = false := by rfl
  have kept := stripFrom_append_of_uncommented clean apart
  rw [List.append_nil, stripFrom, List.append_nil] at kept
  exact kept

/-- A remark behind a line of code is removed together with its slashes. -/
theorem stripFrom_remarked (remark : Text) :
    stripFrom .code (remarked text remark) = (text ++ [' '], false) := by
  have notSlash : ' ' ≠ '/' := by decide
  have apart :
      opensComment (' ' :: '/' :: '/' :: remark).head? = false := by rfl
  have kept := stripFrom_append_of_uncommented clean apart
  rw [stripFrom_code_cons notSlash] at kept
  exact kept

/-- A remark behind a line is no part of the lines of code. -/
theorem stripLines_remarked
    {inComment : Bool} {number : Nat} {before later : List Text}
    (notOpen : opensAfter inComment before = false) (remark : Text) :
    stripLines inComment number (before ++ remarked text remark :: later) =
      stripLines inComment number (before ++ text :: later) := by
  induction before generalizing inComment number with
  | nil =>
      have trimmed : trim (text ++ [' ']) = trim text :=
        trim_concat_of_blank text rfl
      have isOpen : inComment = false := notOpen
      rw [List.nil_append, List.nil_append, stripLines_cons, stripLines_cons,
        isOpen]
      simp only [placeAt, Bool.false_eq_true, if_false,
        stripFrom_remarked clean, stripFrom_of_uncommented clean, trimmed]
  | cons line before inductionHypothesis =>
      rw [List.cons_append, List.cons_append, stripLines_cons, stripLines_cons,
        inductionHypothesis notOpen]

end Remarks

end CodeLine

/-! ## Whole programs -/

/-- Behind the line, which stands behind the given lines of a source, a remark
is nothing but a remark. -/
structure TakesRemark (earlier : List Text) (line : Text) : Prop where
  noDirective : Macro.Directive.read? (trim line) = none
  outsideComments : ∀ outputs, Macro.processLines .empty 1 earlier =
    .ok outputs →
    CodeLine.opensAfter false outputs = false
  callsClose :
    Macro.passesClose (Macro.macrosAfter .empty earlier) Macro.maxPasses line
  uncommented :
    CodeLine.uncommented .outside
      (Macro.expand (Macro.macrosAfter .empty earlier) line)

/-- A line that takes remarks is scanned alike with every remark. -/
theorem TakesRemark.scan_eq
    {earlier : List Text} {line : Text} (takes : TakesRemark earlier line)
    (later : List Text) (remark : Text) :
    (Macro.processLines .empty 1
      (earlier ++ remarked line remark :: later)).bind Program.scan =
      (Macro.processLines .empty 1 (earlier ++ line :: later)).bind
        Program.scan := by
  obtain ⟨noDirective, outsideComments, callsClose, uncommented⟩ := takes
  obtain ⟨left, expanded⟩ := Macro.expandPasses_remarked callsClose remark
  rw [← Macro.expand, ← Macro.expand] at expanded
  rw [Macro.processLines_append_cons noDirective,
    Macro.processLines_append_cons
      (Macro.Directive.read?_remarked_of_none noDirective remark),
    expanded]
  cases processed : Macro.processLines .empty 1 earlier with
  | error fault => rfl
  | ok outputs =>
      have notOpen := outsideComments outputs processed
      have sameScan : ∀ others,
          Program.scan (outputs ++
              remarked (Macro.expand (Macro.macrosAfter .empty earlier) line)
                left :: others) =
            Program.scan
              (outputs ++
                Macro.expand (Macro.macrosAfter .empty earlier) line ::
                  others) := by
        intro others
        rw [Program.scan, CodeLine.ofLines,
          CodeLine.stripLines_remarked uncommented notOpen]
        rfl
      cases Macro.processLines (Macro.macrosAfter .empty earlier)
        (1 + earlier.length + 1)
        later with
      | error fault => rfl
      | ok others => exact sameScan others

/-- A remark behind a line of a source is no part of the program, unless the
line is a directive: then it is a part of the directive. -/
theorem remarks_change_directives_only
    {before line after remark : Text} (isLine : IsLine before line after)
    (noFeed : '\n' ∉ remark) :
    (TakesRemark (lines before) line →
      Program.parse (before ++ remarked line remark ++ after) =
        Program.parse (before ++ line ++ after)) ∧
    ∀ directive, Macro.Directive.read? (trim line) = some (some directive) →
      ∃ blanks, (∀ character ∈ blanks, isBlank character) ∧
        ∀ macros number,
          Macro.processLine macros number (remarked line remark) =
          (directive.extended (remarked blanks (trimEnd remark))).elim
            (.error (.directive number (trim (remarked line remark))))
            fun changed => .ok ([], changed.apply macros) := by
  obtain ⟨later, unremarked, withRemark⟩ := isLine.lines_eq
  obtain ⟨left, isRemarked⟩ := withRemark remark noFeed
  constructor
  · intro takes
    rw [Program.parse, Program.parse, Macro.preprocess, Macro.preprocess,
      unremarked, isRemarked]
    exact takes.scan_eq later left
  · intro directive read
    obtain ⟨blanks, allBlank, readToo⟩ :=
      Macro.Directive.read?_remarked read remark
    refine ⟨blanks, allBlank, ?_⟩
    intro macros number
    rw [Macro.processLine, readToo]
    cases directive.extended (remarked blanks (trimEnd remark)) with
    | none => rfl
    | some changed => rfl

def sumDefinition : Text := "#define SUM(p, q) p + q".toList

def sumLine : Text := "x = SUM(1, 2) + \"//\";".toList

def sumEnding : Text := "\r\ny = 1;\n".toList

def sumRemark : Text := " not \"SUM( but".toList

theorem takesRemark_sumLine :
    TakesRemark (lines (sumDefinition ++ ['\n'])) sumLine := by
  have processed :
      Macro.processLines .empty 1 (lines (sumDefinition ++ ['\n'])) =
        .ok [[]] := by
    decide +kernel
  refine ⟨by decide +kernel, ?_, by decide +kernel, by decide +kernel⟩
  intro outputs processedToo
  cases processed.symm.trans processedToo
  rfl

/-- The remark changes nothing behind a line of code and becomes part of the
macro behind its definition. -/
theorem remarks_change_directives_only_of_sum :
    Program.parse
      (sumDefinition ++ ['\n'] ++ remarked sumLine sumRemark ++ sumEnding) =
        Program.parse (sumDefinition ++ ['\n'] ++ sumLine ++ sumEnding) ∧
      ∃ blanks, (∀ character ∈ blanks, isBlank character) ∧
        ∀ macros number,
          Macro.processLine macros number (remarked sumDefinition sumRemark) =
          .ok ([], macros.defineFunction "SUM".toList
            { parameters := ["p".toList, "q".toList]
              body := trim
                ("p + q".toList ++ remarked blanks (trimEnd sumRemark)) }) := by
  have isLine : IsLine (sumDefinition ++ ['\n']) sumLine sumEnding :=
    ⟨.inr rfl, by decide, .inr (.inr ⟨"y = 1;\n".toList, rfl⟩)⟩
  have isFirst : IsLine [] sumDefinition ('\n' :: sumLine) :=
    ⟨.inl rfl, by decide, .inr (.inl ⟨sumLine, rfl, by decide⟩)⟩
  have noFeed : '\n' ∉ sumRemark := by decide
  have read : Macro.Directive.read? (trim sumDefinition) =
      some (some (.defineFunction "SUM".toList
        { parameters := ["p".toList, "q".toList], body :=
          "p + q".toList })) := by
    decide +kernel
  exact ⟨(remarks_change_directives_only isLine noFeed).1 takesRemark_sumLine,
    (remarks_change_directives_only isFirst noFeed).2 _ read⟩

/-- A call that is open at the end of its line takes in the remark. -/
example :
    Program.parse "#define F(p) p\nx = F(1 // )".toList =
      .ok { items := [{ line := 2, kind := .statement "x = 1".toList }] } := by
  decide +kernel

/-- A remark behind a definition gets into the lines that use it: of `x = X +
1;` only `x = 1` is left. -/
theorem remark_behind_a_definition_cuts_its_uses :
    IsLine [] "#define X 1".toList "\nx = X + 1;\n".toList ∧
      CodeLine.uncommented .outside "#define X 1".toList ∧
      Program.parse ("#define X 1".toList ++ "\nx = X + 1;\n".toList) =
        .ok { items :=
          [{ line := 2, kind := .statement "x = 1 + 1;".toList }] } ∧
      Program.parse
        (remarked "#define X 1".toList " one".toList ++
          "\nx = X + 1;\n".toList) =
        .ok { items :=
          [{ line := 2, kind := .statement "x = 1".toList }] } := by
  refine ⟨⟨.inl rfl, by decide, .inr (.inl ⟨"x = X + 1;\n".toList, rfl, by decide⟩)⟩, ?_, ?_, ?_⟩
  · decide
  · decide +kernel
  · decide +kernel

end LineScript
