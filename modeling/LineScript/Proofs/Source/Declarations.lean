import LineScript.Proofs.Source.HeaderText
import LineScript.Proofs.Source.Layout
import LineScript.Proofs.Source.Remark

/-!
Sources written as declarations of functions and statements.

A source that is written entry by entry is carved into the same entries,
whatever blocks the bodies hold, as long as the removal of comments leaves every
line as it is.  Of the lines without a comment it spoils only some: those with a
double quote, or with the start of a comment, inside a character literal.
-/

namespace LineScript

open Text

namespace CodeLine

open Document

/-- The removal of comments leaves the line as it is. -/
def Untouched (line : Text) : Prop :=
  stripFrom .code line = (line, false)

instance (line : Text) : Decidable (Untouched line) :=
  inferInstanceAs (Decidable (_ = _))

/-- Whether no comment starts outside the literals of a text, read from a
position on. -/
def commentFree : Quotes → Text → Bool
  | _, [] => true
  | quotes, character :: rest =>
      !(quotes == .outside && character == '/' && opensComment rest.head?) &&
        commentFree (quotes.next character) rest

/-- Whether two characters that start a comment stand anywhere in a text. -/
def holdsOpener : Text → Bool
  | [] => false
  | character :: rest =>
      (character == '/' && opensComment rest.head?) || holdsOpener rest

/-- Whether a double quote or the start of a comment stands in a character
literal of a text, read from a position on. -/
def misleads : Quotes → Text → Bool
  | _, [] => false
  | quotes, character :: rest =>
      (quotes != .outside && placeOf quotes == .code &&
          (character == '"' ||
            (character == '/' && opensComment rest.head?))) ||
        misleads (quotes.next character) rest

/-- Where no comment starts, the two scans read the next character alike. -/
theorem readAlike_of_commentFree
    {quotes : Quotes} {character : Char} {rest : Text}
    (free : commentFree quotes (character :: rest))
    (straight : misleads quotes (character :: rest) = false) :
    readAlike quotes character rest.head? := by
  rw [commentFree, Bool.and_eq_true] at free
  rw [misleads, Bool.or_eq_false_iff] at straight
  cases quotes with
  | outside => simpa [readAlike, placeOf] using free.1
  | inside quote escaped =>
      by_cases isCode : placeOf (.inside quote escaped) = .code
      · simpa [readAlike, isCode, and_comm, imp_iff_not_or] using straight.1
      · simp [readAlike, isCode]

theorem stripFrom_placeOf_of_commentFree
    {quotes : Quotes} {line : Text} (free : commentFree quotes line)
    (straight : misleads quotes line = false) :
    stripFrom (placeOf quotes) line = (line, false) := by
  induction line generalizing quotes with
  | nil =>
      cases quotes with
      | outside => rfl
      | inside quote escaped =>
          by_cases inString : quote = '"'
          · simp [placeOf, inString, stripFrom]
          · simp [placeOf, inString, stripFrom]
  | cons character rest inductionHypothesis =>
      have alike := readAlike_of_commentFree free straight
      rw [commentFree, Bool.and_eq_true] at free
      rw [misleads, Bool.or_eq_false_iff] at straight
      rw [stripFrom_placeOf_cons alike, inductionHypothesis free.2 straight.2]

/-- Where no comment could start, the removal of comments has nothing to do. -/
theorem stripFrom_of_no_opener
    {place : Place} (notComment : place ≠ .comment) {line : Text}
    (noOpener : holdsOpener line = false) :
    stripFrom place line = (line, false) := by
  induction line generalizing place with
  | nil =>
      rw [stripFrom]
      cases place with
      | comment => exact absurd rfl notComment
      | code => rfl
      | string escaped => rfl
  | cons character rest inductionHypothesis =>
      rw [holdsOpener, Bool.or_eq_false_iff] at noOpener
      have keeps :
          ∀ {next : Place}, next ≠ .comment →
          stripFrom next rest = (rest, false) :=
        fun goesOn => inductionHypothesis goesOn noOpener.2
      cases place with
      | comment => exact absurd rfl notComment
      | string escaped =>
          cases escaped with
          | true => rw [stripFrom, keeps (by decide)]
          | false =>
              have goesOn : (if character = '\\' then Place.string true
                  else if character = '"' then .code else .string false) ≠
                    .comment := by
                split
                · decide
                · split <;> decide
              rw [stripFrom, keeps goesOn]
      | code =>
          by_cases opens : character = '"'
          · rw [opens, stripFrom_code_cons (by decide)]
            simp only [if_true,
              keeps (show Place.string false ≠ .comment by decide)]
          · have opensNothing :
                character = '/' → opensComment rest.head? = false := by
              simpa using noOpener.1
            rw [stripFrom_code_cons_of_opens_nothing opens opensNothing,
              keeps (by decide)]

/-- Lines on which the scans for comments and for literals can go apart. -/
def Misleading (line : Text) : Prop :=
  misleads .outside line ∧ holdsOpener line

instance (line : Text) : Decidable (Misleading line) :=
  inferInstanceAs (Decidable (_ ∧ _))

/-- A line without a comment is left as it is, unless it misleads. -/
theorem untouched_of_commentFree
    {line : Text} (free : commentFree .outside line)
    (kept : Misleading line → Untouched line) : Untouched line := by
  by_cases noneMisleads : misleads .outside line
  · by_cases anyOpener : holdsOpener line
    · exact kept ⟨noneMisleads, anyOpener⟩
    · exact stripFrom_of_no_opener (by decide) (Bool.eq_false_iff.mpr anyOpener)
  · exact stripFrom_placeOf_of_commentFree free
      (Bool.eq_false_iff.mpr noneMisleads)

theorem numbered_append (number : Nat) (before after : List Text) :
    numbered number (before ++ after) =
      numbered number before ++ numbered (number + before.length) after := by
  rw [numbered, List.zipIdx_append, List.map_append, List.filter_append,
    numbered, numbered]

theorem numbered_cons_of_solid {line : Text} (solid : Solid line) (number : Nat)
    (later : List Text) :
    numbered number (line :: later) =
      ⟨number, line⟩ :: numbered (number + 1) later := by
  have nonempty :
      ¬ (trim line).isEmpty := by simpa [solid.trimmed] using solid.nonempty
  rw [numbered_cons, if_neg nonempty, solid.trimmed]

theorem texts_numbered
    {lines : List Text} (solid : ∀ line ∈ lines, Solid line) (number : Nat) :
    texts (numbered number lines) = lines := by
  induction lines generalizing number with
  | nil => rfl
  | cons line later inductionHypothesis =>
      rcases List.forall_mem_cons.mp solid with ⟨solidLine, solidLater⟩
      rw [numbered_cons_of_solid solidLine, texts, List.map_cons, ← texts,
        inductionHypothesis solidLater]

theorem stripEach_of_untouched
    {lines : List Text} (untouched : ∀ line ∈ lines, Untouched line) :
    stripEach false lines = lines := by
  induction lines with
  | nil => rfl
  | cons line later inductionHypothesis =>
      rcases List.forall_mem_cons.mp untouched
        with ⟨untouchedLine, untouchedLater⟩
      have kept : stripFrom (placeAt false) line = (line, false) :=
        untouchedLine
      rw [stripEach, kept, inductionHypothesis untouchedLater]

/-- Lines without comments are lines of code with their own numbers. -/
theorem ofLines_of_untouched
    {lines : List Text} (untouched : ∀ line ∈ lines, Untouched line) :
    ofLines lines = numbered 1 lines := by
  rw [ofLines, stripLines_eq_numbered, stripEach_of_untouched untouched]

end CodeLine

/-! ## Entries -/

/-- A part of a source: the declaration of a function, in one of the two styles,
or a statement. -/
inductive Entry
  | declaration (style : HeaderStyle) (function : Function)
  | statement (text : Text)
deriving DecidableEq

namespace Entry

def header (style : HeaderStyle) (function : Function) : Header :=
  { style := style
    name := function.name
    parameters := function.parameters
    returns := function.returns }

def lines : Entry → List Text
  | declaration style function =>
      (header style function).text :: (function.body ++ [['}']])
  | statement text => [text]

/-- The lines that an entry is given, without those that a declaration adds to
them. -/
def givenLines : Entry → List Text
  | declaration _ function => function.body
  | statement text => [text]

def kind : Entry → ItemKind
  | declaration style function => .function style function
  | statement text => .statement text

/-- The words that a header can start with. -/
def headerWords : List Text :=
  "fn".toList :: "function".toList :: TypeTag.all.map TypeTag.text

def firstWord (line : Text) : Text :=
  line.takeWhile fun character => !isBlank character

instance (text : Text) : Decidable (Solid text) :=
  decidable_of_iff (trim text = text ∧ text ≠ [])
    ⟨fun isSolid => ⟨isSolid.1, isSolid.2⟩, fun solid =>
      ⟨solid.trimmed, solid.nonempty⟩⟩

/-- The entries that can be written: names are names, the lines of a body and
statements have no blanks around them and no comments, a body closes the
brackets that it opens and no others, and a statement starts like nothing
else. -/
inductive WellFormed : Entry → Prop
  | declaration {style : HeaderStyle} {function : Function}
      (named : isName function.name)
      (namedParameters :
        ∀ parameter ∈ function.parameters, isName parameter.name)
      (solid : ∀ line ∈ function.body, Solid line)
      (commentFree : ∀ line ∈ function.body, CodeLine.commentFree .outside line)
      (opens : ∀ count ≤ function.body.length,
        0 ≤ balance (function.body.take count))
      (closes : balance function.body = 0) :
      WellFormed (.declaration style function)
  | statement {text : Text}
      (solid : Solid text)
      (commentFree : CodeLine.commentFree .outside text)
      (notHeader : firstWord text ∉ headerWords)
      (notImport : firstWord text ≠ "import".toList)
      (notBlock : ∀ keyword ∈ BlockKeyword.all,
        ¬ BlockKeyword.heads (trimStart (text.dropWhile (· == '}'))) keyword) :
      WellFormed (.statement text)

def itemsFrom : (number : Nat) → List Entry → List Item
  | _, [] => []
  | number, entry :: later =>
      { line := number, kind := entry.kind } ::
        itemsFrom (number + entry.lines.length) later

open Program

theorem ofWord?_eq_none {word : Text} (other : word ∉ headerWords) :
    Header.Opening.ofWord? word = none := by
  rw [headerWords, List.mem_cons, List.mem_cons, not_or, not_or] at other
  have noTag : TypeTag.ofText? word = none := by
    apply List.find?_eq_none.mpr
    intro tag member same
    rw [beq_iff_eq] at same
    exact other.2.2 (same ▸ List.mem_map_of_mem member)
  rw [Header.Opening.ofWord?, if_neg other.1, if_neg other.2.1, noTag,
    Option.map_none]

theorem import?_eq_none
    {line : Text} (other : firstWord line ≠ "import".toList) :
    Program.import? line = none := by
  rw [import?, Option.map_eq_none_iff, Option.filter_eq_none_iff]
  intro rest dropped blank
  cases rest with
  | nil => cases blank
  | cons first tail =>
      have isBlankFirst : isBlank first = true := blank
      have wordChars : ∀ character ∈ "import".toList, !isBlank character :=
        List.all_eq_true.mp rfl
      apply other
      rw [firstWord, eq_append_of_dropStart? dropped,
        List.takeWhile_append_of_pos wordChars, List.takeWhile_cons,
        isBlankFirst]
      exact List.append_nil _

theorem blockOpening?_eq_none
    {line : Text} (notBlock : ∀ keyword ∈ BlockKeyword.all,
      ¬ BlockKeyword.heads (trimStart (line.dropWhile (· == '}'))) keyword) :
    blockOpening? line = none := by
  rw [blockOpening?, BlockKeyword.ofLine?, List.find?_eq_none.mpr notBlock,
    ite_self]

/-- A statement is read as one. -/
theorem covers_statement
    {text : Text} (wellFormed : (statement text).WellFormed) (number : Nat) :
    Item.Covers { line := number, kind := .statement text }
      [⟨number, text⟩] := by
  cases wellFormed with
  | statement _ _ notHeader notImport notBlock =>
      have noHeader : Header.read? number text = .ok none := by
        have noOpening := ofWord?_eq_none notHeader
        rw [firstWord] at noOpening
        rw [Header.read?, noOpening]
      exact @Item.Covers.statement ⟨number, text⟩
        (import?_eq_none notImport) noHeader
        (blockOpening?_eq_none notBlock)

section Declarations

variable {style : HeaderStyle} {function : Function}
  (wellFormed : (declaration style function).WellFormed)

include wellFormed

theorem named_header : (header style function).Named := by
  cases wellFormed with
  | declaration named namedParameters => exact ⟨named, namedParameters⟩

theorem untouched_header : CodeLine.Untouched (header style function).text := by
  have spelled := Header.isSpelling_of_mem_text (named_header wellFormed)
  have plain : ∀ character ∈ (header style function).text,
      character ≠ '/' ∧ character ≠ '"' := by
    intro character member
    have isSpelling := spelled character member
    constructor
    · rintro rfl
      exact absurd isSpelling (by decide)
    · rintro rfl
      exact absurd isSpelling (by decide)
  have kept := CodeLine.stripFrom_code_append plain []
  rw [List.append_nil, CodeLine.stripFrom, List.append_nil] at kept
  exact kept

/-- The brackets of a declaration are closed by its last line. -/
theorem closes_lines : Closes 0 (declaration style function).lines := by
  have opening : braceBalance (header style function).text = 1 :=
    Header.braceBalance_of_read? (Header.read?_text (named_header wellFormed) 0)
  have closing : braceBalance ['}'] = -1 := rfl
  cases wellFormed with
  | declaration _ _ _ _ opens closes =>
      apply closes_cons_iff.mpr
      rw [opening]
      refine .inr ⟨by decide, by simp, ?_, ?_⟩
      · rw [balance_append, closes, balance_cons, closing, balance_nil]
        decide
      · intro count _ inside
        have within : count ≤ function.body.length := by
          rw [List.length_append, List.length_singleton] at inside
          omega
        have notNegative := opens count within
        rw [List.take_append_of_le_length within]
        omega

theorem solid_body : ∀ line ∈ function.body, Solid line := by
  cases wellFormed with
  | declaration _ _ solid => exact solid

/-- A declaration is read as the function that it declares. -/
theorem covers_declaration (number : Nat) :
    Item.Covers { line := number, kind := .function style function }
      (CodeLine.numbered number (declaration style function).lines) := by
  have closing : Solid ['}'] := ⟨rfl, List.cons_ne_nil _ _⟩
  have shape : CodeLine.numbered number (declaration style function).lines =
      ⟨number, (header style function).text⟩ ::
        (CodeLine.numbered (number + 1) function.body ++
          [⟨number + 1 + function.body.length, ['}']⟩]) := by
    rw [lines, CodeLine.numbered_cons_of_solid (Header.solid_text _),
      CodeLine.numbered_append, CodeLine.numbered_cons_of_solid closing]
    rfl
  have bodyTexts := CodeLine.texts_numbered (solid_body wellFormed) (number + 1)
  have notImport : import? (header style function).text = none := by
    apply import?_eq_none
    rw [firstWord, Header.text,
      (Header.first_word (Header.isNameChar_of_mem_word _ _) _).1]
    intro isImport
    have opens := Header.ofWord?_word style function.returns
    have opensNothing : Header.Opening.ofWord? "import".toList = none := rfl
    rw [show Header.word style function.returns = _ from isImport,
      opensNothing] at opens
    cases opens
  have isHeader := Header.read?_text (named_header wellFormed) number
  have isBlock : IsBlock (⟨number, (header style function).text⟩ ::
      (CodeLine.numbered (number + 1) function.body ++
        [⟨number + 1 + function.body.length, ['}']⟩])) := by
    have closes := closes_lines wellFormed
    rw [lines, ← bodyTexts] at closes
    rw [IsBlock, CodeLine.texts, List.map_cons, List.map_append]
    exact closes
  have covers := Item.Covers.function notImport isHeader isBlock
  rw [bodyTexts] at covers
  rw [shape]
  exact covers

end Declarations

/-- The lines of an entry are read as this entry. -/
theorem covers_numbered
    {entry : Entry} (wellFormed : entry.WellFormed) (number : Nat) :
    Item.Covers { line := number, kind := entry.kind }
      (CodeLine.numbered number entry.lines) := by
  cases entry with
  | statement text =>
      have solid : Solid text := by
        cases wellFormed with
        | statement solid => exact solid
      rw [lines, CodeLine.numbered_cons_of_solid solid]
      exact covers_statement wellFormed number
  | declaration style function => exact covers_declaration wellFormed number

/-- The lines of well-formed entries are laid out as the items of the
entries. -/
theorem layout_numbered
    {entries : List Entry} (wellFormed : ∀ entry ∈ entries, entry.WellFormed)
    (number : Nat) :
    Layout (itemsFrom number entries)
      (CodeLine.numbered number (entries.flatMap lines)) := by
  induction entries generalizing number with
  | nil => exact .nil
  | cons entry later inductionHypothesis =>
      rcases List.forall_mem_cons.mp wellFormed
        with ⟨wellFormedEntry, wellFormedLater⟩
      rw [List.flatMap_cons, CodeLine.numbered_append, itemsFrom]
      refine .cons (covers_numbered wellFormedEntry number) ?_
        (inductionHypothesis wellFormedLater _)
      intro isSkipped
      cases entry <;> cases isSkipped

theorem kinds_itemsFrom (number : Nat) (entries : List Entry) :
    (itemsFrom number entries).map Item.kind = entries.map kind := by
  induction entries generalizing number with
  | nil => rfl
  | cons entry later inductionHypothesis =>
      rw [itemsFrom, List.map_cons, inductionHypothesis, List.map_cons]

/-- Only a function in the typed style that is called `main` is started. -/
theorem any_declaresMain_iff (number : Nat) (entries : List Entry) :
    (itemsFrom number entries).any Item.declaresMain ↔
      ∃ function : Function, declaration .typed function ∈ entries ∧
        function.name = "main".toList := by
  induction entries generalizing number with
  | nil => simp [itemsFrom]
  | cons entry later inductionHypothesis =>
      rw [itemsFrom, List.any_cons, Bool.or_eq_true, inductionHypothesis]
      constructor
      · rintro (declares | ⟨function, member, isMain⟩)
        · rcases entry with ⟨_ | _, function⟩ | text
          · exact ⟨function, List.mem_cons_self, beq_iff_eq.mp declares⟩
          · cases declares
          · cases declares
        · exact ⟨function, List.mem_cons_of_mem entry member, isMain⟩
      · rintro ⟨function, member, isMain⟩
        rcases List.mem_cons.mp member with rfl | isLater
        · exact .inl (beq_iff_eq.mpr isMain)
        · exact .inr ⟨function, isLater, isMain⟩

theorem untouched_lines
    {entry : Entry} (wellFormed : entry.WellFormed)
    (kept : ∀ line ∈ entry.givenLines, CodeLine.Misleading line → CodeLine.Untouched line) :
    ∀ line ∈ entry.lines, CodeLine.Untouched line := by
  cases entry with
  | statement text =>
      cases wellFormed with
      | statement _ free =>
          rw [givenLines, List.forall_mem_singleton] at kept
          rw [lines, List.forall_mem_singleton]
          exact CodeLine.untouched_of_commentFree free kept
  | declaration style function =>
      have closing : CodeLine.Untouched ['}'] := rfl
      have opening := untouched_header wellFormed
      cases wellFormed with
      | declaration _ _ _ free =>
          rw [lines, List.forall_mem_cons, List.forall_mem_append,
            List.forall_mem_singleton]
          refine ⟨opening, ?_, closing⟩
          intro line member
          exact CodeLine.untouched_of_commentFree (free line member)
            (kept line member)

end Entry

namespace Program

/-- Entries are scanned back from their lines: the same functions and statements
in the same order, each with the number of its first line, and `main` is called
in the end if it was declared with its return type in front.  Lines that mislead
the removal of comments have to be kept by it. -/
theorem written_entries_are_scanned_back
    {entries : List Entry} (wellFormed : ∀ entry ∈ entries, entry.WellFormed)
    (kept : ∀ entry ∈ entries, ∀ line ∈ entry.givenLines,
      CodeLine.Misleading line → CodeLine.Untouched line) :
    ∃ program,
      scan (entries.flatMap Entry.lines) = .ok program ∧
      program.items = Entry.itemsFrom 1 entries ∧
      program.items.map Item.kind = entries.map Entry.kind ∧
      (program.autoMain ↔
        ∃ function : Function, .declaration .typed function ∈ entries ∧
          function.name = "main".toList) := by
  have untouched :
      ∀ line ∈ entries.flatMap Entry.lines, CodeLine.Untouched line := by
    intro line member
    rcases List.mem_flatMap.mp member with ⟨entry, isEntry, inEntry⟩
    exact Entry.untouched_lines (wellFormed entry isEntry)
      (kept entry isEntry) line inEntry
  have layout := Entry.layout_numbered wellFormed 1
  refine ⟨{ items := Entry.itemsFrom 1 entries }, ?_, rfl,
    Entry.kinds_itemsFrom 1 entries,
    Entry.any_declaresMain_iff 1 entries⟩
  rw [scan, CodeLine.ofLines_of_untouched untouched, layout.scanItems_eq]
  rfl

/-- Two functions in both styles with blocks, brackets in literals and a line
that starts like a header, and statements with brackets and with the start of a
comment in a string, once behind two double quotes in character literals. -/
def manifold : List Entry :=
  [.declaration .keyword
      { name := "scale".toList
        parameters :=
          [{ name := "x".toList, tag := .int32 },
            { name := "c".toList, tag := .char }]
        returns := .value .float64
        body :=
          ["if (x > 1) ".toList ++ ['{'],
            "console.write(\"".toList ++ ['}', '}'] ++ " // no\");".toList,
            "fn inner() ".toList ++ ['{'],
            ['}', ' ', '}'],
            "return x / 2;".toList] },
    .statement ('}' :: " t = \"/* no */\";".toList),
    .declaration .typed
      { name := "main".toList, parameters := [], returns := .void, body := [] },
    .statement "join('\"', '\"', \"//\");".toList]

theorem wellFormed_manifold : ∀ entry ∈ manifold, entry.WellFormed := by
  simp only [manifold, List.forall_mem_cons]
  refine ⟨?_, ?_, ?_, ?_, List.forall_mem_nil _⟩
  · constructor <;> decide +kernel
  · constructor <;> decide +kernel
  · constructor <;> decide +kernel
  · constructor <;> decide +kernel

/-- The entries of `manifold` are scanned back, one of them a line that only
looks misleading. -/
theorem written_entries_are_scanned_back_of_manifold :
    (∀ entry ∈ manifold, entry.WellFormed) ∧
    (∀ entry ∈ manifold, ∀ line ∈ entry.givenLines,
      CodeLine.Misleading line → CodeLine.Untouched line) ∧
    ∃ program,
      scan (manifold.flatMap Entry.lines) = .ok program ∧
      program.items = Entry.itemsFrom 1 manifold ∧
      program.items.map Item.kind = manifold.map Entry.kind ∧
      (program.autoMain ↔
        ∃ function : Function, .declaration .typed function ∈ manifold ∧
          function.name = "main".toList) := by
  have kept : ∀ entry ∈ manifold, ∀ line ∈ entry.givenLines,
      CodeLine.Misleading line → CodeLine.Untouched line := by
    decide +kernel
  exact ⟨wellFormed_manifold, kept,
    written_entries_are_scanned_back wellFormed_manifold kept⟩

/-- A function that prints a double quote and an address. -/
def addressing : Function :=
  { name := "f".toList
    parameters := []
    returns := .void
    body := ["console.write('\"', \"http://x\");".toList] }

/-- A double quote in a character literal is taken for the start of a string,
and so the string behind it for code with a comment. -/
theorem quote_in_a_character_literal_cuts_a_body_line :
    (Entry.declaration .typed addressing).WellFormed ∧
      scan (Entry.declaration .typed addressing).lines =
        .ok
          { items :=
              [{ line := 1
                 kind := .function .typed
                   { addressing with body :=
                     ["console.write('\"', \"http:".toList] } }] } := by
  refine ⟨?_, by decide +kernel⟩
  constructor <;> decide +kernel

end Program
end LineScript
