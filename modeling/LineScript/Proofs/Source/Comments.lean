import LineScript.Proofs.Source.CodeLines
import LineScript.Source.Program

/-!
Sources written as code, literals and comments, and what is left of them as
lines of code.

A comment is deleted wherever it stands, and nothing else is: a comment opener
inside a string literal is a part of the literal.  The one thing that misleads
the removal of comments is a double quote inside a character literal, which is
taken for the start of a string.
-/

namespace LineScript

open Text

namespace Document

/-- A part of a source as it is written.  Code is written character by
character, a remark runs to the end of its line, and a comment may have several
lines. -/
inductive Part
  | code (character : Char)
  | string (body : Text)
  | char (body : Text)
  | remark (text : Text)
  | comment (first : Text) (later : List Text)
  | lineBreak
deriving DecidableEq

def encloseChar (body : Text) : Text :=
  '\'' :: (body ++ ['\''])

namespace Part

def closing : Text → List Text → List Text
  | last, [] => [last ++ ['*', '/']]
  | line, next :: later => line :: closing next later

/-- The lines of a part.  What follows the part goes on in the last one of
them. -/
def written : Part → List Text
  | code character => [[character]]
  | string body => [enquote body]
  | char body => [encloseChar body]
  | remark text => ['/' :: '/' :: text]
  | comment first later => closing ('/' :: '*' :: first) later
  | lineBreak => [[], []]

def kept : Part → List Text
  | remark _ => [[]]
  | comment _ later => [] :: later.map fun _ => []
  | part => part.written

end Part

/-- The lines of two texts, one after the other: the last line of the first text
and the first line of the second one are one line. -/
def continued : List Text → List Text → List Text
  | [], lines => lines
  | [last], [] => [last]
  | [last], next :: later => (last ++ next) :: later
  | line :: next :: later, lines => line :: continued (next :: later) lines

/-- The lines of a document, if each part has the given lines. -/
def layOut (linesOf : Part → List Text) (document : List Part) : List Text :=
  document.foldr (fun part following => continued (linesOf part) following) [[]]

def written (document : List Part) : List Text :=
  layOut Part.written document

/-- The lines of a document with its comments deleted and all else kept. -/
def kept (document : List Part) : List Text :=
  layOut Part.kept document

/-- The character that a document puts behind what stands before it on the same
line. -/
def nextCharacter (document : List Part) : Option Char :=
  (written document).head?.bind List.head?

def endsComment : Text → Bool
  | '*' :: '/' :: _ => true
  | _ :: rest => endsComment rest
  | [] => false

def opensComment (next : Option Char) : Bool :=
  next == some '/' || next == some '*'

/-- Whether a part says what it is meant to say, with the given parts behind it:
code has neither quotes nor comment openers, literals are well formed, a remark
is the last part of its line, and a comment ends at its end. -/
def Part.fits (following : List Part) : Part → Bool
  | code character =>
      !Quotes.isQuote character &&
        !(character == '/' && opensComment (nextCharacter following))
  | string body => stringLiteral? (enquote body) == some body
  | char body => charLiteral? (encloseChar body) == some body
  | remark _ => following.head?.all (· == lineBreak)
  | comment first later => (first :: later).all fun line => !endsComment line
  | lineBreak => true

def Part.holdsQuote : Part → Bool
  | char body => body.contains '"'
  | _ => false

/-- Whether every part of the document fits before the parts behind it. -/
def wellFormed : List Part → Bool
  | [] => true
  | part :: following => part.fits following && wellFormed following

theorem exists_cons_of_continued
    (lines : List Text) (line : Text) (later : List Text) :
    ∃ first others, continued lines (line :: later) = first :: others := by
  cases lines with
  | nil => exact ⟨_, _, rfl⟩
  | cons first others =>
      cases others with
      | nil => exact ⟨_, _, rfl⟩
      | cons second others => exact ⟨_, _, rfl⟩

theorem layOut_cons
    (linesOf : Part → List Text) (part : Part) (following : List Part) :
    layOut linesOf (part :: following) =
      continued (linesOf part) (layOut linesOf following) :=
  rfl

/-- A document has at least one line. -/
theorem exists_cons_of_written (document : List Part) :
    ∃ first others, written document = first :: others := by
  induction document with
  | nil => exact ⟨_, _, rfl⟩
  | cons part following inductionHypothesis =>
      obtain ⟨line, later, isFollowing⟩ := inductionHypothesis
      rw [written, layOut_cons, ← written, isFollowing]
      exact exists_cons_of_continued part.written line later

end Document

namespace CodeLine

open Document

def stripEach : (inComment : Bool) → List Text → List Text
  | _, [] => []
  | inComment, line :: later =>
      (stripFrom (placeAt inComment) line).1 ::
        stripEach (stripFrom (placeAt inComment) line).2 later

/-- The lines of code among lines without comments, from a given number on:
trimmed, blank lines dropped, each with its own number. -/
def numbered (number : Nat) (lines : List Text) : List CodeLine :=
  ((lines.zipIdx number).map fun line => ⟨line.2, trim line.1⟩).filter
    fun line =>
    !line.text.isEmpty

theorem numbered_cons (number : Nat) (line : Text) (later : List Text) :
    numbered number (line :: later) =
      if (trim line).isEmpty then numbered (number + 1) later
      else ⟨number, trim line⟩ :: numbered (number + 1) later := by
  rw [numbered, List.zipIdx_cons, List.map_cons, List.filter_cons]
  cases (trim line).isEmpty with
  | true => rfl
  | false => rfl

/-- Removing comments and numbering the lines can be done one after the
other. -/
theorem stripLines_eq_numbered
    (inComment : Bool) (number : Nat) (lines : List Text) :
    stripLines inComment number lines =
      numbered number (stripEach inComment lines) := by
  induction lines generalizing inComment number with
  | nil => rfl
  | cons line later inductionHypothesis =>
      rw [stripLines_cons, stripEach, numbered_cons, inductionHypothesis]

/-! ## One line -/

/-- Code that opens neither a comment nor a string. -/
theorem stripFrom_code_cons_of_opens_nothing
    {character : Char} (notQuote : character ≠ '"') {rest : Text}
    (opensNothing : character = '/' → opensComment rest.head? = false) :
    stripFrom .code (character :: rest) =
      (character :: (stripFrom .code rest).1, (stripFrom .code rest).2) := by
  by_cases slash : character = '/'
  · have closed := opensNothing slash
    rw [slash, stripFrom]
    · rfl
    · rintro later - rfl
      cases closed
    · rintro later - rfl
      cases closed
  · rw [stripFrom_code_cons slash]
    simp only [if_neg notQuote]

/-- A comment goes on past a character that does not end it. -/
theorem stripFrom_comment_cons
    {character : Char} {rest : Text}
    (goesOn : character = '*' → rest.head? ≠ some '/') :
    stripFrom .comment (character :: rest) = stripFrom .comment rest := by
  rw [stripFrom]
  rintro later rfl rfl
  exact goesOn rfl rfl

theorem endsComment_cons
    {character : Char} {rest : Text}
    (stillOpen : endsComment (character :: rest) = false) :
    (character = '*' → rest.head? ≠ some '/') ∧ endsComment rest = false := by
  constructor
  · rintro rfl isSlash
    cases rest with
    | nil => cases isSlash
    | cons next later =>
        cases isSlash
        cases stillOpen
  · cases rest with
    | nil => rfl
    | cons next later =>
        rw [endsComment] at stillOpen
        · exact stillOpen
        · rintro _ rfl same
          cases same
          cases stillOpen

theorem stripFrom_comment_of_open
    {text : Text} (stillOpen : endsComment text = false) :
    stripFrom .comment text = ([], true) := by
  induction text with
  | nil => rfl
  | cons character rest inductionHypothesis =>
      obtain ⟨goesOn, openRest⟩ := endsComment_cons stillOpen
      rw [stripFrom_comment_cons goesOn, inductionHypothesis openRest]

theorem stripFrom_comment_append
    {text : Text} (stillOpen : endsComment text = false) (rest : Text) :
    stripFrom .comment (text ++ '*' :: '/' :: rest) = stripFrom .code rest := by
  induction text with
  | nil => rfl
  | cons character text inductionHypothesis =>
      obtain ⟨goesOn, openText⟩ := endsComment_cons stillOpen
      have goesOnThere :
          character = '*' → (text ++ '*' :: '/' :: rest).head? ≠ some '/' := by
        intro isStar
        cases text with
        | nil => exact (by decide : some '*' ≠ some '/')
        | cons next later => exact goesOn isStar
      rw [List.cons_append, stripFrom_comment_cons goesOnThere,
        inductionHypothesis openText]

/-- Between the quotes of a character literal stands one character, or a
backslash and the character that it escapes. -/
theorem body_of_charLiteral?
    {text body : Text} (found : charLiteral? text = some body) :
    (∃ character, body = [character]) ∨
      ∃ character, body = ['\\', character] := by
  unfold charLiteral? at found
  split at found
  · next first second _ =>
      split at found
      · next escapes =>
          cases found
          exact .inr ⟨second, by rw [escapes]⟩
      · cases found
  · next character _ =>
      split at found
      · cases found
      · cases found
        exact .inl ⟨character, rfl⟩
  · cases found

/-- Nothing of a character literal is taken for a comment, unless it holds a
double quote. -/
theorem stripFrom_encloseChar
    {body : Text} (found : charLiteral? (encloseChar body) = some body)
    (noQuote : '"' ∉ body) (rest : Text) :
    stripFrom .code (encloseChar body ++ rest) =
      (encloseChar body ++ (stripFrom .code rest).1,
        (stripFrom .code rest).2) := by
  have enclosing : ∀ rest : Text, stripFrom .code ('\'' :: rest) =
      ('\'' :: (stripFrom .code rest).1, (stripFrom .code rest).2) :=
        fun rest =>
    stripFrom_code_cons_of_opens_nothing (by decide) (absurd · (by decide))
  have enclosed :
      ∀ character ∈ body, stripFrom .code (character :: '\'' :: rest) =
      (character :: '\'' :: (stripFrom .code rest).1,
        (stripFrom .code rest).2) := by
    intro character member
    have notQuote : character ≠ '"' := fun same => noQuote (same ▸ member)
    rw [stripFrom_code_cons_of_opens_nothing notQuote fun _ => rfl, enclosing]
  rcases body_of_charLiteral? found with ⟨character, rfl⟩ | ⟨character, rfl⟩
  · have held := enclosed character List.mem_cons_self
    simp only [encloseChar, List.cons_append, List.nil_append, enclosing, held]
  · have escaping : ∀ rest : Text, stripFrom .code ('\\' :: rest) =
        ('\\' :: (stripFrom .code rest).1, (stripFrom .code rest).2) :=
          fun rest =>
      stripFrom_code_cons_of_opens_nothing (by decide) (absurd · (by decide))
    have held := enclosed character (List.mem_cons_of_mem _ List.mem_cons_self)
    simp only [encloseChar, List.cons_append, List.nil_append, enclosing,
      escaping, held]

/-- Text that is kept before what follows it on its line. -/
theorem stripEach_continued_singleton
    {text kept line : Text} {later : List Text}
    (strips : stripFrom .code (text ++ line) =
      (kept ++ (stripFrom .code line).1, (stripFrom .code line).2)) :
    stripEach false (continued [text] (line :: later)) =
      continued [kept] (stripEach false (line :: later)) := by
  have step : stripFrom (placeAt false) (text ++ line) =
      (kept ++ (stripFrom (placeAt false) line).1,
        (stripFrom (placeAt false) line).2) := strips
  simp only [continued, stripEach, step]

/-- A comment over several lines leaves empty lines up to the one that ends
it. -/
theorem stripEach_closing
    {first : Text} {comment : List Text}
    (stillOpen : ∀ text ∈ first :: comment, endsComment text = false)
    (line : Text) (later : List Text) :
    stripEach true (continued (Part.closing first comment) (line :: later)) =
      continued ([] :: comment.map fun _ => [])
        (stripEach false (line :: later)) := by
  induction comment generalizing first with
  | nil =>
      have strips : stripFrom (placeAt true) (first ++ ['*', '/'] ++ line) =
          stripFrom (placeAt false) line := by
        rw [List.append_assoc]
        exact stripFrom_comment_append (stillOpen first List.mem_cons_self) line
      simp only [Part.closing, continued, stripEach, strips]
      rfl
  | cons second comment inductionHypothesis =>
      obtain ⟨openFirst, openLater⟩ := List.forall_mem_cons.mp stillOpen
      have strips : stripFrom (placeAt true) first = ([], true) :=
        stripFrom_comment_of_open openFirst
      have goesOn := inductionHypothesis openLater
      have split :
          ∃ next others, Part.closing second comment = next :: others := by
        cases comment with
        | nil => exact ⟨_, _, rfl⟩
        | cons third others => exact ⟨_, _, rfl⟩
      obtain ⟨next, others, isClosing⟩ := split
      rw [isClosing] at goesOn
      simp only [Part.closing, isClosing, continued, stripEach, strips,
        List.map_cons]
      exact congrArg ([] :: ·) goesOn

end CodeLine

namespace Document

open CodeLine

/-- One step: what is left of a part goes on with what is left of the parts
behind it. -/
theorem stripEach_continued
    {part : Part} {following : List Part} (fits : part.fits following)
    (noQuote : part.holdsQuote = false) :
    stripEach false (continued part.written (written following)) =
      continued part.kept (stripEach false (written following)) := by
  obtain ⟨line, later, isWritten⟩ := exists_cons_of_written following
  cases part with
  | code character =>
      simp only [Part.fits, nextCharacter, isWritten, List.head?_cons,
        Option.bind_some, Bool.and_eq_true, Bool.not_eq_true',
        Bool.and_eq_false_imp, beq_iff_eq] at fits
      obtain ⟨isCode, opensNothing⟩ := fits
      have notQuote : character ≠ '"' := by
        rintro rfl
        cases isCode
      rw [isWritten]
      apply stripEach_continued_singleton
      exact stripFrom_code_cons_of_opens_nothing notQuote opensNothing
  | string body =>
      obtain ⟨isBody, _⟩ := stringLiteral?_eq_some_iff.mp (beq_iff_eq.mp fits)
      rw [isWritten]
      apply stripEach_continued_singleton
      exact stripFrom_enquote isBody line
  | char body =>
      have absent : '"' ∉ body := by simpa [Part.holdsQuote] using noQuote
      rw [isWritten]
      apply stripEach_continued_singleton
      exact stripFrom_encloseChar (beq_iff_eq.mp fits) absent line
  | remark text =>
      -- Nothing stands behind a remark on its line.
      have endsLine : ∃ more, written following = [] :: more := by
        cases following with
        | nil => exact ⟨[], rfl⟩
        | cons next following =>
            have isBreak : next = .lineBreak := beq_iff_eq.mp fits
            rw [isBreak]
            exact ⟨continued [[]] (written following), rfl⟩
      obtain ⟨more, isMore⟩ := endsLine
      rw [isMore]
      apply stripEach_continued_singleton
      rw [List.append_nil, stripFrom]
      rfl
  | comment first comment =>
      have stillOpen : ∀ text ∈ first :: comment, endsComment text = false :=
        fun text member =>
        (Bool.not_eq_true' _).mp (List.all_eq_true.mp fits text member)
      rw [isWritten]
      -- The opener takes the first line into the comment.
      have opens :
          stripEach false
            (continued (Part.comment first comment).written (line :: later)) =
            stripEach true
              (continued (Part.closing first comment) (line :: later)) := by
        cases comment with
        | nil => rfl
        | cons second comment => cases comment <;> rfl
      rw [opens]
      exact stripEach_closing stillOpen line later
  | lineBreak =>
      rw [isWritten]
      rfl

/-- Removing comments line by line leaves the document with its comments
deleted. -/
theorem stripEach_written
    {document : List Part} (isWellFormed : wellFormed document)
    (noQuotes : document.any Part.holdsQuote = false) :
    stripEach false (written document) = kept document := by
  induction document with
  | nil => rfl
  | cons part following inductionHypothesis =>
      obtain ⟨fits, later⟩ := Bool.and_eq_true_iff.mp isWellFormed
      obtain ⟨noQuote, noQuotesLater⟩ := Bool.or_eq_false_iff.mp noQuotes
      calc
        stripEach false (written (part :: following)) =
            continued part.kept (stripEach false (written following)) :=
          stripEach_continued fits noQuote
        _ = kept (part :: following) := by
          rw [inductionHypothesis later noQuotesLater, kept, kept, layOut_cons]

/-- The lines of code of a document are its lines with the comments deleted and
all code and all literals kept, trimmed, without the blank ones, each with its
own number.  The document must not have the character literal of a double
quote. -/
theorem comments_are_deleted_outside_literals
    {document : List Part} (isWellFormed : wellFormed document)
    (noQuotes : document.any Part.holdsQuote = false) :
    CodeLine.ofLines (written document) = CodeLine.numbered 1 (kept document) ∧
      Program.scan (written document) =
        (Program.scanItems (CodeLine.numbered 1 (kept document))).map
          Program.mk := by
  have stripped :
      CodeLine.ofLines (written document) =
        CodeLine.numbered 1 (kept document) := by
    rw [CodeLine.ofLines, stripLines_eq_numbered,
      stripEach_written isWellFormed noQuotes]
  refine ⟨stripped, ?_⟩
  rw [Program.scan, stripped]

/-- A document with every kind of part, with comment openers in literals and
quotes in comments. -/
def annotated : List Part :=
  "x = a / b; ".toList.map .code ++
    [.remark " half, \"rounded".toList, .lineBreak,
      .comment "* one '".toList [[], "two *".toList]] ++
    "y = ".toList.map .code ++
    [.char "/".toList, .code ';', .comment [] [], .code ' ',
      .string "// \\\" /* kept */".toList,
      .code ';', .lineBreak, .char "\\'".toList]

/-- The comments of `annotated` go and what looks like comments in its literals
stays. -/
theorem comments_are_deleted_outside_literals_of_annotated :
    wellFormed annotated ∧ annotated.any Part.holdsQuote = false ∧
      written annotated =
        ["x = a / b; // half, \"rounded".toList,
          "/** one '".toList,
          [],
          "two **/y = '/';/**/ \"// \\\" /* kept */\";".toList,
          "'\\''".toList] ∧
      CodeLine.ofLines (written annotated) =
        [⟨1, "x = a / b;".toList⟩,
          ⟨4, "y = '/'; \"// \\\" /* kept */\";".toList⟩,
          ⟨5, "'\\''".toList⟩] := by
  have isWellFormed : wellFormed annotated := by decide +kernel
  have noQuotes : annotated.any Part.holdsQuote = false := by decide +kernel
  refine ⟨isWellFormed, noQuotes, by decide +kernel, ?_⟩
  rw [(comments_are_deleted_outside_literals isWellFormed noQuotes).1]
  decide +kernel

/-- A statement that assigns the character literal of a double quote, with a
remark behind it. -/
def quoting : List Part :=
  "var c: Char = ".toList.map .code ++
    [.char ['"'], .code ';', .code ' ', .remark " note".toList]

/-- A double quote in a character literal keeps the remark behind it in the
code. -/
theorem quote_in_a_character_literal_hides_a_remark :
    wellFormed quoting ∧
      written quoting = ["var c: Char = '\"'; // note".toList] ∧
      CodeLine.numbered 1 (kept quoting) = [⟨1, "var c: Char = '\"';".toList⟩] ∧
      CodeLine.ofLines (written quoting) =
        [⟨1, "var c: Char = '\"'; // note".toList⟩] := by
  decide +kernel

end Document
end LineScript
