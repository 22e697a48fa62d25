import LineScript.Proofs.Macro.Remark

/-!
The parts of a line, told by their form.

A literal reaches to its closing quote, a number and a word reach as far as
their characters go, and any other character is a part of its own.  There is
only one way to make up a line from such parts, so a line that is put together
from them is read back as these parts.
-/

namespace LineScript

open Text

namespace Text

/-- The text leaves no string or character literal open. -/
def LiteralsClose (text : Text) : Prop :=
  Quotes.outside.after text = .outside

theorem LiteralsClose.append_iff
    {before : Text} (closed : LiteralsClose before) {after : Text} :
    LiteralsClose (before ++ after) ↔ LiteralsClose after := by
  have reached : Quotes.outside.after before = .outside := closed
  rw [LiteralsClose, Quotes.after_append, reached, LiteralsClose]

theorem literalsClose_of_noQuotes
    {text : Text} (noQuotes : ∀ character ∈ text, ¬ Quotes.isQuote character) :
    LiteralsClose text := by
  induction text with
  | nil => rfl
  | cons character rest inductionHypothesis =>
      obtain ⟨notQuote, later⟩ := List.forall_mem_cons.mp noQuotes
      have stays : Quotes.outside.next character = .outside := if_neg notQuote
      show (Quotes.outside.next character).after rest = .outside
      rw [stays]
      exact inductionHypothesis later

theorem literalsClose_literal
    {quote : Char} (isQuote : Quotes.isQuote quote) {body : Text}
    (isBody : LiteralBody quote false body) :
    LiteralsClose (quote :: body ++ [quote]) := by
  have read :=
    Scan.run_literalBody roundScan_passesLiterals
      (ne_backslash_of_isQuote isQuote)
    isBody 0
  have opens : Quotes.outside.next quote = .inside quote false := if_pos isQuote
  show (Quotes.outside.next quote).after (body ++ [quote]) = .outside
  rw [opens]
  exact (Scan.quotes_of_run read).symm

/-- A reading that is inside a literal stays inside if the literal does not
end. -/
theorem after_of_stillOpen
    {quote : Char} {escaped : Bool} {text : Text}
    (stillOpen : closeLiteral quote escaped text = none) :
    ∃ flag, (Quotes.inside quote escaped).after text = .inside quote flag := by
  induction text generalizing escaped with
  | nil => exact ⟨escaped, rfl⟩
  | cons character rest inductionHypothesis =>
      cases escaped with
      | true => exact inductionHypothesis (Option.map_eq_none_iff.mp stillOpen)
      | false =>
          rw [closeLiteral] at stillOpen
          show ∃ flag, ((Quotes.inside quote false).next character).after rest =
              .inside quote flag
          rw [Quotes.next]
          split
          · next backslash =>
              rw [if_pos backslash] at stillOpen
              exact inductionHypothesis (Option.map_eq_none_iff.mp stillOpen)
          · next notBackslash =>
              rw [if_neg notBackslash] at stillOpen
              split
              · next closes =>
                  rw [if_pos closes] at stillOpen
                  cases stillOpen
              · next notQuote =>
                  rw [if_neg notQuote] at stillOpen
                  exact inductionHypothesis
                    (Option.map_eq_none_iff.mp stillOpen)

theorem not_literalsClose_of_stillOpen
    {quote : Char} (isQuote : Quotes.isQuote quote) {rest : Text}
    (stillOpen : closeLiteral quote false rest = none) :
    ¬ LiteralsClose (quote :: rest) := by
  intro closed
  obtain ⟨flag, isInside⟩ := after_of_stillOpen stillOpen
  have opens : Quotes.outside.next quote = .inside quote false := if_pos isQuote
  have reached : (Quotes.outside.next quote).after rest = .outside := closed
  rw [opens, isInside] at reached
  cases reached

theorem not_isQuote_of_isNameChar
    {character : Char} (named : isNameChar character) :
    ¬ Quotes.isQuote character := by
  have plain := Nesting.isPlain_of_isNameChar named
  simp only [Nesting.isPlain, Bool.and_eq_true, Bool.not_eq_true'] at plain
  simp [plain.1.1]

theorem isNameChar_of_isDigit {character : Char} (digit : isDigit character) :
    isNameChar character := by
  rw [isNameChar, digit, Bool.or_true, Bool.true_or]

theorem not_isDigit_of_isNameStart
    {character : Char} (starts : isNameStart character) :
    ¬ isDigit character := by
  simp only [isNameStart, isLetter, isDigit, Bool.or_eq_true, Bool.and_eq_true,
    decide_eq_true_eq, beq_iff_eq] at starts ⊢
  rcases starts with letter | rfl
  · omega
  · decide

end Text

namespace Macro

namespace Lexeme

/-- The part has the form of its kind, and what follows it does not belong to
it. -/
inductive Fits (numbers : Bool) : Lexeme → (after : Text) → Prop
  | closed {quote : Char} {body after : Text} (isQuote : Quotes.isQuote quote)
      (isBody : LiteralBody quote false body) :
      Fits numbers (.literal (quote :: body ++ [quote])) after
  | unclosed {quote : Char} {rest : Text} (isQuote : Quotes.isQuote quote)
      (stillOpen : closeLiteral quote false rest = none) :
      Fits numbers (.literal (quote :: rest)) []
  | number {first : Char} {digits after : Text} (counts : numbers)
      (digit : isDigit first)
      (inside : ∀ character ∈ digits, isNumberChar character)
      (ends : ∀ character ∈ after.head?, ¬ isNumberChar character) :
      Fits numbers (.number (first :: digits)) after
  | word {name after : Text} (named : isName name)
      (ends : ∀ character ∈ after.head?, ¬ isNameChar character) :
      Fits numbers (.word name) after
  | other {character : Char} {after : Text}
      (notQuote : ¬ Quotes.isQuote character)
      (notNumber : ¬ (numbers && isDigit character))
        (notName : ¬ isNameStart character) :
      Fits numbers (.other character) after

/-- The first part of a line has the form of its kind and goes on as far as it
can. -/
theorem fits_next (numbers : Bool) (character : Char) (rest : Text) :
    (next numbers character rest).1.Fits numbers
      (next numbers character rest).2 := by
  rw [next]
  split
  · next isQuote =>
      rw [spanLiteral]
      split
      · next inner after isClosed =>
          exact .closed isQuote (literalBody_of_closeLiteral isClosed).1
      · next stillOpen => exact .unclosed isQuote stillOpen
  · next notQuote =>
      split
      · next isNumber =>
          obtain ⟨counts, digit⟩ := Bool.and_eq_true_iff.mp isNumber
          exact .number counts digit (fun _ => List.mem_takeWhile_imp)
            (maximal_dropWhile _ _)
      · next notNumber =>
          split
          · next starts =>
              have named : isName (character :: rest.takeWhile isNameChar) :=
                Bool.and_eq_true_iff.mpr ⟨starts, List.all_takeWhile⟩
              exact .word named (maximal_dropWhile _ _)
          · next notName => exact .other notQuote notNumber notName

/-- A part of the right form is read back as it is. -/
theorem Fits.next_eq
    {numbers : Bool} {lexeme : Lexeme} {after : Text}
    (fits : lexeme.Fits numbers after) :
    ∃ character rest, lexeme.text ++ after = character :: rest ∧
      next numbers character rest = (lexeme, after) := by
  cases fits with
  | @closed quote body _ isQuote isBody =>
      refine ⟨quote, body ++ quote :: after, by simp [text], ?_⟩
      have isClosed :=
        isBody.closeLiteral_eq (ne_backslash_of_isQuote isQuote) after
      simp only [next, if_pos isQuote, spanLiteral, isClosed]
  | @unclosed quote rest isQuote stillOpen =>
      refine ⟨quote, rest, by simp [text], ?_⟩
      simp only [next, if_pos isQuote, spanLiteral, stillOpen]
  | @number first digits _ counts digit inside ends =>
      obtain ⟨taken, dropped⟩ := span_of_maximal inside ends
      refine ⟨first, digits ++ after, rfl, ?_⟩
      rw [next,
        if_neg (not_isQuote_of_isNameChar (isNameChar_of_isDigit digit)),
        if_pos (Bool.and_eq_true_iff.mpr ⟨counts, digit⟩), taken, dropped]
  | @word name _ named ends =>
      obtain ⟨first, letters, rfl, starts, inside⟩ :=
        exists_cons_of_isName named
      obtain ⟨taken, dropped⟩ := span_of_maximal inside ends
      have notNumber : ¬ (numbers && isDigit first) := fun both =>
        not_isDigit_of_isNameStart starts (Bool.and_eq_true_iff.mp both).2
      refine ⟨first, letters ++ after, rfl, ?_⟩
      rw [next,
        if_neg (not_isQuote_of_isNameChar (isNameChar_of_isNameStart starts)),
        if_neg notNumber, if_pos starts, taken, dropped]
  | @other character _ notQuote notNumber notName =>
      refine ⟨character, after, rfl, ?_⟩
      rw [next, if_neg notQuote, if_neg notNumber, if_neg notName]

theorem Fits.exists_cons
    {numbers : Bool} {lexeme : Lexeme} {after : Text}
    (fits : lexeme.Fits numbers after) :
    ∃ first rest, lexeme.text = first :: rest := by
  cases fits with
  | closed _ _ => exact ⟨_, _, rfl⟩
  | unclosed _ _ => exact ⟨_, _, rfl⟩
  | number _ _ _ _ => exact ⟨_, _, rfl⟩
  | word named _ => exact List.exists_cons_of_ne_nil (name_ne_nil named)
  | other _ _ _ => exact ⟨_, _, rfl⟩

/-- A part keeps its form if the text behind it ends earlier. -/
theorem Fits.of_append
    {numbers : Bool} {lexeme : Lexeme} {middle beyond : Text}
    (fits : lexeme.Fits numbers (middle ++ beyond)) :
    lexeme.Fits numbers middle := by
  generalize isAfter : middle ++ beyond = after at fits
  have head : ∀ character ∈ middle.head?, character ∈ after.head? := by
    intro character isFirst
    rw [← isAfter, List.head?_append, Option.mem_def.mp isFirst]
    rfl
  cases fits with
  | closed isQuote isBody => exact .closed isQuote isBody
  | unclosed isQuote stillOpen =>
      rw [(List.append_eq_nil_iff.mp isAfter).1]
      exact .unclosed isQuote stillOpen
  | number counts digit inside ends =>
      exact .number counts digit inside fun character isFirst =>
        ends character (head character isFirst)
  | word named ends =>
      exact .word named fun character isFirst =>
        ends character (head character isFirst)
  | other notQuote notNumber notName => exact .other notQuote notNumber notName

/-- Only the last part of a line can leave a literal open. -/
theorem Fits.literalsClose_or_last
    {numbers : Bool} {lexeme : Lexeme} {after : Text}
    (fits : lexeme.Fits numbers after) :
    LiteralsClose lexeme.text ∨ after = [] := by
  cases fits with
  | closed isQuote isBody => exact .inl (literalsClose_literal isQuote isBody)
  | unclosed _ _ => exact .inr rfl
  | @number first digits _ _ digit inside _ =>
      left
      apply literalsClose_of_noQuotes
      intro character member
      have numeric : isNumberChar character := by
        rcases List.mem_cons.mp member with rfl | later
        · exact Bool.or_eq_true_iff.mpr (.inl (isNameChar_of_isDigit digit))
        · exact inside character later
      rcases Bool.or_eq_true_iff.mp numeric with named | point
      · exact not_isQuote_of_isNameChar named
      · rw [beq_iff_eq.mp point]
        decide
  | word named _ =>
      left
      apply literalsClose_of_noQuotes
      intro character member
      exact not_isQuote_of_isNameChar
        (isNameChar_of_mem_name named character member)
  | other notQuote _ _ => exact .inl (if_neg notQuote)

end Lexeme

/-! ## The parts of a line -/

/-- The line is made up of the parts, each of the right form. -/
inductive Lexed (numbers : Bool) : List Lexeme → (line : Text) → Prop
  | nil : Lexed numbers [] []
  | cons {lexeme : Lexeme} {parts : List Lexeme} {after : Text}
      (fits : lexeme.Fits numbers after) (later : Lexed numbers parts after) :
      Lexed numbers (lexeme :: parts) (lexeme.text ++ after)

/-- A line is made up of its parts. -/
theorem lexed_lexemes (numbers : Bool) (line : Text) :
    Lexed numbers (lexemes numbers line) line := by
  fun_induction lexemes numbers line with
  | case1 => exact .nil
  | case2 character rest inductionHypothesis =>
      have lexed :=
        Lexed.cons (Lexeme.fits_next numbers character rest) inductionHypothesis
      rwa [Lexeme.text_next] at lexed

namespace Lexed

variable {numbers : Bool} {parts : List Lexeme} {line : Text}

/-- Nothing else makes up the line: its parts are determined by their forms. -/
theorem lexemes_eq (lexed : Lexed numbers parts line) :
    lexemes numbers line = parts := by
  induction lexed with
  | nil => rw [lexemes]
  | cons fits _ inductionHypothesis =>
      obtain ⟨character, rest, whole, scanned⟩ := fits.next_eq
      rw [whole, lexemes, scanned, inductionHypothesis]

theorem flatMap_text (lexed : Lexed numbers parts line) :
    parts.flatMap Lexeme.text = line := by
  rw [← lexed.lexemes_eq, flatMap_lexemes]

theorem of_append_right
    {before after : List Lexeme}
    (lexed : Lexed numbers (before ++ after) line) :
    Lexed numbers after (after.flatMap Lexeme.text) := by
  induction before generalizing line with
  | nil =>
      rw [List.nil_append] at lexed
      rw [lexed.flatMap_text]
      exact lexed
  | cons lexeme before inductionHypothesis =>
      cases lexed with
      | cons _ later => exact inductionHypothesis later

theorem of_append_left
    {before after : List Lexeme}
    (lexed : Lexed numbers (before ++ after) line) :
    Lexed numbers before (before.flatMap Lexeme.text) := by
  induction before generalizing line with
  | nil => exact .nil
  | cons lexeme before inductionHypothesis =>
      rw [List.cons_append] at lexed
      cases lexed with
      | @cons _ _ rest fits later =>
          have whole := later.flatMap_text
          rw [List.flatMap_append] at whole
          rw [← whole] at fits
          rw [List.flatMap_cons]
          exact .cons fits.of_append (inductionHypothesis later)

end Lexed

theorem lexemes_cons_of_fits
    {numbers : Bool} {lexeme : Lexeme} {after : Text}
    (fits : lexeme.Fits numbers after) :
    lexemes numbers (lexeme.text ++ after) = lexeme :: lexemes numbers after :=
  (Lexed.cons fits (lexed_lexemes numbers after)).lexemes_eq

end Macro
end LineScript
