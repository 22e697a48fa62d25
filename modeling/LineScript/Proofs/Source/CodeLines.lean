import LineScript.Proofs.Text.Literal
import LineScript.Source.CodeLine

/-!
The lines of code of a source: each of them is one line of the source without
its comments, and they stand in the order of their numbers.
-/

namespace LineScript
namespace CodeLine

open Text

/-- Where the scan for comments stands at the start of a line. -/
def placeAt (inComment : Bool) : Place :=
  if inComment then .comment else .code

/-- Whether a comment is open after the lines, if one was open before them or
not. -/
def opensAfter (inComment : Bool) (lines : List Text) : Bool :=
  lines.foldl
    (fun inComment line => (stripFrom (placeAt inComment) line).2) inComment

/-- The code of a line that stands after the given lines at the start of a
source. -/
def codeAfter (before : List Text) (line : Text) : Text :=
  trim (stripFrom (placeAt (opensAfter false before)) line).1

section Lines

variable {inComment : Bool} {number : Nat} {lines : List Text}
    {codeLine : CodeLine}

theorem stripLines_cons (line : Text) :
    stripLines inComment number (line :: lines) =
      if (trim (stripFrom (placeAt inComment) line).1).isEmpty then
        stripLines (stripFrom (placeAt inComment) line).2 (number + 1) lines
      else
        ⟨number, trim (stripFrom (placeAt inComment) line).1⟩ ::
          stripLines (stripFrom (placeAt inComment) line).2
            (number + 1) lines := by
  rw [stripLines]
  rfl

theorem mem_stripLines_cons {line : Text} :
    codeLine ∈ stripLines inComment number (line :: lines) ↔
      (codeLine = ⟨number, trim (stripFrom (placeAt inComment) line).1⟩ ∧
        codeLine.text ≠ []) ∨
        codeLine ∈ stripLines (stripFrom (placeAt inComment) line).2
          (number + 1) lines := by
  rw [stripLines_cons]
  split
  · next blank =>
      rw [List.isEmpty_iff] at blank
      constructor
      · exact .inr
      · rintro (⟨rfl, notBlank⟩ | later)
        · exact absurd blank notBlank
        · exact later
  · next notBlank =>
      rw [List.isEmpty_iff] at notBlank
      rw [List.mem_cons]
      constructor
      · rintro (rfl | later)
        · exact .inl ⟨rfl, notBlank⟩
        · exact .inr later
      · rintro (⟨same, _⟩ | later)
        · exact .inl same
        · exact .inr later

/-- A line of code is what is left of a line of the source, with its number,
unless nothing is left. -/
theorem mem_stripLines_iff :
    codeLine ∈ stripLines inComment number lines ↔
      ∃ before line after, lines = before ++ line :: after ∧
        codeLine.number = number + before.length ∧
        codeLine.text =
          trim (stripFrom (placeAt (opensAfter inComment before)) line).1 ∧
        codeLine.text ≠ [] := by
  induction lines generalizing inComment number with
  | nil => simp [stripLines]
  | cons first lines inductionHypothesis =>
      rw [mem_stripLines_cons, inductionHypothesis]
      constructor
      · rintro (⟨rfl, notBlank⟩ | ⟨before, line, after, rfl, isNumber, isText, notBlank⟩)
        · exact ⟨[], first, lines, rfl, rfl, rfl, notBlank⟩
        · refine ⟨first :: before, line, after, rfl, ?_, isText, notBlank⟩
          rw [isNumber, List.length_cons]
          omega
      · rintro ⟨before, line, after, whole, isNumber, isText, notBlank⟩
        cases before with
        | nil =>
            cases whole
            obtain ⟨foundNumber, foundText⟩ := codeLine
            cases isNumber
            cases isText
            exact .inl ⟨rfl, notBlank⟩
        | cons other before =>
            cases whole
            refine .inr ⟨before, line, after, rfl, ?_, isText, notBlank⟩
            rw [isNumber, List.length_cons]
            omega

/-- The lines of code of a source, each with its number and with what the
comments before it leave of it. -/
theorem mem_ofLines_iff :
    codeLine ∈ ofLines lines ↔
      ∃ before line after, lines = before ++ line :: after ∧
        codeLine.number = before.length + 1 ∧
          codeLine.text = codeAfter before line ∧
        codeLine.text ≠ [] := by
  rw [ofLines, mem_stripLines_iff]
  simp only [Nat.add_comm 1]
  rfl

/-- A line of code has no blanks around it. -/
theorem trim_of_mem_ofLines
    {text : Text}
    (member : { number := number, text := text } ∈ ofLines lines) :
    trim text = text := by
  obtain ⟨before, line, after, _, _, isText, _⟩ := mem_ofLines_iff.mp member
  rw [show text = codeAfter before line from isText, codeAfter, trim_trim]

theorem pairwise_stripLines :
    (stripLines inComment number lines).Pairwise fun first second =>
      first.number < second.number := by
  induction lines generalizing inComment number with
  | nil => exact .nil
  | cons line lines inductionHypothesis =>
      rw [stripLines_cons]
      split
      · exact inductionHypothesis
      · apply List.Pairwise.cons _ inductionHypothesis
        intro later member
        obtain ⟨before, _, _, _, isNumber, _⟩ := mem_stripLines_iff.mp member
        show number < later.number
        omega

theorem pairwise_ofLines (lines : List Text) :
    (ofLines lines).Pairwise fun first second => first.number < second.number :=
  pairwise_stripLines

end Lines

/-- A character outside literals that starts no comment. -/
theorem stripFrom_code_cons
    {character : Char} (notSlash : character ≠ '/') (rest : Text) :
    stripFrom .code (character :: rest) =
      let later :=
        stripFrom (if character = '"' then .string false else .code) rest
      (character :: later.1, later.2) := by
  rw [stripFrom]
  · rintro _ rfl
    exact absurd rfl notSlash
  · rintro _ rfl
    exact absurd rfl notSlash

theorem stripFrom_code_append
    {before : Text}
    (plain : ∀ character ∈ before, character ≠ '/' ∧ character ≠ '"')
    (rest : Text) :
    stripFrom .code (before ++ rest) =
      (before ++ (stripFrom .code rest).1, (stripFrom .code rest).2) := by
  induction before with
  | nil => rfl
  | cons character before inductionHypothesis =>
      obtain ⟨⟨notSlash, notQuote⟩, laterPlain⟩ := List.forall_mem_cons.mp plain
      rw [List.cons_append, stripFrom_code_cons notSlash]
      simp only [if_neg notQuote, inductionHypothesis laterPlain]
      rfl

/-- Nothing of a string literal is taken for a comment. -/
theorem stripFrom_literalBody
    {escaped : Bool} {inner : Text} (body : LiteralBody '"' escaped inner)
    (rest : Text) :
    stripFrom (.string escaped) (inner ++ '"' :: rest) =
      (inner ++ '"' :: (stripFrom .code rest).1, (stripFrom .code rest).2) := by
  induction body with
  | nil => rw [List.nil_append, stripFrom]; rfl
  | escaped _ inductionHypothesis =>
      rw [List.cons_append, stripFrom, inductionHypothesis]
      rfl
  | backslash _ inductionHypothesis =>
      rw [List.cons_append, stripFrom]
      simp only [if_true, inductionHypothesis]
      rfl
  | plain notBackslash notQuote _ inductionHypothesis =>
      rw [List.cons_append, stripFrom]
      simp only [if_neg notBackslash, if_neg notQuote, inductionHypothesis]
      rfl

/-- A string literal is not looked into for comments. -/
theorem stripFrom_enquote
    {body : Text} (isBody : LiteralBody '"' false body) (rest : Text) :
    stripFrom .code (enquote body ++ rest) =
      (enquote body ++ (stripFrom .code rest).1, (stripFrom .code rest).2) := by
  have notSlash : '"' ≠ '/' := by decide
  rw [enquote, List.cons_append, List.append_assoc,
    stripFrom_code_cons notSlash]
  simp only [if_true, List.singleton_append, stripFrom_literalBody isBody]
  simp

end CodeLine
end LineScript
