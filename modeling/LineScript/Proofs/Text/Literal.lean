import LineScript.Proofs.Text.Pieces
import LineScript.Text.Escapes

/-!
String literals: what encloses one, and how to write any text as one.

Every reading of a text that keeps track of literals passes over a literal in
one go and stands afterwards where it stood before.
-/

namespace LineScript

namespace Text

/-- The text can stand before the closing quote of a literal, just after a
backslash if `escaped`. -/
inductive LiteralBody (quote : Char) : (escaped : Bool) → Text → Prop
  | nil : LiteralBody quote false []
  | escaped {character : Char} {rest : Text}
      (later : LiteralBody quote false rest) :
      LiteralBody quote true (character :: rest)
  | backslash {rest : Text} (later : LiteralBody quote true rest) :
      LiteralBody quote false ('\\' :: rest)
  | plain {character : Char} {rest : Text} (notBackslash : character ≠ '\\')
      (notQuote : character ≠ quote) (later : LiteralBody quote false rest) :
      LiteralBody quote false (character :: rest)

theorem literalBody_of_closeLiteral
    {quote : Char} {escaped : Bool} {text inner after : Text}
    (closed : closeLiteral quote escaped text = some (inner, after)) :
    LiteralBody quote escaped inner ∧ text = inner ++ quote :: after := by
  induction text generalizing escaped inner with
  | nil => cases closed
  | cons character rest inductionHypothesis =>
      -- Where the scan goes on, so does the text between the quotes.
      have later : ∀ {flag : Bool},
          (closeLiteral quote flag rest).map
              (fun found => (character :: found.1, found.2)) =
                some (inner, after) →
            ∃ within, inner = character :: within ∧
              LiteralBody quote flag within ∧
              character :: rest = inner ++ quote :: after := by
        intro flag mapped
        obtain ⟨⟨within, beyond⟩, closedRest, same⟩ :=
          Option.map_eq_some_iff.mp mapped
        cases same
        obtain ⟨body, whole⟩ := inductionHypothesis closedRest
        exact ⟨within, rfl, body, by rw [whole, List.cons_append]⟩
      cases escaped with
      | true =>
          obtain ⟨within, rfl, body, whole⟩ := later closed
          exact ⟨.escaped body, whole⟩
      | false =>
          rw [closeLiteral] at closed
          split at closed
          · next isBackslash =>
              obtain ⟨within, rfl, body, whole⟩ := later closed
              rw [isBackslash] at whole ⊢
              exact ⟨.backslash body, whole⟩
          · next notBackslash =>
              split at closed
              · next same =>
                  cases closed
                  rw [same]
                  exact ⟨.nil, rfl⟩
              · next notQuote =>
                  obtain ⟨within, rfl, body, whole⟩ := later closed
                  exact ⟨.plain notBackslash notQuote body, whole⟩

theorem LiteralBody.closeLiteral_eq
    {quote : Char} {escaped : Bool} {inner : Text} (notEscape : quote ≠ '\\')
    (body : LiteralBody quote escaped inner) (after : Text) :
    closeLiteral quote escaped (inner ++ quote :: after) =
      some (inner, after) := by
  induction body with
  | nil => rw [List.nil_append, closeLiteral, if_neg notEscape, if_pos rfl]
  | escaped _ inductionHypothesis =>
      rw [List.cons_append, closeLiteral, inductionHypothesis]
      rfl
  | backslash _ inductionHypothesis =>
      rw [List.cons_append, closeLiteral, if_pos rfl, inductionHypothesis]
      rfl
  | plain notBackslash notQuote _ inductionHypothesis =>
      rw [List.cons_append, closeLiteral, if_neg notBackslash, if_neg notQuote,
        inductionHypothesis]
      rfl

def enquote (body : Text) : Text :=
  '"' :: (body ++ ['"'])

theorem holdsWhole_iff {quote : Char} {escaped : Bool} {text : Text} :
    holdsWhole quote escaped text ↔ LiteralBody quote escaped text := by
  constructor
  · intro whole
    fun_induction holdsWhole quote escaped text with
    | case1 escaped =>
        cases escaped with
        | true => cases whole
        | false => exact .nil
    | case2 _ _ inductionHypothesis =>
        exact .escaped (inductionHypothesis whole)
    | case3 _ inductionHypothesis =>
        exact .backslash (inductionHypothesis whole)
    | case4 => cases whole
    | case5 _ _ notBackslash notQuote inductionHypothesis =>
        exact .plain notBackslash notQuote (inductionHypothesis whole)
  · intro body
    induction body with
    | nil => rfl
    | escaped _ inductionHypothesis => exact inductionHypothesis
    | backslash _ inductionHypothesis =>
        rw [holdsWhole, if_pos rfl]
        exact inductionHypothesis
    | plain notBackslash notQuote _ inductionHypothesis =>
        rw [holdsWhole, if_neg notBackslash, if_neg notQuote]
        exact inductionHypothesis

/-- A text is read as a string literal exactly if it is one, with the text
between its quotes. -/
theorem stringLiteral?_eq_some_iff {literal body : Text} :
    stringLiteral? literal = some body ↔
      LiteralBody '"' false body ∧ literal = enquote body := by
  rw [stringLiteral?, Option.filter_eq_some_iff, holdsWhole_iff,
    Option.bind_eq_some_iff]
  constructor
  · rintro ⟨⟨rest, opens, closes⟩, isBody⟩
    refine ⟨isBody, ?_⟩
    rw [eq_append_of_dropStart? opens, eq_append_of_dropEnd? closes]
    rfl
  · rintro ⟨isBody, rfl⟩
    exact ⟨⟨body ++ ['"'], dropStart?_append ['"'] _, dropEnd?_append ['"'] body⟩, isBody⟩

theorem trim_enquote (body : Text) : trim (enquote body) = enquote body := by
  apply trim_of_tight
  · exact trimStart_cons_of_not_blank (by decide) _
  · exact tight_concat ('"' :: body) (by decide)

end Text

namespace Scan

/-- A character of a literal changes nothing but the place in the literal. -/
def PassesLiterals (scan : Scan) : Prop :=
  ∀ nesting character, nesting.quotes.covers character →
    scan.step nesting character =
      some { nesting with quotes := nesting.quotes.next character }

variable {scan : Scan} (passes : scan.PassesLiterals)

include passes

/-- A literal is left at the depth at which it was entered. -/
theorem run_literalBody
    {quote : Char} {escaped : Bool} {inner : Text} (notBackslash : quote ≠ '\\')
    (body : Text.LiteralBody quote escaped inner) (depth : Nat) :
    scan.run ⟨.inside quote escaped, depth⟩ (inner ++ [quote]) =
      some ⟨.outside, depth⟩ := by
  induction body with
  | nil =>
      have stepped := passes ⟨.inside quote false, depth⟩ quote rfl
      simp only [Quotes.next, if_neg notBackslash, if_true] at stepped
      rw [List.nil_append, run_cons_of_step stepped, run_nil]
  | @escaped character rest _ inductionHypothesis =>
      have stepped := passes ⟨.inside quote true, depth⟩ character rfl
      rw [List.cons_append, run_cons_of_step stepped]
      exact inductionHypothesis
  | @backslash rest _ inductionHypothesis =>
      have stepped := passes ⟨.inside quote false, depth⟩ '\\' rfl
      rw [List.cons_append, run_cons_of_step stepped]
      exact inductionHypothesis
  | @plain character rest plain notQuote _ inductionHypothesis =>
      have stepped := passes ⟨.inside quote false, depth⟩ character rfl
      simp only [Quotes.next, if_neg plain, if_neg notQuote] at stepped
      rw [List.cons_append, run_cons_of_step stepped]
      exact inductionHypothesis

theorem run_enquote
    {body : Text} (isBody : Text.LiteralBody '"' false body) (depth : Nat) :
    scan.run ⟨.outside, depth⟩ (Text.enquote body) =
      some ⟨.outside, depth⟩ := by
  have opened := passes ⟨.outside, depth⟩ '"' rfl
  rw [Text.enquote, run_cons_of_step opened]
  exact run_literalBody passes (by decide) isBody depth

end Scan

theorem Separator.passesLiterals (separator : Separator) :
    separator.scan.PassesLiterals := by
  intro nesting character covered
  have hidden :
      nesting.exposes character = false := by simp [Nesting.exposes, covered]
  simp [scan, hidden, Nesting.next, covered]

namespace Text

theorem roundScan_passesLiterals : roundScan.PassesLiterals := by
  intro nesting character covered
  exact if_pos covered

/-- A string literal can be the only argument of a call. -/
theorem listable_enquote {body : Text} (isBody : LiteralBody '"' false body) :
    Listable [enquote body] := by
  have trimmed := trim_enquote body
  have nonempty : trim (enquote body) ≠ [] := by
    rw [trimmed]
    exact List.cons_ne_nil _ _
  have atRoundBracket := Scan.run_enquote roundScan_passesLiterals isBody 1
  have atComma := Scan.run_enquote Separator.comma.passesLiterals isBody 0
  constructor
  · rw [commaList_singleton]
    exact ⟨⟨.outside, 1⟩, atRoundBracket, rfl⟩
  · have single : topLevelPieces ',' .start (enquote body) = [enquote body] :=
      Separator.pieces_of_run atComma
    rw [commaList_singleton, splitTopLevel_of_trim_ne_nil nonempty, single,
      List.map_singleton, trimmed]

def escapeChar (character : Char) : Text :=
  if character = '\\' then ['\\', '\\']
  else if character = '"' then ['\\', '"']
  else if character = '\n' then ['\\', 'n']
  else if character = '\r' then ['\\', 'r']
  else [character]

def escape (text : Text) : Text :=
  text.flatMap escapeChar

/-- A character is written as itself, or as a backslash and one more character
that the backslash turns into it. -/
theorem escapeChar_cases (character : Char) :
    (∃ letter, escapeChar character = ['\\', letter] ∧
      escaped? letter = some character ∧
        letter ≠ '\n') ∨
      (escapeChar character = [character] ∧ character ≠ '\\' ∧ character ≠ '"' ∧
        character ≠ '\n') := by
  rw [escapeChar]
  split
  · next backslash => exact .inl ⟨'\\', rfl, by rw [backslash]; rfl, by decide⟩
  · next notBackslash =>
      split
      · next quote => exact .inl ⟨'"', rfl, by rw [quote]; rfl, by decide⟩
      · next notQuote =>
          split
          · next feed => exact .inl ⟨'n', rfl, by rw [feed]; rfl, by decide⟩
          · next notFeed =>
              split
              · next carriage =>
                  exact .inl ⟨'r', rfl, by rw [carriage]; rfl, by decide⟩
              · exact .inr ⟨rfl, notBackslash, notQuote, notFeed⟩

theorem escape_cons (character : Char) (rest : Text) :
    escape (character :: rest) = escapeChar character ++ escape rest :=
  List.flatMap_cons

theorem unescape_cons_of_ne
    {character : Char} (notBackslash : character ≠ '\\') (rest : Text) :
    unescape (character :: rest) = character :: unescape rest := by
  rw [unescape]
  rintro letter later backslash
  exact absurd backslash notBackslash

/-- Escaping can be undone. -/
theorem unescape_escape (text : Text) : unescape (escape text) = text := by
  induction text with
  | nil => rfl
  | cons character rest inductionHypothesis =>
      rw [escape_cons]
      rcases escapeChar_cases character
        with ⟨letter, spelled, meant, _⟩ | ⟨spelled, plain, _⟩
      · rw [spelled, List.cons_append, List.singleton_append, unescape, meant]
        exact congrArg _ inductionHypothesis
      · rw [spelled, List.singleton_append, unescape_cons_of_ne plain,
          inductionHypothesis]

/-- An escaped text can stand between the quotes of a string literal. -/
theorem literalBody_escape (text : Text) :
    LiteralBody '"' false (escape text) := by
  induction text with
  | nil => exact .nil
  | cons character rest inductionHypothesis =>
      rw [escape_cons]
      rcases escapeChar_cases character
        with ⟨letter, spelled, _⟩ | ⟨spelled, plain, noQuote, _⟩
      · rw [spelled]
        exact .backslash (.escaped inductionHypothesis)
      · rw [spelled]
        exact .plain plain noQuote inductionHypothesis

/-- A text written as a literal has no line feeds. -/
theorem not_mem_escape (text : Text) : '\n' ∉ escape text := by
  intro member
  obtain ⟨character, _, spells⟩ := List.mem_flatMap.mp member
  rcases escapeChar_cases character
    with ⟨letter, spelled, _, noFeed⟩ | ⟨spelled, _, _, noFeed⟩
  · rw [spelled] at spells
    simp only [List.mem_cons, List.not_mem_nil, or_false] at spells
    rcases spells with impossible | isLetter
    · exact absurd impossible (by decide)
    · exact noFeed isLetter.symm
  · rw [spelled] at spells
    exact noFeed (List.mem_singleton.mp spells).symm

end Text
end LineScript
