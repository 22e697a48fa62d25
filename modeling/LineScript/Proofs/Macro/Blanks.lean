import LineScript.Proofs.Macro.Remark

/-!
Blanks in the lines of a source, and what macro expansion makes of them.

A blank is a part of a line of its own.  So a blank behind a line stays behind
the expansion of the line, and a line with nothing but blanks, or with a remark
and blanks in front of it, is such a line after its expansion as well.
-/

namespace LineScript

open Text

/-- A line with nothing on it but blanks, and possibly a remark behind them. -/
inductive Silent : Text → Prop
  | nil : Silent []
  | blank {first : Char} {rest : Text} (blank : isBlank first)
      (later : Silent rest) :
      Silent (first :: rest)
  | remark (text : Text) : Silent ('/' :: '/' :: text)

namespace Text

variable {last : Char} (blank : isBlank last)

include blank

/-- A blank closes no literal. -/
theorem closeLiteral_concat_of_none
    {quote : Char} (isQuote : Quotes.isQuote quote) {text : Text}
    (stillOpen : closeLiteral quote false text = none) :
    closeLiteral quote false (text ++ [last]) = none := by
  have different : last ≠ quote := by
    rintro rfl
    rw [Quotes.isQuote_ne_of_blank blank] at isQuote
    cases isQuote
  obtain ⟨flag, goesOn⟩ := closeLiteral_append_of_none stillOpen [last]
  rw [goesOn, Option.map_eq_none_iff]
  cases flag with
  | true => rfl
  | false =>
      rw [closeLiteral, if_neg different]
      by_cases backslash : last = '\\'
      · rw [if_pos backslash]
        rfl
      · rw [if_neg backslash]
        rfl

/-- A blank closes no round bracket. -/
theorem closeParen_concat_of_none
    {text : Text} (stillOpen : closeParen text = none) :
    closeParen (text ++ [last]) = none := by
  rw [closeParen, closeParenFrom_eq_stop] at stillOpen ⊢
  apply Option.eq_none_iff_forall_ne_some.mpr
  rintro ⟨before, after⟩ closed
  obtain ⟨reached, character, whole, read, stops⟩ := Scan.exists_of_stop closed
  rcases List.eq_nil_or_concat after with rfl | ⟨shorter, ending, rfl⟩
  · cases List.append_inj_right' whole rfl
    rw [(roundStep_eq_none_iff.mp stops).1] at blank
    cases blank
  · rw [List.concat_eq_append, ← List.cons_append, ← List.append_assoc] at whole
    rw [List.append_inj_left' whole rfl,
      Scan.stop_append read stops] at stillOpen
    cases stillOpen

theorem trimStart_concat (text : Text) :
    trimStart (text ++ [last]) = if trimStart text =
      [] then [] else trimStart text ++ [last] := by
  induction text with
  | nil => exact trimStart_cons_of_blank blank []
  | cons character text inductionHypothesis =>
      rw [List.cons_append]
      by_cases blankHere : isBlank character
      · rw [trimStart_cons_of_blank blankHere,
          trimStart_cons_of_blank blankHere, inductionHypothesis]
      · rw [trimStart_cons_of_not_blank blankHere,
          trimStart_cons_of_not_blank blankHere, if_neg (List.cons_ne_nil _ _),
          List.cons_append]

end Text

namespace Macro

section Blanks

variable {last : Char} (blank : isBlank last)

include blank

theorem Lexeme.next_of_blank (numbers : Bool) (rest : Text) :
    next numbers last rest = (.other last, rest) := by
  have notName : ¬ isNameChar last :=
    fun named => not_isBlank_of_isNameChar named blank
  have notStart : ¬ isNameStart last :=
    fun starts => notName (isNameChar_of_isNameStart starts)
  have notDigit : ¬ (numbers && isDigit last) := by
    intro digit
    apply notName
    rw [isNameChar, (Bool.and_eq_true_iff.mp digit).2, Bool.or_true,
      Bool.true_or]
  have notQuote : ¬ Quotes.isQuote last :=
    Bool.eq_false_iff.mp (Quotes.isQuote_ne_of_blank blank)
  rw [next, if_neg notQuote, if_neg notDigit, if_neg notStart]

/-- Reading the next part of a line does not notice a blank behind the line,
unless the part is a literal that is still open at the end of the line: then the
blank is in the literal. -/
theorem Lexeme.next_concat
    {numbers : Bool} {character : Char} {rest after : Text} {lexeme : Lexeme}
    (scanned : next numbers character rest = (lexeme, after)) :
    next numbers character (rest ++ [last]) = (lexeme, after ++ [last]) ∨
      ∃ content, lexeme = .literal content ∧ after = [] ∧
        next numbers character (rest ++ [last]) =
          (.literal (content ++ [last]), []) := by
  have notName : ¬ isNameChar last :=
    fun named => not_isBlank_of_isNameChar named blank
  have notNumber : ¬ isNumberChar last := by
    intro number
    rcases Bool.or_eq_true_iff.mp number with named | isPoint
    · exact notName named
    · rw [beq_iff_eq.mp isPoint] at blank
      cases blank
  rw [next] at scanned ⊢
  by_cases isQuote : Quotes.isQuote character
  · rw [if_pos isQuote] at scanned ⊢
    cases isClosed : closeLiteral character false rest with
    | none =>
        have isOpen := closeLiteral_concat_of_none blank isQuote isClosed
        simp only [spanLiteral, isClosed] at scanned
        cases scanned
        refine .inr ⟨character :: rest, rfl, rfl, ?_⟩
        simp only [spanLiteral, isOpen]
        rfl
    | some found =>
        have closedToo := closeLiteral_append isQuote isClosed [last]
        simp only [spanLiteral, isClosed] at scanned
        cases scanned
        left
        simp only [spanLiteral, closedToo]
  · rw [if_neg isQuote] at scanned ⊢
    left
    by_cases isNumber : numbers && isDigit character
    · rw [if_pos isNumber] at scanned ⊢
      cases scanned
      rw [takeWhile_append_cons notNumber, dropWhile_append_cons notNumber]
    · rw [if_neg isNumber] at scanned ⊢
      by_cases starts : isNameStart character
      · rw [if_pos starts] at scanned ⊢
        cases scanned
        rw [takeWhile_append_cons notName, dropWhile_append_cons notName]
      · rw [if_neg starts] at scanned ⊢
        cases scanned
        rfl

theorem call?_concat (macros : Macros) (name after : Text) :
    call? macros name (after ++ [last]) =
      (call? macros name after).map fun call => (call.1, call.2 ++ [last]) := by
  rw [call?, call?, trimStart_concat blank]
  cases trimmed : trimStart after with
  | nil => rfl
  | cons first rest =>
      rw [if_neg (List.cons_ne_nil _ _), List.cons_append, List.head?_cons,
        List.head?_cons]
      by_cases opens : some first = some '('
      · rw [if_pos opens, if_pos opens, Option.map_map]
        rfl
      · rw [if_neg opens, if_neg opens]
        rfl

theorem callExpansion?_concat (definition : FunctionMacro) (fromParen : Text) :
    callExpansion? definition (fromParen ++ [last]) =
      (callExpansion? definition fromParen).map fun found =>
        (found.1, found.2 ++ [last]) := by
  rw [callExpansion?, callExpansion?]
  cases isClosed : closeParen fromParen with
  | none => rw [closeParen_concat_of_none blank isClosed]; rfl
  | some parts =>
      rw [closeParen_append isClosed [last]]
      dsimp only
      by_cases fits : (splitTopLevel ',' (parts.1.drop 1)).length =
        definition.parameters.length
      · rw [if_pos fits, if_pos fits]
        rfl
      · rw [if_neg fits, if_neg fits]
        rfl

theorem expansion?_concat (macros : Macros) (name after : Text) :
    expansion? macros name (after ++ [last]) =
      (expansion? macros name after).map fun found =>
        (found.1, found.2 ++ [last]) := by
  have calls := call?_concat blank macros name after
  cases isCall : call? macros name after with
  | none =>
      rw [isCall] at calls
      rw [expansion?_of_no_call isCall, expansion?_of_no_call calls,
        Option.map_map]
      rfl
  | some call =>
      rw [isCall] at calls
      rw [expansion?_of_call isCall, expansion?_of_call calls]
      exact callExpansion?_concat blank call.1 call.2

/-- One pass: a blank stays behind what is made of the line before it. -/
theorem expandOnce_concat (macros : Macros) (line : Text) :
    expandOnce macros (line ++ [last]) = expandOnce macros line ++ [last] := by
  fun_induction expandOnce macros line with
  | case1 =>
      rw [List.nil_append,
        expandOnce_of_other (Lexeme.next_of_blank blank true []) (by simp),
        expandOnce]
      rfl
  | case2 character rest name after scanned expansion remaining found
      inductionHypothesis =>
      have foundToo := expansion?_concat blank macros name after
      rw [found] at foundToo
      rcases Lexeme.next_concat blank scanned
        with scannedToo | ⟨content, isLiteral, _⟩
      · rw [List.cons_append, expandOnce_of_expansion scannedToo foundToo,
          inductionHypothesis, List.append_assoc]
      · cases isLiteral
  | case3 character rest name after scanned refused inductionHypothesis =>
      have refusedToo := expansion?_concat blank macros name after
      rw [refused] at refusedToo
      rcases Lexeme.next_concat blank scanned
        with scannedToo | ⟨content, isLiteral, _⟩
      · rw [List.cons_append, expandOnce_of_word scannedToo refusedToo,
          inductionHypothesis, List.append_assoc]
      · cases isLiteral
  | case4 character rest lexeme after notWord scanned inductionHypothesis =>
      rcases Lexeme.next_concat blank scanned with
        scannedToo | ⟨content, rfl, rfl, scannedToo⟩
      · rw [List.cons_append, expandOnce_of_other scannedToo notWord,
          inductionHypothesis, List.append_assoc]
      · rw [List.cons_append, expandOnce_of_other scannedToo (by simp),
          expandOnce, List.append_nil, List.append_nil]
        rfl

/-- A blank behind a line stays there, whatever the passes do before it. -/
theorem expandPasses_concat (macros : Macros) (passes : Nat) (line : Text) :
    expandPasses macros passes (line ++ [last]) =
      expandPasses macros passes line ++ [last] := by
  induction passes generalizing line with
  | zero => rfl
  | succ passes inductionHypothesis =>
      rw [expandPasses_succ, expandPasses_succ, expandOnce_concat blank,
        inductionHypothesis]

end Blanks

end Macro

namespace Silent

open Macro

variable {line : Text}

theorem expandOnce (silent : Silent line) (macros : Macros) :
    Silent (Macro.expandOnce macros line) := by
  induction silent with
  | nil =>
      rw [Macro.expandOnce]
      exact .nil
  | blank blank _ inductionHypothesis =>
      rw [expandOnce_of_other (Lexeme.next_of_blank blank true _) (by simp)]
      exact .blank blank inductionHypothesis
  | remark text =>
      have slash : ∀ rest, Macro.expandOnce macros ('/' :: rest) =
          '/' :: Macro.expandOnce macros rest := fun rest =>
        expandOnce_of_other
          (show Lexeme.next true '/' rest = (.other '/', rest) from rfl)
            (by simp)
      rw [slash, slash]
      exact .remark _

theorem expandPasses (silent : Silent line) (macros : Macros) (passes : Nat) :
    Silent (Macro.expandPasses macros passes line) := by
  induction passes generalizing line with
  | zero => exact silent
  | succ passes inductionHypothesis =>
      rw [expandPasses_succ]
      exact inductionHypothesis (silent.expandOnce macros)

theorem read?_eq_none (silent : Silent line) :
    Directive.read? (trim line) = none := by
  induction silent with
  | nil => rfl
  | blank blank _ inductionHypothesis =>
      rw [trim, trimStart_cons_of_blank blank, ← trim]
      exact inductionHypothesis
  | remark text =>
      have notBlank : ¬ isBlank '/' := by decide
      rw [trim, trimStart_cons_of_not_blank notBlank,
        show '/' :: '/' :: text = ['/'] ++ '/' :: text from rfl,
        trimEnd_append_of_not_blank _ notBlank]
      rfl

theorem of_concat
    {last : Char} (blank : isBlank last) (silent : Silent (line ++ [last])) :
    Silent line := by
  induction line with
  | nil => exact .nil
  | cons first rest inductionHypothesis =>
      rw [List.cons_append] at silent
      generalize isRest : rest ++ [last] = whole at silent inductionHypothesis
      cases silent with
      | blank blankFirst later =>
          exact .blank blankFirst (inductionHypothesis later)
      | remark text =>
          cases rest with
          | nil =>
              cases isRest
              cases blank
          | cons second rest =>
              cases isRest
              exact .remark rest

theorem dropCarriageReturn (silent : Silent line) :
    Silent (Text.dropCarriageReturn line) := by
  rw [Text.dropCarriageReturn]
  cases dropped : dropEnd? ['\r'] line with
  | none => exact silent
  | some before =>
      rw [eq_append_of_dropEnd? dropped] at silent
      exact of_concat rfl silent

end Silent
end LineScript
