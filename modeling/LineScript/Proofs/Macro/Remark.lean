import LineScript.Proofs.Macro.Expansion

/-!
Lines with a remark behind them, and what macro expansion makes of them.

Macros are expanded before comments are removed.  So a remark behind a directive
is a part of it, and a macro call that is still open at the end of a line takes
in what stands in the remark.  A line without either keeps its expansion in
front of the remark.
-/

namespace LineScript

open Text

def remarked (line remark : Text) : Text :=
  line ++ ' ' :: '/' :: '/' :: remark

theorem append_remarked (before line remark : Text) :
    before ++ remarked line remark = remarked (before ++ line) remark :=
  (List.append_assoc _ _ _).symm

theorem cons_remarked (character : Char) (line remark : Text) :
    character :: remarked line remark = remarked (character :: line) remark :=
  rfl

namespace Text

theorem ne_backslash_of_isQuote
    {quote : Char} (isQuote : Quotes.isQuote quote) :
    quote ≠ '\\' := by
  rintro rfl
  cases isQuote

/-- A literal that closes on the line closes there whatever follows. -/
theorem closeLiteral_append
    {quote : Char} (isQuote : Quotes.isQuote quote) {text inner after : Text}
    (closed : closeLiteral quote false text = some (inner, after))
    (rest : Text) :
    closeLiteral quote false (text ++ rest) = some (inner, after ++ rest) := by
  obtain ⟨isBody, whole⟩ := literalBody_of_closeLiteral closed
  rw [whole, List.append_assoc, List.cons_append]
  exact isBody.closeLiteral_eq (ne_backslash_of_isQuote isQuote) (after ++ rest)

/-- A literal that is still open goes on in what follows. -/
theorem closeLiteral_append_of_none
    {quote : Char} {escaped : Bool} {text : Text}
    (stillOpen : closeLiteral quote escaped text = none) (rest : Text) :
    ∃ flag, closeLiteral quote escaped (text ++ rest) =
      (closeLiteral quote flag rest).map fun found =>
        (text ++ found.1, found.2) := by
  induction text generalizing escaped with
  | nil =>
      refine ⟨escaped, ?_⟩
      exact (congrFun Option.map_id (closeLiteral quote escaped rest)).symm
  | cons character text inductionHypothesis =>
      have later : ∀ {flag : Bool}, closeLiteral quote flag text = none →
          ∃ reached, (closeLiteral quote flag (text ++ rest)).map
              (fun found => (character :: found.1, found.2)) =
            (closeLiteral quote reached rest).map
              fun found => (character :: text ++ found.1, found.2) := by
        intro flag openText
        obtain ⟨reached, isReached⟩ := inductionHypothesis openText
        refine ⟨reached, ?_⟩
        rw [isReached, Option.map_map]
        rfl
      cases escaped with
      | true => exact later (Option.map_eq_none_iff.mp stillOpen)
      | false =>
          rw [closeLiteral] at stillOpen
          rw [List.cons_append, closeLiteral]
          split
          · next backslash =>
              rw [if_pos backslash] at stillOpen
              exact later (Option.map_eq_none_iff.mp stillOpen)
          · next notBackslash =>
              rw [if_neg notBackslash] at stillOpen
              split
              · next isQuote =>
                  rw [if_pos isQuote] at stillOpen
                  cases stillOpen
              · next notQuote =>
                  rw [if_neg notQuote] at stillOpen
                  exact later (Option.map_eq_none_iff.mp stillOpen)

/-- A literal that is still open at the end of a line takes in the start of a
remark. -/
theorem spanLiteral_remarked_of_open
    {quote : Char} (isQuote : Quotes.isQuote quote) {text : Text}
    (stillOpen : closeLiteral quote false text = none) (remark : Text) :
    ∃ taken left, spanLiteral quote (remarked text remark) =
      (remarked (quote :: text) taken, left) := by
  have notBackslash := ne_backslash_of_isQuote isQuote
  have notBlank : ' ' ≠ quote := by
    rintro rfl
    cases isQuote
  have notSlash : '/' ≠ quote := by
    rintro rfl
    cases isQuote
  obtain ⟨flag, goesOn⟩ :=
    closeLiteral_append_of_none stillOpen (' ' :: '/' :: '/' :: remark)
  -- Neither the blank nor the slashes end a literal, escaped or not.
  have opener : closeLiteral quote flag (' ' :: '/' :: '/' :: remark) =
      (closeLiteral quote false remark).map fun found =>
        (' ' :: '/' :: '/' :: found.1, found.2) := by
    have blank : ' ' ≠ '\\' := by decide
    have slash : '/' ≠ '\\' := by decide
    cases flag <;>
      simp only [closeLiteral, if_neg blank, if_neg slash, if_neg notBlank,
        if_neg notSlash, Option.map_map] <;>
      rfl
  rw [spanLiteral, remarked, goesOn, opener]
  cases closeLiteral quote false remark with
  | none => exact ⟨remark, [], rfl⟩
  | some found =>
      refine ⟨found.1 ++ [quote], found.2, ?_⟩
      simp [remarked]

theorem closeParen_append
    {text before after : Text} (closed : closeParen text = some (before, after))
    (rest : Text) :
    closeParen (text ++ rest) = some (before, after ++ rest) := by
  rw [closeParen, closeParenFrom_eq_stop] at closed ⊢
  obtain ⟨reached, character, whole, read, stops⟩ := Scan.exists_of_stop closed
  rw [whole, List.append_assoc, List.cons_append]
  exact Scan.stop_append read stops (after ++ rest)

end Text

namespace Macro

/-- Reading the next part of a line does not notice a remark behind the line,
unless the part is a literal that is still open at the end of the line. -/
theorem Lexeme.next_remarked
    {numbers : Bool} {character : Char} {rest after : Text} {lexeme : Lexeme}
    (closed : Quotes.isQuote character → closeLiteral character false rest ≠ none)
    (scanned : next numbers character rest = (lexeme, after)) (remark : Text) :
    next numbers character (remarked rest remark) =
      (lexeme, remarked after remark) := by
  rw [next] at scanned ⊢
  split
  · next isQuote =>
      obtain ⟨⟨inner, beyond⟩, isClosed⟩ :=
        Option.ne_none_iff_exists'.mp (closed isQuote)
      have closedToo :=
        closeLiteral_append isQuote isClosed (' ' :: '/' :: '/' :: remark)
      simp only [if_pos isQuote, spanLiteral, isClosed] at scanned
      cases scanned
      simp only [spanLiteral, remarked, closedToo]
  · next notQuote =>
      rw [if_neg notQuote] at scanned
      split
      · next isNumber =>
          have blankOutside : ¬ isNumberChar ' ' := by decide
          rw [if_pos isNumber] at scanned
          cases scanned
          rw [remarked, takeWhile_append_cons blankOutside,
            dropWhile_append_cons blankOutside]
          rfl
      · next notNumber =>
          rw [if_neg notNumber] at scanned
          split
          · next starts =>
              have blankOutside : ¬ isNameChar ' ' := by decide
              rw [if_pos starts] at scanned
              cases scanned
              rw [remarked, takeWhile_append_cons blankOutside,
                dropWhile_append_cons blankOutside]
              rfl
          · next notName =>
              rw [if_neg notName] at scanned
              cases scanned
              rfl

theorem trimStart_remarked (line remark : Text) :
    (trimStart line = [] ∧
      trimStart (remarked line remark) = '/' :: '/' :: remark) ∨
      ∃ first rest, trimStart line = first :: rest ∧
        trimStart (remarked line remark) = first :: remarked rest remark := by
  induction line with
  | nil => exact .inl ⟨rfl, rfl⟩
  | cons character line inductionHypothesis =>
      by_cases blank : isBlank character
      · rw [← cons_remarked, trimStart_cons_of_blank blank,
          trimStart_cons_of_blank blank]
        exact inductionHypothesis
      · rw [← cons_remarked, trimStart_cons_of_not_blank blank,
          trimStart_cons_of_not_blank blank]
        exact .inr ⟨character, line, rfl, rfl⟩

/-- The macro with parameters that a name calls, and the text from the bracket
of the call on. -/
def call? (macros : Macros) (name after : Text) :
    Option (FunctionMacro × Text) :=
  if (trimStart after).head? = some '(' then
    (macros.functions.get? name).map fun definition =>
    (definition, trimStart after)
  else
    none

theorem expansion?_of_call
    {macros : Macros} {name after fromParen : Text} {definition : FunctionMacro}
    (isCall : call? macros name after = some (definition, fromParen)) :
    expansion? macros name after = callExpansion? definition fromParen := by
  rw [call?] at isCall
  split at isCall
  · next opens =>
      obtain ⟨found, defined, same⟩ := Option.map_eq_some_iff.mp isCall
      cases same
      obtain ⟨rest, isText⟩ := List.head?_eq_some_iff.mp opens
      rw [isText, expansion?, defined, isText]
      rfl
  · cases isCall

theorem expansion?_of_no_call
    {macros : Macros} {name after : Text}
    (noCall : call? macros name after = none) :
    expansion? macros name after =
      (macros.objects.get? name).map fun value => (value, after) := by
  rw [expansion?]
  split
  · next definition rest defined isText =>
      simp [call?, defined, isText] at noCall
  · rfl

theorem expansion?_of_noFunctions
    {macros : Macros} (noFunctions : macros.functions = [])
    (name after : Text) :
    expansion? macros name after =
      (macros.objects.get? name).map fun value => (value, after) := by
  apply expansion?_of_no_call
  rw [call?, noFunctions]
  split
  · rfl
  · rfl

theorem call?_remarked (macros : Macros) (name after remark : Text) :
    call? macros name (remarked after remark) =
      (call? macros name after).map fun call =>
        (call.1, remarked call.2 remark) := by
  rw [call?, call?]
  rcases trimStart_remarked after remark
    with ⟨isBlank, slashes⟩ | ⟨first, rest, isText, same⟩
  · rw [isBlank, slashes]
    rfl
  · rw [isText, same, List.head?_cons, List.head?_cons]
    split
    · rw [Option.map_map]
      rfl
    · rfl

/-- The name is followed by a call of a macro that is not closed on the line. -/
def leavesOpen (macros : Macros) (name after : Text) : Bool :=
  (call? macros name after).any fun call => (closeParen call.2).isNone

theorem callExpansion?_remarked
    {fromParen : Text} (closed : closeParen fromParen ≠ none)
    (definition : FunctionMacro) (remark : Text) :
    callExpansion? definition (remarked fromParen remark) =
      (callExpansion? definition fromParen).map fun found =>
        (found.1, remarked found.2 remark) := by
  obtain ⟨⟨opened, after⟩, isClosed⟩ := Option.ne_none_iff_exists'.mp closed
  have closedToo := closeParen_append isClosed (' ' :: '/' :: '/' :: remark)
  simp only [callExpansion?, remarked, isClosed, closedToo]
  split
  · rfl
  · rfl

/-- A remark stays behind an expansion unless a call is left open on the
line. -/
theorem expansion?_remarked
    {macros : Macros} {name after : Text}
    (closed : leavesOpen macros name after = false) (remark : Text) :
    expansion? macros name (remarked after remark) =
      (expansion? macros name after).map fun found =>
        (found.1, remarked found.2 remark) := by
  have commented := call?_remarked macros name after remark
  cases isCall : call? macros name after with
  | none =>
      rw [isCall] at commented
      rw [expansion?_of_no_call isCall, expansion?_of_no_call commented,
        Option.map_map]
      rfl
  | some call =>
      rw [isCall] at commented
      rw [leavesOpen, isCall] at closed
      rw [expansion?_of_call isCall, expansion?_of_call commented]
      have isClosed : (closeParen call.2).isSome := by simpa using closed
      exact callExpansion?_remarked
        (Option.isSome_iff_ne_none.mp isClosed) call.1 remark

/-! ## Passes -/

/-- Whether a pass over a line comes to no macro call that is still open at its
end. -/
def callsClose (macros : Macros) : Text → Bool
  | [] => true
  | character :: rest =>
      match _scanned : Lexeme.next true character rest with
      | (.word name, after) =>
          match _found : expansion? macros name after with
          | some (_, remaining) => callsClose macros remaining
          | none => !leavesOpen macros name after && callsClose macros after
      | (_, after) => callsClose macros after
termination_by line => line.length
decreasing_by
  all_goals
    have shorter := Lexeme.length_next_le true character rest
    rw [_scanned] at shorter
    dsimp only at shorter
    simp only [List.length_cons]
  · have further := length_of_expansion? _found
    omega
  · omega
  · omega

section Pass

variable {macros : Macros} {character : Char} {rest name after : Text}

theorem expandOnce_of_expansion
    {expansion remaining : Text}
    (scanned : Lexeme.next true character rest = (.word name, after))
    (found : expansion? macros name after = some (expansion, remaining)) :
    expandOnce macros (character :: rest) =
      expansion ++ expandOnce macros remaining := by
  rw [expandOnce]
  split
  · next scannedToo =>
      cases scanned.symm.trans scannedToo
      split
      · next foundToo =>
          cases found.symm.trans foundToo
          rfl
      · next refused => cases found.symm.trans refused
  · next notWord scannedToo =>
      cases scanned.symm.trans scannedToo
      exact absurd rfl (notWord name)

theorem expandOnce_of_word
    (scanned : Lexeme.next true character rest = (.word name, after))
    (refused : expansion? macros name after = none) :
    expandOnce macros (character :: rest) =
      name ++ expandOnce macros after := by
  rw [expandOnce]
  split
  · next scannedToo =>
      cases scanned.symm.trans scannedToo
      split
      · next found => cases refused.symm.trans found
      · rfl
  · next notWord scannedToo =>
      cases scanned.symm.trans scannedToo
      exact absurd rfl (notWord name)

theorem expandOnce_of_other
    {lexeme : Lexeme}
    (scanned : Lexeme.next true character rest = (lexeme, after))
    (notWord : ∀ name, lexeme ≠ .word name) :
    expandOnce macros (character :: rest) =
      lexeme.text ++ expandOnce macros after := by
  rw [expandOnce]
  split
  · next scannedToo =>
      cases scanned.symm.trans scannedToo
      exact absurd rfl (notWord _)
  · next scannedToo =>
      cases scanned.symm.trans scannedToo
      rfl

end Pass

theorem not_isQuote_of_word
    {numbers : Bool} {character : Char} {rest name after : Text}
    (scanned : Lexeme.next numbers character rest = (.word name, after)) :
    ¬ Quotes.isQuote character := by
  intro isQuote
  rw [Lexeme.next, if_pos isQuote] at scanned
  cases scanned

theorem leavesOpen_of_expansion
    {macros : Macros} {name after : Text} {found : Text × Text}
    (isFound : expansion? macros name after = some found) :
    leavesOpen macros name after = false := by
  rw [leavesOpen]
  cases isCall : call? macros name after with
  | none => rfl
  | some call =>
      rw [expansion?_of_call isCall, callExpansion?] at isFound
      cases isClosed : closeParen call.2 with
      | none =>
          rw [isClosed] at isFound
          cases isFound
      | some ends => simp [isClosed]

/-- A literal that is open to the end of the line is copied, and a remark behind
it as well. -/
theorem expandOnce_remarked_of_open
    {macros : Macros} {quote : Char} (isQuote : Quotes.isQuote quote)
    {text : Text}
    (stillOpen : closeLiteral quote false text = none) (remark : Text) :
    ∃ left, expandOnce macros (remarked (quote :: text) remark) =
      remarked (expandOnce macros (quote :: text)) left := by
  obtain ⟨taken, beyond, spanned⟩ :=
    spanLiteral_remarked_of_open isQuote stillOpen remark
  have scanned :
      Lexeme.next true quote text = (.literal (quote :: text), []) := by
    simp only [Lexeme.next, if_pos isQuote, spanLiteral, stillOpen]
  have scannedToo : Lexeme.next true quote (remarked text remark) =
      (.literal (remarked (quote :: text) taken), beyond) := by
    simp only [Lexeme.next, if_pos isQuote, spanned]
  have notWord : ∀ literal name, Lexeme.literal literal ≠ .word name := by simp
  refine ⟨taken ++ expandOnce macros beyond, ?_⟩
  rw [← cons_remarked, expandOnce_of_other scannedToo (notWord _),
    expandOnce_of_other scanned (notWord _), expandOnce, List.append_nil]
  simp only [Lexeme.text, remarked, List.append_assoc, List.cons_append]

/-- One pass: a remark stays behind what is made of the line before it. -/
theorem expandOnce_remarked
    {macros : Macros} {line : Text} (closed : callsClose macros line)
    (remark : Text) :
    ∃ left, expandOnce macros (remarked line remark) =
      remarked (expandOnce macros line) left := by
  fun_induction callsClose macros line with
  | case1 =>
      have single : ∀ {character : Char} (rest : Text),
          (∀ after, Lexeme.next true character after =
            (.other character, after)) →
            expandOnce macros (character :: rest) =
              character :: expandOnce macros rest :=
        fun rest scanned => expandOnce_of_other (scanned rest) (by simp)
      refine ⟨expandOnce macros remark, ?_⟩
      rw [expandOnce, remarked, List.nil_append, single _ fun _ => rfl,
        single _ fun _ => rfl, single _ fun _ => rfl]
      rfl
  | case2 character rest name after scanned expansion remaining found
      inductionHypothesis =>
      have notQuote := not_isQuote_of_word scanned
      have scannedToo := Lexeme.next_remarked (absurd · notQuote) scanned remark
      have foundToo :=
        expansion?_remarked (leavesOpen_of_expansion found) remark
      rw [found] at foundToo
      obtain ⟨left, isLeft⟩ := inductionHypothesis closed
      refine ⟨left, ?_⟩
      rw [← cons_remarked, expandOnce_of_expansion scannedToo foundToo,
        expandOnce_of_expansion scanned found, isLeft, append_remarked]
  | case3 character rest name after scanned refused inductionHypothesis =>
      obtain ⟨callCloses, laterClose⟩ := Bool.and_eq_true_iff.mp closed
      have notQuote := not_isQuote_of_word scanned
      have scannedToo := Lexeme.next_remarked (absurd · notQuote) scanned remark
      have refusedToo :=
        expansion?_remarked ((Bool.not_eq_true' _).mp callCloses) remark
      rw [refused] at refusedToo
      obtain ⟨left, isLeft⟩ := inductionHypothesis laterClose
      refine ⟨left, ?_⟩
      rw [← cons_remarked, expandOnce_of_word scannedToo refusedToo,
        expandOnce_of_word scanned refused, isLeft, append_remarked]
  | case4 character rest lexeme after notWord scanned inductionHypothesis =>
      by_cases stillOpen : Quotes.isQuote character ∧
        closeLiteral character false rest = none
      · exact expandOnce_remarked_of_open stillOpen.1 stillOpen.2 remark
      · have scannedToo := Lexeme.next_remarked
          (fun isQuote isOpen => stillOpen ⟨isQuote, isOpen⟩) scanned remark
        obtain ⟨left, isLeft⟩ := inductionHypothesis closed
        refine ⟨left, ?_⟩
        rw [← cons_remarked, expandOnce_of_other scannedToo notWord,
          expandOnce_of_other scanned notWord, isLeft, append_remarked]

theorem expandPasses_of_fixed
    {macros : Macros} {line : Text} (fixed : expandOnce macros line = line)
    (passes : Nat) :
    expandPasses macros passes line = line := by
  cases passes with
  | zero => rfl
  | succ passes => rw [expandPasses, if_pos fixed]

/-- Stopping early changes nothing: each pass goes on with what the pass before
it made. -/
theorem expandPasses_succ (macros : Macros) (passes : Nat) (line : Text) :
    expandPasses macros (passes + 1) line =
      expandPasses macros passes (expandOnce macros line) := by
  rw [expandPasses]
  split
  · next fixed => rw [fixed, expandPasses_of_fixed fixed]
  · rfl

theorem expandPasses_add (macros : Macros) (passes more : Nat) (line : Text) :
    expandPasses macros (passes + more) line =
      expandPasses macros more (expandPasses macros passes line) := by
  induction passes generalizing line with
  | zero => rw [Nat.zero_add, expandPasses]
  | succ passes inductionHypothesis =>
      rw [Nat.succ_add, expandPasses_succ, expandPasses_succ,
        inductionHypothesis]

/-- What each pass keeps, the expansion of a line keeps. -/
theorem expandPasses_induction
    {macros : Macros} {motive : Text → Prop}
    (step : ∀ line, motive line → motive (expandOnce macros line))
    (passes : Nat) {line : Text}
    (start : motive line) : motive (expandPasses macros passes line) := by
  induction passes generalizing line with
  | zero => exact start
  | succ passes inductionHypothesis =>
      rw [expandPasses_succ]
      exact inductionHypothesis (step line start)

/-- Whether none of the given number of passes over a line comes to a macro call
that is still open at the end of the line. -/
def passesClose (macros : Macros) : (passes : Nat) → Text → Bool
  | 0, _ => true
  | passes + 1, line =>
      callsClose macros line &&
        passesClose macros passes (expandOnce macros line)

/-- A remark stays behind the expansion of a line. -/
theorem expandPasses_remarked
    {macros : Macros} {passes : Nat} {line : Text}
    (closed : passesClose macros passes line) (remark : Text) :
    ∃ left, expandPasses macros passes (remarked line remark) =
      remarked (expandPasses macros passes line) left := by
  induction passes generalizing line remark with
  | zero => exact ⟨remark, rfl⟩
  | succ passes inductionHypothesis =>
      obtain ⟨closedHere, closedLater⟩ := Bool.and_eq_true_iff.mp closed
      obtain ⟨left, isLeft⟩ := expandOnce_remarked closedHere remark
      rw [expandPasses_succ, expandPasses_succ, isLeft]
      exact inductionHypothesis closedLater left

/-! ## Directives -/

theorem trimEnd_remarked (line remark : Text) :
    trimEnd (remarked line remark) = remarked line (trimEnd remark) := by
  have notBlank : ¬ isBlank '/' := by decide
  have split :
      remarked line remark = (line ++ [' ', '/']) ++ '/' :: remark := by
    simp [remarked]
  rw [split, trimEnd_append_of_not_blank _ notBlank]
  simp [remarked]

/-- A remark behind a line stays behind it when the line is trimmed. -/
theorem trim_remarked
    {line : Text} (nonempty : trim line ≠ []) (remark : Text) :
    ∃ blanks, (∀ character ∈ blanks, isBlank character) ∧
      trim (remarked line remark) =
        trim line ++ remarked blanks (trimEnd remark) := by
  obtain ⟨before, after, whole, blanksBefore, blanksAfter⟩ :=
    exists_blanks_around line
  have start : trimStart (trim line ++ remarked after remark) =
      trim line ++ remarked after remark :=
    trimStart_append (trimStart_trim line) nonempty _
  refine ⟨after, blanksAfter, ?_⟩
  calc
    trim (remarked line remark) =
      trim (before ++ (trim line ++ remarked after remark)) := by
      rw [append_remarked, append_remarked, ← List.append_assoc, ← whole]
    _ = trimEnd (trim line ++ remarked after remark) := by
      rw [trim_append_of_blanks blanksBefore, trim, start]
    _ = trim line ++ remarked after (trimEnd remark) := by
      rw [append_remarked, trimEnd_remarked, append_remarked]

theorem trim_remarked_of_blank
    {line : Text} (blank : trim line = []) (remark : Text) :
    trim (remarked line remark) = '/' :: '/' :: trimEnd remark := by
  have notBlank : ¬ isBlank '/' := by decide
  rw [remarked, trim_append_of_blanks (trim_eq_nil_iff.mp blank),
    trim_space_cons, trim, trimStart_cons_of_not_blank notBlank]
  exact trimEnd_append_of_not_blank ['/'] notBlank remark

theorem exists_blank_cons_of_remarked
    {blanks : Text} (allBlank : ∀ character ∈ blanks, isBlank character)
    (remark : Text) :
    ∃ first rest, remarked blanks remark = first :: rest ∧ isBlank first := by
  cases blanks with
  | nil => exact ⟨' ', '/' :: '/' :: remark, rfl, rfl⟩
  | cons first blanks =>
      exact ⟨first, remarked blanks remark, rfl,
        allBlank first List.mem_cons_self⟩

namespace Directive

/-- The directive with more text behind it.  The value or the body of a macro
goes on with the text, and the name that is to be forgotten is no name with
it. -/
def extended (tail : Text) : Directive → Option Directive
  | defineObject name value => some (.defineObject name (trim (value ++ tail)))
  | defineFunction name definition =>
      some (.defineFunction name
        { definition with body := trim (definition.body ++ tail) })
  | undefine _ => none

theorem not_mem_words_of_blank {character : Char} (blank : isBlank character) :
    character ∉ "#define".toList ∧ character ∉ "#undef".toList := by
  have noBlank :
      ∀ found ∈ "#define".toList ++ "#undef".toList, (!isBlank found) :=
    List.all_eq_true.mp rfl
  constructor
  · intro member
    have notBlank := noBlank character (List.mem_append_left _ member)
    rw [blank] at notBlank
    cases notBlank
  · intro member
    have notBlank := noBlank character (List.mem_append_right _ member)
    rw [blank] at notBlank
    cases notBlank

section Tail

variable {directive : Directive} {rest tail : Text} {first : Char}

theorem readFunction?_append
    {name afterParen : Text} (tight : Tight afterParen)
    (read : readFunction? name afterParen = some directive) (tail : Text) :
    readFunction? name (afterParen ++ tail) = directive.extended tail := by
  obtain ⟨⟨list, body⟩, found, isRead⟩ := Option.bind_eq_some_iff.mp read
  obtain ⟨whole, absent⟩ := eq_append_of_cut found
  have tightBody : Tight body := by
    apply tight.of_suffix
    rw [whole]
    exact ⟨list ++ [')'], by simp⟩
  have foundToo : cut ')' (afterParen ++ tail) = some (list, body ++ tail) := by
    rw [whole, List.append_assoc, List.cons_append]
    exact cut_append absent _
  rw [readFunction?, foundToo, Option.bind_some]
  dsimp only at isRead ⊢
  split at isRead
  · next named =>
      cases isRead
      rw [if_pos named, extended, trim_append_of_tight tightBody]
  · cases isRead

theorem startsBlank_append_cons
    (separate : rest.isEmpty || startsBlank rest) (blank : isBlank first)
    (tail : Text) :
    startsBlank (rest ++ first :: tail) := by
  cases rest with
  | nil => exact blank
  | cons character rest => exact separate

theorem readDefine?_append
    (blank : isBlank first) (tight : Tight rest)
    (read : readDefine? rest = some directive) (tail : Text) :
    readDefine? (rest ++ first :: tail) =
      directive.extended (first :: tail) := by
  have notName : ¬ isNameChar first :=
    fun named => not_isBlank_of_isNameChar named blank
  unfold readDefine? at read
  split at read
  · next starts =>
      dsimp only at read
      split at read
      · next named =>
          have nonempty : trimStart rest ≠ [] := by
            intro empty
            rw [empty] at named
            cases named
          have definition :
              trimStart (rest ++ first :: tail) =
                trimStart rest ++ first :: tail := by
            have notEmpty : ¬ (rest.dropWhile isBlank).isEmpty :=
              fun empty => nonempty (List.isEmpty_iff.mp empty)
            rw [trimStart, List.dropWhile_append, if_neg notEmpty]
            rfl
          unfold readDefine?
          dsimp only
          rw [if_pos (startsBlank_append_cons (Bool.or_eq_true_iff.mpr (.inr starts)) blank tail),
            definition, takeWhile_append_cons notName,
            dropWhile_append_cons notName, if_pos named]
          have tightAfter : Tight ((trimStart rest).dropWhile isNameChar) :=
            tight.of_suffix
              ((List.dropWhile_suffix _).trans (List.dropWhile_suffix _))
          split at read
          · next afterParen isAfter =>
              rw [isAfter] at tightAfter ⊢
              exact readFunction?_append
                (tightAfter.of_suffix (List.suffix_cons _ _)) read _
          · next notParen =>
              split at read
              · next separate =>
                  cases read
                  have starts := startsBlank_append_cons separate blank tail
                  rw [extended, ← trim_append_of_tight tightAfter]
                  split
                  · next afterParen isAfter =>
                      rw [isAfter] at starts
                      cases starts
                  · rw [if_pos (Bool.or_eq_true_iff.mpr (.inr starts))]
              · cases read
      · cases read
  · cases read

theorem readUndefine?_append
    (slash : '/' ∈ tail) : readUndefine? (rest ++ tail) = none := by
  have member : '/' ∈ trim (rest ++ tail) :=
    mem_trim_of_not_blank (List.mem_append_right rest slash) (by decide)
  rw [readUndefine?]
  refine if_neg fun named => ?_
  cases written : trim (rest ++ tail) with
  | nil =>
      rw [written] at member
      cases member
  | cons character others =>
      rw [written] at member named
      obtain ⟨starts, goesOn⟩ := Bool.and_eq_true_iff.mp named
      rcases List.mem_cons.mp member with rfl | later
      · cases starts
      · cases List.all_eq_true.mp goesOn '/' later

end Tail

/-- What stands behind a blank has no say in whether a line is a directive. -/
theorem read?_append_cons
    {first : Char} (blank : isBlank first) (line tail : Text) :
    read? (line ++ first :: tail) =
      match dropStart? "#define".toList line with
      | some rest => some (readDefine? (rest ++ first :: tail))
      | none => (dropStart? "#undef".toList line).map fun rest =>
          readUndefine? (rest ++ first :: tail) := by
  obtain ⟨notInDefine, notInUndefine⟩ := not_mem_words_of_blank blank
  rw [read?, dropStart?_append_cons notInDefine,
    dropStart?_append_cons notInUndefine]
  cases dropStart? "#define".toList line with
  | some rest => rfl
  | none => exact Option.map_map _ _ _

/-- A line that is no directive is none with a remark. -/
theorem read?_remarked_of_none
    {line : Text} (noDirective : read? (trim line) = none) (remark : Text) :
    read? (trim (remarked line remark)) = none := by
  by_cases empty : trim line = []
  · rw [trim_remarked_of_blank empty]
    rfl
  · obtain ⟨blanks, allBlank, trimmed⟩ := trim_remarked empty remark
    obtain ⟨first, rest, isTail, blank⟩ :=
      exists_blank_cons_of_remarked allBlank (trimEnd remark)
    rw [trimmed, isTail, read?_append_cons blank]
    rw [read?] at noDirective
    cases defines : dropStart? "#define".toList (trim line) with
    | some found =>
        rw [defines] at noDirective
        cases noDirective
    | none =>
        rw [defines] at noDirective
        dsimp only at noDirective ⊢
        rw [Option.map_eq_none_iff.mp noDirective]
        rfl

/-- A remark behind a directive is a part of it. -/
theorem read?_remarked
    {line : Text} {directive : Directive}
    (read : read? (trim line) = some (some directive)) (remark : Text) :
    ∃ blanks, (∀ character ∈ blanks, isBlank character) ∧
      read? (trim (remarked line remark)) =
        some (directive.extended (remarked blanks (trimEnd remark))) := by
  have nonempty : trim line ≠ [] := by
    intro empty
    rw [empty] at read
    cases read
  obtain ⟨blanks, allBlank, trimmed⟩ := trim_remarked nonempty remark
  obtain ⟨first, tail, isTail, blank⟩ :=
    exists_blank_cons_of_remarked allBlank (trimEnd remark)
  refine ⟨blanks, allBlank, ?_⟩
  have slash : '/' ∈ first :: tail := by
    rw [← isTail]
    simp [remarked]
  rw [trimmed, isTail, read?_append_cons blank]
  rw [read?] at read
  cases defines : dropStart? "#define".toList (trim line) with
  | some rest =>
      rw [defines] at read
      have tight : Tight rest := by
        apply (tight_trim line).of_suffix
        rw [eq_append_of_dropStart? defines]
        exact List.suffix_append _ _
      exact congrArg some
        (readDefine?_append blank tight (Option.some.inj read) tail)
  | none =>
      rw [defines] at read
      obtain ⟨rest, forgets, isRead⟩ := Option.map_eq_some_iff.mp read
      dsimp only
      rw [forgets, Option.map_some, readUndefine?_append slash]
      rw [readUndefine?] at isRead
      split at isRead
      · cases isRead
        rfl
      · cases isRead

end Directive

/-! ## Whole sources -/

def macrosAfter (macros : Macros) : List Text → Macros
  | [] => macros
  | line :: later =>
      match Directive.read? (trim line) with
      | some (some directive) => macrosAfter (directive.apply macros) later
      | _ => macrosAfter macros later

theorem processLine_of_none
    {line : Text} (noDirective : Directive.read? (trim line) = none)
    (macros : Macros)
    (number : Nat) :
    processLine macros number line = .ok (expand macros line, macros) := by
  rw [processLine, noDirective]

theorem processLine_of_directive
    {line : Text} {directive : Directive}
    (read : Directive.read? (trim line) = some (some directive))
    (macros : Macros)
    (number : Nat) :
    processLine macros number line = .ok ([], directive.apply macros) := by
  rw [processLine, read]

theorem processLines_cons
    {macros changed : Macros} {number : Nat} {line output : Text}
    (processed : processLine macros number line = .ok (output, changed))
    (later : List Text) :
    processLines macros number (line :: later) =
      (processLines changed (number + 1) later).map (output :: ·) := by
  rw [processLines, processed]

/-- Lines are processed one after the other, each with the macros of the lines
before it. -/
theorem processLines_append
    (macros : Macros) (number : Nat) (before rest : List Text) :
    processLines macros number (before ++ rest) =
      (processLines macros number before).bind fun outputs =>
        (processLines (macrosAfter macros before)
          (number + before.length) rest).map
          (outputs ++ ·) := by
  induction before generalizing macros number with
  | nil => exact (id_map (processLines macros number rest)).symm
  | cons line before inductionHypothesis =>
      have goesOn : ∀ {output : Text} {changed : Macros},
          processLine macros number line = .ok (output, changed) →
          processLines macros number (line :: (before ++ rest)) =
            (processLines macros number (line :: before)).bind fun outputs =>
              (processLines (macrosAfter changed before)
                (number + (before.length + 1)) rest).map
                (outputs ++ ·) := by
        intro output changed processed
        rw [processLines_cons processed, processLines_cons processed,
          inductionHypothesis, Nat.add_assoc, Nat.add_comm 1]
        cases processLines changed (number + 1) before with
        | error fault => rfl
        | ok outputs => exact (comp_map (f := Except SourceFault) _ _ _).symm
      rw [List.cons_append, List.length_cons, macrosAfter]
      cases read : Directive.read? (trim line) with
      | none => exact goesOn (processLine_of_none read macros number)
      | some found =>
          cases found with
          | none => rw [processLines, processLines, processLine, read]; rfl
          | some directive =>
              exact goesOn (processLine_of_directive read macros number)

/-- A line that is no directive is expanded with the macros before it, and the
lines behind it see the same macros. -/
theorem processLines_append_cons
    {line : Text} (noDirective : Directive.read? (trim line) = none)
    (macros : Macros) (number : Nat) (before later : List Text) :
    processLines macros number (before ++ line :: later) =
      (processLines macros number before).bind fun outputs =>
        (processLines (macrosAfter macros before)
          (number + before.length + 1) later).map
          fun others =>
            outputs ++ expand (macrosAfter macros before) line :: others := by
  rw [processLines_append,
    processLines_cons (processLine_of_none noDirective _ _)]
  cases processLines macros number before with
  | error fault => rfl
  | ok outputs => exact (comp_map (f := Except SourceFault) _ _ _).symm

end Macro
end LineScript
