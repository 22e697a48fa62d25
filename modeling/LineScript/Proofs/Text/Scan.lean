import LineScript.Proofs.Text.Cutting

/-!
Readings of a text from the left that keep track of literals and open brackets.

The search for a separator and the search for a closing bracket are two of them.
Outside literals a blank changes nothing for either.
-/

namespace LineScript

namespace Quotes

def after (quotes : Quotes) (text : Text) : Quotes :=
  text.foldl next quotes

theorem after_append (quotes : Quotes) (left right : Text) :
    quotes.after (left ++ right) = (quotes.after left).after right :=
  List.foldl_append

theorem isQuote_ne_of_blank
    {character : Char} (blank : Text.isBlank character) :
    isQuote character = false := by
  apply Bool.eq_false_iff.mpr
  intro quote
  rcases Bool.or_eq_true_iff.mp quote with double | single
  · rw [beq_iff_eq.mp double] at blank
    exact absurd blank (by decide)
  · rw [beq_iff_eq.mp single] at blank
    exact absurd blank (by decide)

/-- Only a quote opens a literal. -/
def Proper : Quotes → Prop
  | outside => True
  | inside quote _ => isQuote quote

theorem proper_outside : outside.Proper :=
  trivial

theorem Proper.next
    {quotes : Quotes} (proper : quotes.Proper) (character : Char) :
    (quotes.next character).Proper := by
  cases quotes with
  | outside =>
      rw [Quotes.next]
      split
      · next quote => exact quote
      · trivial
  | inside quote escaped =>
      cases escaped with
      | true => exact proper
      | false =>
          rw [Quotes.next]
          split
          · exact proper
          · split
            · trivial
            · exact proper

theorem Proper.after {quotes : Quotes} (proper : quotes.Proper) (text : Text) :
    (quotes.after text).Proper := by
  induction text generalizing quotes with
  | nil => exact proper
  | cons character rest inductionHypothesis =>
      exact inductionHypothesis (proper.next character)

/-- A blank neither opens nor closes a literal. -/
theorem Proper.outside_of_next_blank
    {quotes : Quotes} (proper : quotes.Proper) {character : Char}
    (blank : Text.isBlank character)
    (closed : quotes.next character = outside) :
    quotes = outside := by
  cases quotes with
  | outside => rfl
  | inside quote escaped =>
      cases escaped with
      | true => cases closed
      | false =>
          rw [Quotes.next] at closed
          split at closed
          · cases closed
          · split at closed
            · next same =>
                have refused := isQuote_ne_of_blank blank
                rw [same, show isQuote quote = true from proper] at refused
                cases refused
            · cases closed

theorem Proper.outside_of_after_blanks
    {quotes : Quotes} (proper : quotes.Proper) {text : Text}
    (blanks : ∀ character ∈ text, Text.isBlank character)
    (closed : quotes.after text = outside) :
    quotes = outside := by
  induction text generalizing quotes with
  | nil => exact closed
  | cons character rest inductionHypothesis =>
      simp only [List.forall_mem_cons] at blanks
      apply proper.outside_of_next_blank blanks.1
      exact inductionHypothesis (proper.next character) blanks.2 closed

end Quotes

/-! ## Scans -/

/-- A reading of a text that keeps track of literals and open brackets and may
stop before a character. -/
structure Scan where
  step : Nesting → Char → Option Nesting
  quotes : ∀ {nesting character reached},
    step nesting character = some reached →
      reached.quotes = nesting.quotes.next character
  blank : ∀ {nesting character},
    Text.isBlank character → nesting.quotes = .outside →
      step nesting character = some nesting

namespace Scan

variable (scan : Scan)

/-- Where the reading of a text ends, if it does not stop before. -/
def run (nesting : Nesting) (text : Text) : Option Nesting :=
  text.foldlM scan.step nesting

theorem run_nil (nesting : Nesting) : scan.run nesting [] = some nesting :=
  rfl

theorem run_cons (nesting : Nesting) (character : Char) (rest : Text) :
    scan.run nesting (character :: rest) =
      (scan.step nesting character).bind fun reached => scan.run reached rest :=
  List.foldlM_cons

theorem run_append (nesting : Nesting) (left right : Text) :
    scan.run nesting (left ++ right) =
      (scan.run nesting left).bind fun reached => scan.run reached right :=
  List.foldlM_append

variable {scan}

theorem run_cons_of_step
    {nesting reached : Nesting} {character : Char}
    (stepped : scan.step nesting character = some reached) (rest : Text) :
    scan.run nesting (character :: rest) = scan.run reached rest := by
  rw [run_cons, stepped, Option.bind_some]

theorem run_append_of_run
    {nesting reached : Nesting} {left : Text}
    (read : scan.run nesting left = some reached) (right : Text) :
    scan.run nesting (left ++ right) = scan.run reached right := by
  rw [run_append, read, Option.bind_some]

theorem exists_of_run_append
    {nesting reached : Nesting} {left right : Text}
    (read : scan.run nesting (left ++ right) = some reached) :
    ∃ middle, scan.run nesting left = some middle ∧
      scan.run middle right = some reached := by
  rw [run_append] at read
  exact Option.bind_eq_some_iff.mp read

/-- Every scan keeps track of literals in the same way. -/
theorem quotes_of_run
    {nesting reached : Nesting} {text : Text}
    (read : scan.run nesting text = some reached) :
    reached.quotes = nesting.quotes.after text := by
  induction text generalizing nesting with
  | nil =>
      cases read
      rfl
  | cons character rest inductionHypothesis =>
      rw [run_cons] at read
      obtain ⟨middle, stepped, readRest⟩ := Option.bind_eq_some_iff.mp read
      rw [inductionHypothesis readRest, scan.quotes stepped]
      rfl

theorem run_of_ignored
    {nesting : Nesting} {text : Text}
    (ignored : ∀ character ∈ text, scan.step nesting character = some nesting) :
    scan.run nesting text = some nesting := by
  induction text with
  | nil => rfl
  | cons character rest inductionHypothesis =>
      simp only [List.forall_mem_cons] at ignored
      rw [run_cons_of_step ignored.1]
      exact inductionHypothesis ignored.2

theorem run_blanks
    {nesting : Nesting} (outside : nesting.quotes = .outside) {text : Text}
    (blanks : ∀ character ∈ text, Text.isBlank character) :
    scan.run nesting text = some nesting :=
  run_of_ignored fun character member =>
    scan.blank (blanks character member) outside

theorem run_trimStart
    {nesting : Nesting} (outside : nesting.quotes = .outside) (text : Text) :
    scan.run nesting (Text.trimStart text) = scan.run nesting text := by
  obtain ⟨blanks, whole, allBlank⟩ := Text.exists_blanks_before text
  have passed : scan.run nesting blanks = some nesting :=
    run_blanks outside allBlank
  have skipped := run_append_of_run passed (Text.trimStart text)
  rw [← skipped, ← whole]

/-- Blanks around a text do not matter, if no literal is open before and after
it. -/
theorem run_trim
    {nesting reached : Nesting} {text : Text}
    (outside : nesting.quotes = .outside)
    (read : scan.run nesting text = some reached)
    (closed : reached.quotes = .outside) :
    scan.run nesting (Text.trim text) = some reached := by
  obtain ⟨before, after, whole, blanksBefore, blanksAfter⟩ :=
    Text.exists_blanks_around text
  rw [whole, List.append_assoc,
    run_append_of_run (run_blanks outside blanksBefore)] at read
  obtain ⟨middle, readMiddle, readAfter⟩ := exists_of_run_append read
  have proper : middle.quotes.Proper := by
    rw [quotes_of_run readMiddle, outside]
    exact Quotes.proper_outside.after _
  have middleOutside : middle.quotes = .outside := by
    apply proper.outside_of_after_blanks blanksAfter
    rw [← quotes_of_run readAfter, closed]
  rw [run_blanks middleOutside blanksAfter] at readAfter
  rw [readMiddle, readAfter]

/-- The text before and after the character where the reading stops. -/
def stop (scan : Scan) : Nesting → Text → Option (Text × Text)
  | _, [] => none
  | nesting, character :: rest =>
      match scan.step nesting character with
      | none => some ([], rest)
      | some reached =>
          (scan.stop reached rest).map fun (before, after) =>
            (character :: before, after)

theorem stop_cons_of_step
    {nesting reached : Nesting} {character : Char}
    (stepped : scan.step nesting character = some reached) (rest : Text) :
    scan.stop nesting (character :: rest) =
      (scan.stop reached rest).map fun (before, after) =>
        (character :: before, after) := by
  rw [stop, stepped]

theorem stop_cons_of_stops
    {nesting : Nesting} {character : Char}
    (stops : scan.step nesting character = none) (rest : Text) :
    scan.stop nesting (character :: rest) = some ([], rest) := by
  rw [stop, stops]

theorem stop_append
    {nesting reached : Nesting} {before : Text}
    (read : scan.run nesting before = some reached)
    {character : Char} (stops : scan.step reached character = none)
    (after : Text) :
    scan.stop nesting (before ++ character :: after) =
      some (before, after) := by
  induction before generalizing nesting with
  | nil =>
      cases read
      exact stop_cons_of_stops stops after
  | cons first rest inductionHypothesis =>
      rw [run_cons] at read
      obtain ⟨middle, stepped, readRest⟩ := Option.bind_eq_some_iff.mp read
      rw [List.cons_append, stop_cons_of_step stepped,
        inductionHypothesis readRest]
      rfl

theorem exists_of_stop
    {nesting : Nesting} {text before after : Text}
    (found : scan.stop nesting text = some (before, after)) :
    ∃ reached character, text = before ++ character :: after ∧
      scan.run nesting before = some reached ∧
        scan.step reached character = none := by
  induction text generalizing nesting before with
  | nil => cases found
  | cons first rest inductionHypothesis =>
      cases stepped : scan.step nesting first with
      | none =>
          rw [stop_cons_of_stops stepped] at found
          cases found
          exact ⟨nesting, first, rfl, rfl, stepped⟩
      | some middle =>
          rw [stop_cons_of_step stepped] at found
          obtain ⟨⟨inner, outer⟩, foundRest, same⟩ :=
            Option.map_eq_some_iff.mp found
          cases same
          obtain ⟨reached, character, whole, read, stops⟩ :=
            inductionHypothesis foundRest
          refine ⟨reached, character, ?_, ?_, stops⟩
          · rw [whole, List.cons_append]
          · rw [run_cons_of_step stepped, read]

theorem stop_of_run
    {nesting reached : Nesting} {text : Text}
    (read : scan.run nesting text = some reached) :
    scan.stop nesting text = none := by
  apply Option.eq_none_iff_forall_ne_some.mpr
  rintro ⟨before, after⟩ found
  obtain ⟨middle, character, rfl, readBefore, stops⟩ := exists_of_stop found
  rw [run_append_of_run readBefore, run_cons, stops] at read
  cases read

/-- A reading does not stop in a text that it has read. -/
theorem exists_of_stop_append
    {nesting reached : Nesting} {text rest before after : Text}
    (read : scan.run nesting text = some reached)
    (found : scan.stop nesting (text ++ rest) = some (before, after)) :
    ∃ inner, before = text ++ inner := by
  induction text generalizing nesting before with
  | nil => exact ⟨before, rfl⟩
  | cons first text inductionHypothesis =>
      rw [run_cons] at read
      obtain ⟨middle, stepped, readText⟩ := Option.bind_eq_some_iff.mp read
      rw [List.cons_append, stop_cons_of_step stepped] at found
      obtain ⟨⟨innerBefore, outer⟩, foundLater, same⟩ :=
        Option.map_eq_some_iff.mp found
      cases same
      obtain ⟨inner, rfl⟩ := inductionHypothesis readText foundLater
      exact ⟨inner, rfl⟩

end Scan

/-! ## Separators at the top level -/

namespace Nesting

theorem eq_start_of_exposes
    {nesting : Nesting} {character : Char}
    (exposed : nesting.exposes character) :
    nesting = .start := by
  simp only [exposes, Bool.and_eq_true, Bool.not_eq_true',
    beq_iff_eq] at exposed
  obtain ⟨⟨⟨uncovered, _⟩, _⟩, ground⟩ := exposed
  obtain ⟨quotes, depth⟩ := nesting
  cases quotes with
  | outside =>
      simp only at ground
      rw [ground, start]
  | inside quote escaped => cases uncovered

def isPlain (character : Char) : Bool :=
  !Quotes.isQuote character && !isOpening character && !isClosing character

theorem next_of_isPlain
    {nesting : Nesting} {character : Char} (plain : isPlain character)
    (outside : nesting.quotes = .outside) :
    nesting.next character = nesting := by
  obtain ⟨quotes, depth⟩ := nesting
  cases outside
  simp only [isPlain, Bool.and_eq_true, Bool.not_eq_true'] at plain
  obtain ⟨⟨notQuote, notOpening⟩, notClosing⟩ := plain
  simp [next, Quotes.next, Quotes.covers, notQuote, notOpening, notClosing]

theorem exposes_start {character : Char} (plain : isPlain character) :
    start.exposes character := by
  simp only [isPlain, Bool.and_eq_true, Bool.not_eq_true'] at plain
  obtain ⟨⟨notQuote, notOpening⟩, notClosing⟩ := plain
  simp [exposes, start, Quotes.covers, notQuote, notOpening, notClosing]

theorem next_start_of_exposes
    {nesting : Nesting} {character : Char}
    (exposed : nesting.exposes character) :
    nesting.next character = .start := by
  have atStart := eq_start_of_exposes exposed
  rw [atStart] at exposed ⊢
  apply next_of_isPlain _ rfl
  simp only [exposes, Bool.and_eq_true] at exposed
  simpa [isPlain, start, Quotes.covers] using exposed.1

theorem isPlain_of_blank {character : Char} (blank : Text.isBlank character) :
    isPlain character := by
  simp only [isPlain, Quotes.isQuote_ne_of_blank blank, isOpening, isClosing,
    Bool.and_eq_true, Bool.not_eq_true', Bool.or_eq_false_iff,
    beq_eq_false_iff_ne]
  refine ⟨⟨trivial, ⟨?_, ?_⟩, ?_⟩, ⟨?_, ?_⟩, ?_⟩ <;>
    · rintro rfl
      exact absurd blank (by decide)

theorem isPlain_of_isNameChar
    {character : Char} (named : Text.isNameChar character) :
    isPlain character := by
  simp only [isPlain, Quotes.isQuote, isOpening, isClosing, Bool.and_eq_true,
    Bool.not_eq_true', Bool.or_eq_false_iff, beq_eq_false_iff_ne]
  refine ⟨⟨⟨?_, ?_⟩, ⟨?_, ?_⟩, ?_⟩, ⟨?_, ?_⟩, ?_⟩ <;>
    exact Text.ne_of_isNameChar named (by decide)

end Nesting

/-- A character that can stand between pieces. -/
structure Separator where
  character : Char
  plain : Nesting.isPlain character
  notBlank : ¬ Text.isBlank character

namespace Separator

def comma : Separator := ⟨',', by decide, by decide⟩

def equals : Separator := ⟨'=', by decide, by decide⟩

def question : Separator := ⟨'?', by decide, by decide⟩

def colon : Separator := ⟨':', by decide, by decide⟩

def scan (separator : Separator) : Scan where
  step nesting character :=
    if nesting.exposes character && character == separator.character then none
    else some (nesting.next character)
  quotes stepped := by
    split at stepped
    · cases stepped
    · cases stepped
      rfl
  blank blank outside := by
    split
    · next stops =>
        have same := beq_iff_eq.mp (Bool.and_eq_true_iff.mp stops).2
        rw [same] at blank
        exact absurd blank separator.notBlank
    · rw [Nesting.next_of_isPlain (Nesting.isPlain_of_blank blank) outside]

variable {separator : Separator}

theorem step_eq_none_iff {nesting : Nesting} {character : Char} :
    separator.scan.step nesting character = none ↔
      nesting = .start ∧ character = separator.character := by
  simp only [scan]
  constructor
  · intro stops
    split at stops
    · next both =>
        obtain ⟨exposed, same⟩ := Bool.and_eq_true_iff.mp both
        exact ⟨Nesting.eq_start_of_exposes exposed, beq_iff_eq.mp same⟩
    · cases stops
  · rintro ⟨rfl, rfl⟩
    rw [if_pos]
    rw [Nesting.exposes_start separator.plain, beq_self_eq_true, Bool.and_self]

theorem step_of_isPlain
    {nesting : Nesting} (outside : nesting.quotes = .outside) {character : Char}
    (plain : Nesting.isPlain character)
    (different : character ≠ separator.character) :
    separator.scan.step nesting character = some nesting := by
  simp only [scan]
  rw [if_neg, Nesting.next_of_isPlain plain outside]
  intro both
  exact different (beq_iff_eq.mp (Bool.and_eq_true_iff.mp both).2)

/-- Cutting at a separator is a scan that stops there. -/
theorem cutTopLevelFrom_eq_stop
    (separator : Separator) (nesting : Nesting) (text : Text) :
    Text.cutTopLevelFrom separator.character nesting text =
      separator.scan.stop nesting text := by
  induction text generalizing nesting with
  | nil => rfl
  | cons character rest inductionHypothesis =>
      rw [Text.cutTopLevelFrom, Scan.stop, inductionHypothesis]
      simp only [scan]
      split <;> rfl

end Separator

namespace Text

/-- One step of the reading up to the closing bracket that brings the count of
open ones down to zero. -/
def roundStep (nesting : Nesting) (character : Char) : Option Nesting :=
  if nesting.quotes.covers character then
    some { nesting with quotes := nesting.quotes.next character }
  else if character = '(' then
    some { quotes := nesting.quotes.next character, depth := nesting.depth + 1 }
  else if character = ')' then
    if nesting.depth ≤ 1 then none
    else some
      { quotes := nesting.quotes.next character, depth := nesting.depth - 1 }
  else
    some { nesting with quotes := nesting.quotes.next character }

theorem roundStep_of_isPlain
    {nesting : Nesting} (outside : nesting.quotes = .outside) {character : Char}
    (plain : Nesting.isPlain character) :
    roundStep nesting character = some nesting := by
  obtain ⟨quotes, depth⟩ := nesting
  cases outside
  have notOpen : character ≠ '(' := by
    rintro rfl
    exact absurd plain (by decide)
  have notClose : character ≠ ')' := by
    rintro rfl
    exact absurd plain (by decide)
  simp only [Nesting.isPlain, Bool.and_eq_true, Bool.not_eq_true'] at plain
  simp [roundStep, Quotes.covers, Quotes.next, plain.1.1, notOpen, notClose]

theorem quotes_of_roundStep
    {nesting reached : Nesting} {character : Char}
    (stepped : roundStep nesting character = some reached) :
    reached.quotes = nesting.quotes.next character := by
  rw [roundStep] at stepped
  repeat' split at stepped
  all_goals cases stepped
  all_goals rfl

theorem roundStep_eq_none_iff {nesting : Nesting} {character : Char} :
    roundStep nesting character = none ↔
      character = ')' ∧ nesting.quotes = .outside ∧ nesting.depth ≤ 1 := by
  obtain ⟨quotes, depth⟩ := nesting
  constructor
  · intro stops
    rw [roundStep] at stops
    repeat' split at stops
    all_goals cases stops
    next uncovered _ closes shallow =>
      refine ⟨closes, ?_, shallow⟩
      cases quotes with
      | outside => rfl
      | inside quote escaped => exact absurd rfl uncovered
  · rintro ⟨rfl, rfl, shallow⟩
    exact if_pos shallow

def roundScan : Scan where
  step := roundStep
  quotes := quotes_of_roundStep
  blank blank outside :=
    roundStep_of_isPlain outside (Nesting.isPlain_of_blank blank)

/-- The search for a closing bracket is a scan that stops there. -/
theorem closeParenFrom_eq_stop (quotes : Quotes) (depth : Nat) (text : Text) :
    closeParenFrom quotes depth text = roundScan.stop ⟨quotes, depth⟩ text := by
  induction text generalizing quotes depth with
  | nil => rfl
  | cons character rest inductionHypothesis =>
      simp only [closeParenFrom, Scan.stop, roundScan, roundStep,
        inductionHypothesis]
      by_cases covered : quotes.covers character
      · simp only [if_pos covered]
      · by_cases opens : character = '('
        · simp only [if_neg covered, if_pos opens]
        · by_cases closes : character = ')'
          · by_cases shallow : depth ≤ 1
            · simp only [if_neg covered, if_neg opens, if_pos closes,
                if_pos shallow]
            · simp only [if_neg covered, if_neg opens, if_pos closes,
                if_neg shallow]
          · simp only [if_neg covered, if_neg opens, if_neg closes]

theorem eq_append_of_closeParen
    {text before after : Text}
    (closed : closeParen text = some (before, after)) :
    text = before ++ ')' :: after := by
  rw [closeParen, closeParenFrom_eq_stop] at closed
  obtain ⟨reached, character, whole, _, stops⟩ := Scan.exists_of_stop closed
  obtain ⟨rfl, _⟩ := roundStep_eq_none_iff.mp stops
  exact whole

end Text
end LineScript
