import LineScript.Proofs.Text.Literal
import LineScript.Proofs.Text.Splitting

/-!
Texts in which every bracket is closed by one of its own kind.

A balanced text is opaque to what surrounds it: a literal or a call that starts
in it ends in it, whatever follows.  That the brackets cancel out when all kinds
are counted together would not be enough for this, since a call closes at its
own kind of bracket.
-/

namespace LineScript

open Text

/-- Where a scan stands with respect to literals, and the closing brackets it
still awaits, the innermost first. -/
structure Awaiting where
  quotes : Quotes
  closers : List Char
deriving DecidableEq

namespace Awaiting

def start : Awaiting := ⟨.outside, []⟩

def closer? : Char → Option Char
  | '(' => some ')'
  | '[' => some ']'
  | '{' => some '}'
  | _ => none

/-- The position after reading one more character, unless that is a closing
bracket which is not awaited. -/
def next? (awaiting : Awaiting) (character : Char) : Option Awaiting :=
  let quotes := awaiting.quotes.next character
  if awaiting.quotes.covers character then
    some ⟨quotes, awaiting.closers⟩
  else
    match closer? character with
    | some closer => some ⟨quotes, closer :: awaiting.closers⟩
    | none =>
        if Nesting.isClosing character then
          if awaiting.closers.head? =
            some character then some ⟨quotes, awaiting.closers.tail⟩
          else none
        else
          some ⟨quotes, awaiting.closers⟩

def run (awaiting : Awaiting) (text : Text) : Option Awaiting :=
  text.foldlM next? awaiting

theorem run_cons (awaiting : Awaiting) (character : Char) (rest : Text) :
    awaiting.run (character :: rest) =
      (awaiting.next? character).bind fun reached => reached.run rest :=
  List.foldlM_cons

theorem run_append (awaiting : Awaiting) (left right : Text) :
    awaiting.run (left ++ right) = (awaiting.run left).bind fun reached =>
      reached.run right :=
  List.foldlM_append

/-- What reading one more character does. -/
inductive Reads : Awaiting → Char → Awaiting → Prop
  | covered {quotes : Quotes} {closers : List Char} {character : Char}
      (covers : quotes.covers character) :
      Reads ⟨quotes, closers⟩ character ⟨quotes.next character, closers⟩
  | opening {closers : List Char} {character closer : Char}
      (opens : closer? character = some closer) :
      Reads ⟨.outside, closers⟩ character ⟨.outside, closer :: closers⟩
  | closing {closers : List Char} {character : Char}
      (closes : Nesting.isClosing character) :
      Reads ⟨.outside, character :: closers⟩ character ⟨.outside, closers⟩
  | plain {closers : List Char} {character : Char}
      (plain : Nesting.isPlain character) :
      Reads ⟨.outside, closers⟩ character ⟨.outside, closers⟩

theorem closer?_eq_some_iff {character closer : Char} :
    closer? character = some closer ↔
      (character = '(' ∧ closer = ')') ∨ (character = '[' ∧ closer = ']') ∨
        (character = '{' ∧ closer = '}') := by
  constructor
  · intro opens
    unfold closer? at opens
    split at opens
    · cases opens
      exact .inl ⟨rfl, rfl⟩
    · cases opens
      exact .inr (.inl ⟨rfl, rfl⟩)
    · cases opens
      exact .inr (.inr ⟨rfl, rfl⟩)
    · cases opens
  · rintro (⟨rfl, rfl⟩ | ⟨rfl, rfl⟩ | ⟨rfl, rfl⟩) <;> rfl

theorem closer?_eq_none_iff {character : Char} :
    closer? character = none ↔ Nesting.isOpening character = false := by
  constructor
  · intro opens
    apply Bool.eq_false_iff.mpr
    intro isOpening
    simp only [Nesting.isOpening, Bool.or_eq_true, beq_iff_eq] at isOpening
    rcases isOpening with (rfl | rfl) | rfl <;> cases opens
  · intro notOpening
    cases opens : closer? character with
    | none => rfl
    | some closer =>
        rcases closer?_eq_some_iff.mp opens
          with ⟨rfl, _⟩ | ⟨rfl, _⟩ | ⟨rfl, _⟩ <;>
          cases notOpening

theorem reads_of_next?
    {awaiting reached : Awaiting} {character : Char}
    (stepped : awaiting.next? character = some reached) :
    Reads awaiting character reached := by
  obtain ⟨quotes, closers⟩ := awaiting
  by_cases covers : quotes.covers character
  · rw [next?, if_pos covers] at stepped
    cases stepped
    exact .covered covers
  · cases quotes with
    | inside quote escaped => exact absurd rfl covers
    | outside =>
        have stays : Quotes.outside.next character = .outside := if_neg covers
        simp only [next?, covers, stays] at stepped
        cases opens : closer? character with
        | some closer =>
            simp only [opens] at stepped
            cases stepped
            exact .opening opens
        | none =>
            simp only [opens] at stepped
            by_cases closes : Nesting.isClosing character
            · cases closers with
              | nil => simp [closes] at stepped
              | cons first closers =>
                  by_cases same : first = character
                  · subst same
                    simp only [closes, if_true, List.head?_cons,
                      List.tail_cons] at stepped
                    cases stepped
                    exact .closing closes
                  · simp [closes, same] at stepped
            · simp only [closes] at stepped
              cases stepped
              have notOpening := closer?_eq_none_iff.mp opens
              refine .plain ?_
              simp only [Quotes.covers] at covers
              simp [Nesting.isPlain, covers, notOpening, closes]

theorem exists_of_run_cons
    {awaiting ending : Awaiting} {character : Char} {rest : Text}
    (read : awaiting.run (character :: rest) = some ending) :
    ∃ reached, Reads awaiting character reached ∧
      reached.run rest = some ending := by
  rw [run_cons] at read
  obtain ⟨reached, stepped, readRest⟩ := Option.bind_eq_some_iff.mp read
  exact ⟨reached, reads_of_next? stepped, readRest⟩

def nesting (awaiting : Awaiting) : Nesting :=
  ⟨awaiting.quotes, awaiting.closers.length⟩

theorem Reads.nesting_next
    {awaiting reached : Awaiting} {character : Char}
    (reads : Reads awaiting character reached) :
    awaiting.nesting.next character = reached.nesting := by
  cases reads with
  | covered covers => simp [nesting, Nesting.next, covers]
  | opening opens =>
      rcases closer?_eq_some_iff.mp opens
        with ⟨rfl, rfl⟩ | ⟨rfl, rfl⟩ | ⟨rfl, rfl⟩ <;> rfl
  | closing closes =>
      simp only [Nesting.isClosing, Bool.or_eq_true, beq_iff_eq] at closes
      rcases closes with (rfl | rfl) | rfl <;> rfl
  | plain plain => exact Nesting.next_of_isPlain plain rfl

/-- Counting brackets goes along with remembering which are awaited. -/
theorem nesting_after
    {awaiting ending : Awaiting} {text : Text}
    (read : awaiting.run text = some ending) :
    awaiting.nesting.after text = ending.nesting := by
  induction text generalizing awaiting with
  | nil =>
      cases read
      rfl
  | cons character rest inductionHypothesis =>
      obtain ⟨reached, reads, readRest⟩ := exists_of_run_cons read
      rw [Nesting.after_cons, reads.nesting_next]
      exact inductionHypothesis readRest

/-! ## Round brackets alone -/

def round (awaiting : Awaiting) : Nesting :=
  ⟨awaiting.quotes, awaiting.closers.count ')'⟩

theorem round_awaiting (quotes : Quotes) (closers : List Char) :
    round ⟨quotes, ')' :: closers⟩ = ⟨quotes, closers.count ')' + 1⟩ := by
  rw [round, List.count_cons_self]

/-- While a round bracket is awaited, the search for the end of the round
brackets goes the same way, and it cannot get past that bracket. -/
theorem Reads.roundStep_eq
    {awaiting reached : Awaiting} {character : Char}
    (reads : Reads awaiting character reached)
    (awaited : ')' ∈ awaiting.closers) {nesting : Nesting}
    (stepped : roundStep awaiting.round character = some nesting) :
    nesting = reached.round ∧ ')' ∈ reached.closers := by
  cases reads with
  | covered covers =>
      simp only [roundStep, round, covers, if_true] at stepped
      cases stepped
      exact ⟨rfl, awaited⟩
  | opening opens =>
      refine ⟨?_, List.mem_cons_of_mem _ awaited⟩
      rcases closer?_eq_some_iff.mp opens
        with ⟨rfl, rfl⟩ | ⟨rfl, rfl⟩ | ⟨rfl, rfl⟩
      · cases stepped
        exact (round_awaiting _ _).symm
      · cases stepped
        rfl
      · cases stepped
        rfl
  | @closing closers character closes =>
      simp only [Nesting.isClosing, Bool.or_eq_true, beq_iff_eq] at closes
      rcases closes with (rfl | rfl) | rfl
      · have closed : (if closers.count ')' + 1 ≤ 1 then none
            else some (round ⟨.outside, closers⟩)) = some nesting := by
          rw [round_awaiting] at stepped
          exact stepped
        -- The search goes on only if another round bracket is awaited behind this one.
        by_cases last : closers.count ')' + 1 ≤ 1
        · simp [last] at closed
        · rw [if_neg last] at closed
          cases closed
          have another : 0 < closers.count ')' := by omega
          exact ⟨rfl, List.count_pos_iff.mp another⟩
      · cases stepped
        exact ⟨rfl, List.mem_of_ne_of_mem (by decide) awaited⟩
      · cases stepped
        exact ⟨rfl, List.mem_of_ne_of_mem (by decide) awaited⟩
  | plain plain =>
      rw [roundStep_of_isPlain rfl plain] at stepped
      cases stepped
      exact ⟨rfl, awaited⟩

/-- As long as a search for round brackets goes on, the bracket it is for is
awaited. -/
theorem round_of_run
    {awaiting ending : Awaiting} {text : Text}
    (read : awaiting.run text = some ending)
    (awaited : ')' ∈ awaiting.closers) {nesting : Nesting}
    (searched : roundScan.run awaiting.round text = some nesting) :
    ')' ∈ ending.closers := by
  induction text generalizing awaiting with
  | nil =>
      cases read
      exact awaited
  | cons character rest inductionHypothesis =>
      obtain ⟨reached, reads, readRest⟩ := exists_of_run_cons read
      rw [Scan.run_cons] at searched
      obtain ⟨middle, stepped, searchedRest⟩ :=
        Option.bind_eq_some_iff.mp searched
      obtain ⟨rfl, stillAwaited⟩ := reads.roundStep_eq awaited stepped
      exact inductionHypothesis readRest stillAwaited searchedRest

theorem next?_of_isPlain
    {awaiting : Awaiting} (outside : awaiting.quotes = .outside)
    {character : Char} (plain : Nesting.isPlain character) :
    awaiting.next? character = some awaiting := by
  obtain ⟨quotes, closers⟩ := awaiting
  cases outside
  simp only [Nesting.isPlain, Bool.and_eq_true, Bool.not_eq_true'] at plain
  obtain ⟨⟨notQuote, notOpening⟩, notClosing⟩ := plain
  have opensNothing := closer?_eq_none_iff.mpr notOpening
  simp [next?, Quotes.covers, Quotes.next, notQuote, opensNothing, notClosing]

theorem run_of_isPlain
    {awaiting : Awaiting} (outside : awaiting.quotes = .outside) {text : Text}
    (plain : ∀ character ∈ text, Nesting.isPlain character) :
    awaiting.run text = some awaiting := by
  induction text with
  | nil => rfl
  | cons character rest inductionHypothesis =>
      obtain ⟨plainFirst, plainRest⟩ := List.forall_mem_cons.mp plain
      rw [run_cons, next?_of_isPlain outside plainFirst, Option.bind_some]
      exact inductionHypothesis plainRest

end Awaiting

theorem Nesting.quotes_after (nesting : Nesting) (text : Text) :
    (nesting.after text).quotes = nesting.quotes.after text := by
  induction text generalizing nesting with
  | nil => rfl
  | cons character rest inductionHypothesis =>
      exact inductionHypothesis (nesting.next character)

namespace Text

/-- A literal stays open up to its closing quote. -/
theorem LiteralBody.inside_after
    {quote : Char} {escaped : Bool} {left right : Text}
    (body : LiteralBody quote escaped (left ++ right)) :
    ∃ flag, (Quotes.inside quote escaped).after left = .inside quote flag := by
  induction left generalizing escaped with
  | nil => exact ⟨escaped, rfl⟩
  | cons character left inductionHypothesis =>
      rw [List.cons_append] at body
      cases body with
      | escaped later => exact inductionHypothesis later
      | backslash later => exact inductionHypothesis later
      | plain notBackslash notQuote later =>
          have stays :
              (Quotes.inside quote false).next character =
                .inside quote false := by
            rw [Quotes.next, if_neg notBackslash, if_neg notQuote]
          obtain ⟨flag, reached⟩ := inductionHypothesis later
          refine ⟨flag, ?_⟩
          rw [← reached, Quotes.after, List.foldl_cons, stays]
          rfl

/-- What is read as a character literal is a literal and nothing else. -/
theorem literalBody_of_charLiteral?
    {text body : Text} (found : charLiteral? text = some body) :
    LiteralBody '\'' false body ∧ text = '\'' :: (body ++ ['\'']) := by
  have enclosed : ∀ {inner : Text},
      (dropStart? ['\''] text).bind (dropEnd? ['\'']) = some inner →
        text = '\'' :: (inner ++ ['\'']) := by
    intro inner dropped
    obtain ⟨rest, dropsFirst, dropsLast⟩ := Option.bind_eq_some_iff.mp dropped
    rw [eq_append_of_dropStart? dropsFirst, eq_append_of_dropEnd? dropsLast]
    rfl
  unfold charLiteral? at found
  split at found
  · next first second dropped =>
      split at found
      · next escapes =>
          cases found
          refine ⟨?_, enclosed dropped⟩
          rw [escapes]
          exact .backslash (.escaped .nil)
      · cases found
  · next character dropped =>
      split at found
      · cases found
      · next refused =>
          cases found
          obtain ⟨notBackslash, notQuote⟩ := not_or.mp refused
          exact ⟨.plain notBackslash notQuote .nil, enclosed dropped⟩
  · cases found

/-- All literals of the text are closed, and each of its brackets is closed by
one of its own kind. -/
def Balanced (text : Text) : Prop :=
  Awaiting.start.run text = some .start

instance (text : Text) : Decidable (Balanced text) :=
  inferInstanceAs (Decidable (Awaiting.start.run text = some .start))

namespace Balanced

variable {text : Text} (balanced : Balanced text)

include balanced

theorem settled : Settled text :=
  Awaiting.nesting_after balanced

theorem trimStart : Balanced (trimStart text) := by
  obtain ⟨blanks, whole, allBlank⟩ := exists_blanks_before text
  have passed : Awaiting.start.run blanks = some .start :=
    Awaiting.run_of_isPlain rfl fun character member =>
      Nesting.isPlain_of_blank (allBlank character member)
  rw [Balanced, whole, Awaiting.run_append, passed,
    Option.bind_some] at balanced
  exact balanced

/-- A literal that starts in a balanced text ends in it. -/
theorem ne_literal_append
    (nonempty : text ≠ []) {rest : Text} (more : rest ≠ []) {quote : Char}
    (isQuote : Quotes.isQuote quote) {body : Text}
    (isBody : LiteralBody quote false body) :
    text ++ rest ≠ quote :: (body ++ [quote]) := by
  intro whole
  obtain ⟨first, others, rfl⟩ := List.exists_cons_of_ne_nil nonempty
  rw [List.cons_append] at whole
  obtain ⟨rfl, inQuotes⟩ := List.cons_eq_cons.mp whole
  have front : others ++ rest.dropLast = body := by
    rw [← List.dropLast_append_of_ne_nil more, inQuotes, List.dropLast_concat]
  rw [← front] at isBody
  obtain ⟨escaped, stillOpen⟩ := isBody.inside_after
  have opened : Quotes.outside.next first = .inside first false :=
    if_pos isQuote
  have closed : Quotes.outside.after (first :: others) = .outside := by
    have atEnd := congrArg Nesting.quotes balanced.settled
    rw [Nesting.quotes_after] at atEnd
    exact atEnd
  rw [Quotes.after, List.foldl_cons, opened, ← Quotes.after,
    stillOpen] at closed
  cases closed

/-- A balanced text with something behind it is no string literal. -/
theorem stringLiteral?_append
    (nonempty : text ≠ []) {rest : Text} (more : rest ≠ []) :
    stringLiteral? (text ++ rest) = none := by
  apply Option.eq_none_iff_forall_ne_some.mpr
  intro body found
  obtain ⟨isBody, whole⟩ := stringLiteral?_eq_some_iff.mp found
  exact balanced.ne_literal_append nonempty more rfl isBody whole

theorem charLiteral?_append
    (nonempty : text ≠ []) {rest : Text} (more : rest ≠ []) :
    charLiteral? (text ++ rest) = none := by
  apply Option.eq_none_iff_forall_ne_some.mpr
  intro body found
  obtain ⟨isBody, whole⟩ := literalBody_of_charLiteral? found
  exact balanced.ne_literal_append nonempty more rfl isBody whole

/-- A round bracket behind a name closes in a balanced text, so that no text
goes on behind it before the bracket closes. -/
theorem not_enclosed_append
    {name inner : Text} (named : isName name)
    (opens : text = name ++ '(' :: inner) (rest : Text) :
    ¬ Enclosed (inner ++ rest) := by
  rintro ⟨reached, read, _⟩
  obtain ⟨middle, searched, _⟩ := Scan.exists_of_run_append read
  have passed : Awaiting.start.run name = some .start :=
    Awaiting.run_of_isPlain rfl fun character member =>
      Nesting.isPlain_of_isNameChar
        (isNameChar_of_mem_name named character member)
  have readInner : Awaiting.run ⟨.outside, [')']⟩ inner = some .start := by
    rw [Balanced, opens, Awaiting.run_append, passed,
      Option.bind_some] at balanced
    exact balanced
  exact List.not_mem_nil
    (Awaiting.round_of_run readInner List.mem_cons_self searched)

/-- A balanced text with something else behind it is no call. -/
theorem callInner?_append
    {name : Text} (named : isName name) {next : Char}
    (notName : ¬ isNameChar next)
    (notOpening : next ≠ '(') (rest : Text) :
    callInner? name (text ++ next :: rest) = none := by
  apply Option.eq_none_iff_forall_ne_some.mpr
  intro inner found
  obtain ⟨enclosed, whole⟩ := callInner?_eq_some_iff.mp found
  rcases List.append_eq_append_iff.mp whole
    with ⟨middle, isName, tail⟩ | ⟨middle, isText, tail⟩
  · cases middle with
    | nil => exact notOpening (List.head_eq_of_cons_eq tail)
    | cons first middle =>
        cases List.head_eq_of_cons_eq tail
        apply not_mem_name named notName
        rw [isName]
        exact List.mem_append_right text List.mem_cons_self
  · cases middle with
    | nil => exact notOpening (List.head_eq_of_cons_eq tail).symm
    | cons first middle =>
        rw [List.cons_append] at tail
        obtain ⟨rfl, inBrackets⟩ := List.cons_eq_cons.mp tail
        have front : inner = middle ++ (next :: rest).dropLast := by
          rw [← List.dropLast_append_of_ne_nil (List.cons_ne_nil _ _),
            ← inBrackets, List.dropLast_concat]
        rw [front] at enclosed
        exact balanced.not_enclosed_append named isText _ enclosed

/-- A call that starts in a balanced text ends in it. -/
theorem splitCall?_append
    {next : Char} (notName : ¬ isNameChar next) (notOpening : next ≠ '(')
    (rest : Text) :
    splitCall? (text ++ next :: rest) = none := by
  by_cases nameless : (spanName (text ++ next :: rest)).1 = []
  · rw [splitCall?, nameless]
    rfl
  · have notCall :=
      balanced.callInner?_append
        (isName_spanName nameless) notName notOpening rest
    simp [splitCall?, notCall]

end Balanced
end Text
end LineScript
