import LineScript.Text.Quotes

/-!
Separators at the top level of a text: outside every literal and outside every
round, square or curly bracket.
-/

namespace LineScript

/-- Where a scan stands with respect to literals and open brackets. -/
structure Nesting where
  quotes : Quotes
  depth : Nat
deriving DecidableEq

namespace Nesting

def start : Nesting := ⟨.outside, 0⟩

def isOpening (character : Char) : Bool :=
  character == '(' || character == '[' || character == '{'

def isClosing (character : Char) : Bool :=
  character == ')' || character == ']' || character == '}'

/-- The position after reading one more character.  A closing bracket without
an open one changes nothing. -/
def next (nesting : Nesting) (character : Char) : Nesting :=
  { quotes := nesting.quotes.next character
    depth :=
      if nesting.quotes.covers character then nesting.depth
      else if isOpening character then nesting.depth + 1
      else if isClosing character then nesting.depth - 1
      else nesting.depth }

/-- Whether a character read at this position stands at the top level.  Quotes
and brackets themselves never do. -/
def exposes (nesting : Nesting) (character : Char) : Bool :=
  !nesting.quotes.covers character && !isOpening character &&
    !isClosing character && nesting.depth == 0

end Nesting

namespace Text

/-- The text before and after the first top-level occurrence of a character,
for a scan that has reached `nesting`. -/
def cutTopLevelFrom (separator : Char) : Nesting → Text → Option (Text × Text)
  | _, [] => none
  | nesting, character :: rest =>
      if nesting.exposes character && character == separator then
        some ([], rest)
      else
        (cutTopLevelFrom separator (nesting.next character) rest).map
          fun (before, after) => (character :: before, after)

/-- The text before and after the first top-level occurrence of a character. -/
def cutTopLevel (separator : Char) (text : Text) : Option (Text × Text) :=
  cutTopLevelFrom separator .start text

/-- The pieces between the top-level occurrences of a character, for a scan
that has reached `nesting`: the first one, and the others in order. -/
def segmentsTopLevel (separator : Char) : Nesting → Text → Text × List Text
  | _, [] => ([], [])
  | nesting, character :: rest =>
      let (first, others) :=
        segmentsTopLevel separator (nesting.next character) rest
      if nesting.exposes character && character == separator then
        ([], first :: others)
      else
        (character :: first, others)

/-- The trimmed pieces between the top-level occurrences of a character.  A
blank text has no pieces. -/
def splitTopLevel (separator : Char) (text : Text) : List Text :=
  if (trim text).isEmpty then
    []
  else
    let (first, others) := segmentsTopLevel separator .start text
    (first :: others).map trim

/-- Characters that turn a following `=` into a comparison. -/
def isComparisonHead (character : Char) : Bool :=
  character == '=' || character == '!' || character == '<' || character == '>'

/-- Characters that turn a preceding `=` into a comparison or an arrow. -/
def isComparisonTail (character : Char) : Bool :=
  character == '=' || character == '>'

/-- The text before and after the first top-level `=` that is no part of `==`,
`!=`, `<=`, `>=` or `=>`, for a scan that has read `previous` last. -/
def cutAssignmentFrom :
    (previous : Option Char) → Nesting → Text → Option (Text × Text)
  | _, _, [] => none
  | previous, nesting, character :: rest =>
      if nesting.exposes character && character == '=' &&
          !previous.any isComparisonHead &&
            !rest.head?.any isComparisonTail then
        some ([], rest)
      else
        (cutAssignmentFrom (some character) (nesting.next character) rest).map
          fun (before, after) => (character :: before, after)

def cutAssignment (text : Text) : Option (Text × Text) :=
  cutAssignmentFrom none .start text

/-- The text before and after the `)` that brings the count of open round
brackets down to zero.  Literals are skipped, other brackets are ignored. -/
def closeParenFrom : Quotes → (depth : Nat) → Text → Option (Text × Text)
  | _, _, [] => none
  | quotes, depth, character :: rest =>
      if quotes.covers character then
        (closeParenFrom (quotes.next character) depth rest).map
          fun (before, after) => (character :: before, after)
      else if character = '(' then
        (closeParenFrom (quotes.next character) (depth + 1) rest).map
          fun (before, after) => (character :: before, after)
      else if character = ')' then
        if depth ≤ 1 then
          some ([], rest)
        else
          (closeParenFrom (quotes.next character) (depth - 1) rest).map
            fun (before, after) => (character :: before, after)
      else
        (closeParenFrom (quotes.next character) depth rest).map
          fun (before, after) => (character :: before, after)

/-- The text before and after the `)` that matches the `(` at the start of the
text. -/
def closeParen (text : Text) : Option (Text × Text) :=
  closeParenFrom .outside 0 text

/-- The text between the brackets, if the whole text is `head(...)` and the
bracket opened after `head` closes at the very end. -/
def callInner? (head text : Text) : Option Text :=
  match dropStart? head text with
  | some ('(' :: rest) =>
      match closeParen ('(' :: rest) with
      | some (_ :: inner, []) => some inner
      | _ => none
  | _ => none

/-- The name and the argument texts, if the whole text is `name(...)`. -/
def splitCall? (text : Text) : Option (Text × List Text) :=
  let name := (spanName text).1
  if name.isEmpty then
    none
  else
    (callInner? name text).map fun inner => (name, splitTopLevel ',' inner)

/-- The parts of `condition ? yes : no`: cut at the first top-level `?`, then at
the first top-level `:` of what follows. -/
def splitConditional? (text : Text) : Option (Text × Text × Text) :=
  match cutTopLevel '?' text with
  | none => none
  | some (condition, branches) =>
      match cutTopLevel ':' branches with
      | none => none
      | some (yes, no) => some (trim condition, trim yes, trim no)

theorem length_of_cutTopLevelFrom
    {separator : Char} {nesting : Nesting} {text before after : Text}
    (found : cutTopLevelFrom separator nesting text = some (before, after)) :
    text.length = before.length + 1 + after.length := by
  induction text generalizing nesting before with
  | nil => simp [cutTopLevelFrom] at found
  | cons character rest induction =>
      simp only [cutTopLevelFrom] at found
      split at found
      · simp only [Option.some.injEq, Prod.mk.injEq] at found
        obtain ⟨rfl, rfl⟩ := found
        simp; omega
      · simp only [Option.map_eq_some_iff, Prod.exists, Prod.mk.injEq] at found
        obtain ⟨inner, outer, cutRest, rfl, rfl⟩ := found
        have lengths := induction cutRest
        simp only [List.length_cons]
        omega

/-- Each part of a conditional is shorter than the whole. -/
theorem length_of_splitConditional?
    {text condition yes no : Text}
    (found : splitConditional? text = some (condition, yes, no)) :
    condition.length < text.length ∧ yes.length < text.length ∧
      no.length < text.length := by
  unfold splitConditional? at found
  split at found
  · simp at found
  · next head branches cutQuestion =>
      split at found
      · simp at found
      · next inner outer cutColon =>
          simp only [Option.some.injEq, Prod.mk.injEq] at found
          obtain ⟨rfl, rfl, rfl⟩ := found
          have whole := length_of_cutTopLevelFrom cutQuestion
          have parts := length_of_cutTopLevelFrom cutColon
          have headTrim := length_trim_le head
          have innerTrim := length_trim_le inner
          have outerTrim := length_trim_le outer
          omega

theorem length_of_closeParenFrom
    {quotes : Quotes} {depth : Nat} {text before after : Text}
    (found : closeParenFrom quotes depth text = some (before, after)) :
    text.length = before.length + 1 + after.length := by
  induction text generalizing quotes depth before with
  | nil => simp [closeParenFrom] at found
  | cons character rest induction =>
      have step : ∀ {later : Quotes} {open_ : Nat},
          (closeParenFrom later open_ rest).map
              (fun (before, after) => (character :: before, after)) =
                some (before, after) →
            (character :: rest).length = before.length + 1 + after.length := by
        intro later open_ mapped
        simp only [Option.map_eq_some_iff, Prod.exists, Prod.mk.injEq] at mapped
        obtain ⟨inner, outer, closedRest, rfl, rfl⟩ := mapped
        have lengths := induction closedRest
        simp only [List.length_cons]
        omega
      simp only [closeParenFrom] at found
      split at found
      · exact step found
      · split at found
        · exact step found
        · split at found
          · split at found
            · simp only [Option.some.injEq, Prod.mk.injEq] at found
              obtain ⟨rfl, rfl⟩ := found
              simp; omega
            · exact step found
          · exact step found

end Text
end LineScript
