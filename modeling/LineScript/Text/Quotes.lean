import LineScript.Text.Basic

/-!
String and character literals inside a text.  A literal opens with a double or
a single quote and runs to the next quote of the same kind that no backslash
escapes.
-/

namespace LineScript

/-- Where a left-to-right scan stands: outside every literal, or inside one
opened by `quote`, possibly just after an escaping backslash. -/
inductive Quotes
  | outside
  | inside (quote : Char) (escaped : Bool)
deriving DecidableEq

namespace Quotes

/-- The two characters that open a literal. -/
def isQuote (character : Char) : Bool :=
  character == '"' || character == '\''

def next : Quotes → Char → Quotes
  | outside, character =>
      if isQuote character then inside character false else outside
  | inside quote true, _ => inside quote false
  | inside quote false, character =>
      if character = '\\' then inside quote true
      else if character = quote then outside
      else inside quote false

/-- Whether the character read at this position belongs to a literal, its
quotes included. -/
def covers : Quotes → Char → Bool
  | outside, character => isQuote character
  | inside _ _, _ => true

end Quotes

namespace Text

/-- The text of a literal up to its closing quote, and what follows that quote.
The scan starts inside the literal, after an escaping backslash if `escaped`. -/
def closeLiteral (quote : Char) : (escaped : Bool) → Text → Option (Text × Text)
  | _, [] => none
  | true, character :: rest =>
      (closeLiteral quote false rest).map fun (inner, after) =>
        (character :: inner, after)
  | false, character :: rest =>
      if character = '\\' then
        (closeLiteral quote true rest).map fun (inner, after) =>
          (character :: inner, after)
      else if character = quote then
        some ([], rest)
      else
        (closeLiteral quote false rest).map fun (inner, after) =>
          (character :: inner, after)

/-- The literal opened by `quote` just before `rest`, quotes included, and what
follows it.  A literal that never closes takes the whole rest. -/
def spanLiteral (quote : Char) (rest : Text) : Text × Text :=
  match closeLiteral quote false rest with
  | some (inner, after) => (quote :: inner ++ [quote], after)
  | none => (quote :: rest, [])

/-- Whether the text between two quotes is all of a literal: no quote in it
closes the literal early, and no backslash at its end escapes the closing
quote. -/
def holdsWhole (quote : Char) : (escaped : Bool) → Text → Bool
  | escaped, [] => !escaped
  | true, _ :: rest => holdsWhole quote false rest
  | false, character :: rest =>
      if character = '\\' then holdsWhole quote true rest
      else if character = quote then false
      else holdsWhole quote false rest

/-- The text between the quotes, if the whole text is one string literal. -/
def stringLiteral? (text : Text) : Option Text :=
  ((dropStart? ['"'] text).bind (dropEnd? ['"'])).filter (holdsWhole '"' false)

/-- The text between the quotes, if the whole text is one character literal: a
single character, or a backslash and the character it escapes. -/
def charLiteral? (text : Text) : Option Text :=
  match (dropStart? ['\''] text).bind (dropEnd? ['\'']) with
  | some [first, second] => if first = '\\' then some [first, second] else none
  | some [character] =>
      if character = '\\' ∨ character = '\'' then none else some [character]
  | _ => none

theorem length_of_closeLiteral
    {quote : Char} {escaped : Bool} {text inner after : Text}
    (closed : closeLiteral quote escaped text = some (inner, after)) :
    text.length = inner.length + 1 + after.length := by
  induction text generalizing escaped inner with
  | nil => simp [closeLiteral] at closed
  | cons character rest induction =>
      have step : ∀ {flag : Bool},
          (closeLiteral quote flag rest).map
              (fun (inner, after) => (character :: inner, after)) =
                some (inner, after) →
            (character :: rest).length = inner.length + 1 + after.length := by
        intro flag mapped
        simp only [Option.map_eq_some_iff, Prod.exists, Prod.mk.injEq] at mapped
        obtain ⟨within, beyond, closedRest, rfl, rfl⟩ := mapped
        have lengths := induction closedRest
        simp only [List.length_cons]
        omega
      cases escaped with
      | true => exact step closed
      | false =>
          simp only [closeLiteral] at closed
          split at closed
          · exact step closed
          · split at closed
            · simp only [Option.some.injEq, Prod.mk.injEq] at closed
              obtain ⟨rfl, rfl⟩ := closed
              simp; omega
            · exact step closed

/-- What follows a literal is no longer than what follows its opening quote. -/
theorem length_spanLiteral_le (quote : Char) (rest : Text) :
    (spanLiteral quote rest).2.length ≤ rest.length := by
  unfold spanLiteral
  split
  · next inner after closed =>
      have lengths := length_of_closeLiteral closed
      simp only
      omega
  · simp

end Text
end LineScript
