import LineScript.Text.Quotes

/-!
Blocks of lines held together by curly brackets.
-/

namespace LineScript
namespace Text

/-- Opening minus closing curly brackets of a line outside literals, for a scan
that has reached `quotes`. -/
def braceBalanceFrom : Quotes → Text → Int
  | _, [] => 0
  | quotes, character :: rest =>
      let later := braceBalanceFrom (quotes.next character) rest
      if quotes.covers character then later
      else if character = '{' then later + 1
      else if character = '}' then later - 1
      else later

/-- Opening minus closing curly brackets of a line, outside literals. -/
def braceBalance (line : Text) : Int :=
  braceBalanceFrom .outside line

/-- The number of lines up to the first one at which the brackets opened so far,
`opened` of them before these lines, are all closed. -/
def blockLengthFrom? : Int → List Text → Option Nat
  | _, [] => none
  | opened, line :: rest =>
      let remaining := opened + braceBalance line
      if remaining ≤ 0 then
        some 1
      else
        (blockLengthFrom? remaining rest).map (· + 1)

/-- The number of lines of the block that the first line opens, its closing line
included. -/
def blockLength? (lines : List Text) : Option Nat :=
  blockLengthFrom? 0 lines

/-- The index of the line that closes the block opened at index `start`. -/
def blockEnd? (lines : List Text) (start : Nat) : Option Nat :=
  (blockLength? (lines.drop start)).map fun length => start + length - 1

theorem blockLengthFrom?_pos
    {opened : Int} {lines : List Text} {length : Nat}
    (found : blockLengthFrom? opened lines = some length) :
    0 < length ∧ length ≤ lines.length := by
  induction lines generalizing opened length with
  | nil => simp [blockLengthFrom?] at found
  | cons line rest induction =>
      simp only [blockLengthFrom?] at found
      split at found
      · simp only [Option.some.injEq] at found
        subst found
        simp
      · simp only [Option.map_eq_some_iff] at found
        obtain ⟨inner, foundRest, rfl⟩ := found
        have bounds := induction foundRest
        simp only [List.length_cons]
        omega

/-- A block has at least one line and ends within the lines. -/
theorem blockLength?_bounds
    {lines : List Text} {length : Nat}
    (found : blockLength? lines = some length) :
    0 < length ∧ length ≤ lines.length :=
  blockLengthFrom?_pos found

end Text
end LineScript
