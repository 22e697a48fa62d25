import LineScript.Text.Basic

/-!
Lines of code: what is left of a source without comments and blank lines.
-/

namespace LineScript

/-- A line without comments, trimmed and not empty, with its number in the
source. -/
structure CodeLine where
  number : Nat
  text : Text
deriving DecidableEq

namespace CodeLine

open Text

/-- Where a scan for comments stands: in code, in a string, possibly just after
a backslash, or in a comment between `/*` and `*/`. -/
inductive Place
  | code
  | string (escaped : Bool)
  | comment
deriving DecidableEq

/-- The characters of a line outside comments, and whether a comment is still
open at its end. -/
def stripFrom : Place → Text → Text × Bool
  | place, [] => ([], place == .comment)
  | .comment, '*' :: '/' :: rest => stripFrom .code rest
  | .comment, _ :: rest => stripFrom .comment rest
  | .string true, character :: rest =>
      let (kept, opened) := stripFrom (.string false) rest
      (character :: kept, opened)
  | .string false, character :: rest =>
      let place :=
        if character = '\\' then .string true
        else if character = '"' then .code
        else .string false
      let (kept, opened) := stripFrom place rest
      (character :: kept, opened)
  | .code, '/' :: '/' :: _ => ([], false)
  | .code, '/' :: '*' :: rest => stripFrom .comment rest
  | .code, character :: rest =>
      let (kept, opened) :=
        stripFrom (if character = '"' then .string false else .code) rest
      (character :: kept, opened)

/-- The lines of code among the lines from a given number on.  A comment that is
open at the end of a line goes on in the next one, a string does not. -/
def stripLines : (inComment : Bool) → (number : Nat) → List Text → List CodeLine
  | _, _, [] => []
  | inComment, number, line :: later =>
      let (kept, opened) :=
        stripFrom (if inComment then .comment else .code) line
      let rest := stripLines opened (number + 1) later
      let text := trim kept
      if text.isEmpty then rest else { number := number, text := text } :: rest

def ofLines (lines : List Text) : List CodeLine :=
  stripLines false 1 lines

def texts (lines : List CodeLine) : List Text :=
  lines.map CodeLine.text

end CodeLine
end LineScript
