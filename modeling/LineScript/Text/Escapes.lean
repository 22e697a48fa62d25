import LineScript.Text.Basic

/-!
Backslash escapes of string and character literals.
-/

namespace LineScript
namespace Text

/-- The character that a backslash followed by this letter stands for. -/
def escaped? : Char → Option Char
  | 'n' => some '\n'
  | 't' => some '\t'
  | 'r' => some '\r'
  | '0' => some '\x00'
  | '\\' => some '\\'
  | '"' => some '"'
  | '\'' => some '\''
  | _ => none

/-- The text with its escapes resolved.  A backslash before any other character,
or at the end, stays as it is. -/
def unescape : Text → Text
  | [] => []
  | '\\' :: letter :: rest =>
      match escaped? letter with
      | some character => character :: unescape rest
      | none => '\\' :: letter :: unescape rest
  | character :: rest => character :: unescape rest

end Text
end LineScript
