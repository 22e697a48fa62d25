import LineScript.Host
import LineScript.Text.Bytes

/-!
Commands that a script can run on the host.  A command is a program name with
arguments; what it prints comes back line by line.
-/

namespace LineScript

/-- What came of a command: the lines it printed, and the failure that kept it
from starting or cut its output short. -/
structure CommandRun where
  lines : List Text
  failure : Option HostFailure
deriving DecidableEq

abbrev Commands := (program : Text) → (arguments : List Text) → CommandRun

namespace CommandRun

def refused (failure : HostFailure) : CommandRun :=
  { lines := [], failure := some failure }

/-- The pieces of an output that line feeds end: the first one and the others;
the last piece is not ended. -/
def segments : List UInt8 → List UInt8 × List (List UInt8)
  | [] => ([], [])
  | byte :: rest =>
      let (first, others) := segments rest
      if byte = 10 then ([], first :: others) else (byte :: first, others)

/-- An ended line without the carriage return before its line feed. -/
def dropReturn (line : List UInt8) : List UInt8 :=
  if line.getLast? = some 13 then line.dropLast else line

/-- The lines of an output.  What follows the last line feed is a line only if
it is not empty. -/
def byteLines (output : List UInt8) : List (List UInt8) :=
  let rec close : List (List UInt8) → List (List UInt8)
    | [] => []
    | [last] => if last.isEmpty then [] else [last]
    | line :: next :: later => dropReturn line :: close (next :: later)
  let (first, others) := segments output
  close (first :: others)

/-- Reads an output line by line, up to the first line that is not UTF-8. -/
def ofOutput (output : List UInt8) : CommandRun :=
  let rec collect : List (List UInt8) → CommandRun
    | [] => { lines := [], failure := none }
    | line :: later =>
        match Text.ofBytes? line with
        | none => .refused .invalidUtf8
        | some text =>
            let rest := collect later
            { rest with lines := text :: rest.lines }
  collect (byteLines output)

end CommandRun
end LineScript
