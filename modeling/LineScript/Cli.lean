import LineScript.Cli.Options
import LineScript.Path
import LineScript.Cli.Usage
import LineScript.Run

/-!
The command line: what the arguments ask for, and what the program then writes.
-/

namespace LineScript
namespace Cli

open Text

structure Result where
  exit : Nat
  stdout : Text
  stderr : Text
deriving DecidableEq

namespace Result

def printed (text : Text) : Result :=
  { exit := 0, stdout := text, stderr := [] }

def failed (text : Text) : Result :=
  { exit := 1, stdout := [], stderr := text }

end Result

def complaint (fault : CliFault) : Text :=
  "error: ".toList ++ fault.message ++ ['\n']

def runUsage : Text :=
  "Usage: msc run <file.mus> [--assign=shadow|enclosing] [--max-depth=N]\n".toList

/-- What the arguments ask for: a result that is known at once, or the run of a
file. -/
inductive Plan
  | finished (result : Result)
  | runFile (options : RunOptions) (path : Text)

def planRun (arguments : List Text) : Plan :=
  match RunOptions.read arguments with
  | .error fault => .finished (.failed (complaint fault))
  | .ok options =>
      match options.path with
      | none => .finished (.failed (complaint .missingPath ++ runUsage))
      | some path =>
          if Path.isScript path then
            .runFile options path
          else
            .finished (.failed (complaint (.notScript path)))

def isWord (words : List String) (argument : Text) : Bool :=
  words.any fun word => word.toList == argument

def plan (coloured : Bool) : List Text → Plan
  | [] => .finished (.printed (Usage.help coloured))
  | command :: arguments =>
      if isWord ["run"] command then
        planRun arguments
      else if isWord ["help", "--help", "-h"] command then
        .finished (.printed (Usage.help coloured))
      else if isWord ["version", "--version", "-V"] command then
        .finished (.printed (Usage.version coloured ++ ['\n']))
      else if isWord ["about"] command then
        .finished (.printed (Usage.about coloured ++ ['\n']))
      else if !startsWith ['-'] command && (Path.extension? command).isSome then
        planRun (command :: arguments)
      else
        .finished (.failed
          ("Unknown command: ".toList ++ command ++ "\n\n".toList ++
            Usage.usage false))

def runContent (commands : Commands) (options : RunOptions) (path : Text)
    (content : Except HostFailure Text) : Result :=
  match content with
  | .error failure => .failed (complaint (.unreadable path failure))
  | .ok source =>
      match runSource (options.settings commands) source with
      | .error fault => .failed (complaint (.source fault))
      | .ok (summary, session) =>
          { exit := if summary.success then 0 else 1
            stdout := session.output
            stderr := session.reportText }

/-- The result for arguments, with `read` giving the content of files. -/
def result (commands : Commands) (coloured : Bool)
    (read : Text → Except HostFailure Text) (arguments : List Text) : Result :=
  match plan coloured arguments with
  | .finished known => known
  | .runFile options path => runContent commands options path (read path)

end Cli
end LineScript
