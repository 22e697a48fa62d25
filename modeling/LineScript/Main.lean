import LineScript.Cli
import LineScript.Cli.Directory
import LineScript.Command.Standard

/-!
The program: reads a file and writes what came of it.
-/

namespace LineScript
namespace Cli

def failureOf : IO.Error → HostFailure
  | .noFileOrDirectory _ _ _ => .notFound
  | .permissionDenied _ _ _ => .permissionDenied
  | .inappropriateType _ code _ =>
      if code = 20 then .notDirectory else .isDirectory
  | error => .other (toString error).toList

def readHostFile (path : Text) : IO (Except HostFailure Text) := do
  match ← (IO.FS.readBinFile (String.ofList path)).toBaseIO with
  | .error error => pure (.error (failureOf error))
  | .ok content => pure (Directory.decode content.toList)

def perform (coloured : Bool) (arguments : List Text) : IO Result := do
  match plan coloured arguments with
  | .finished known => pure known
  | .runFile options path =>
      pure (runContent Command.standard options path (← readHostFile path))

end Cli
end LineScript

def main (arguments : List String) : IO UInt32 := do
  let stdout ← IO.getStdout
  let stderr ← IO.getStderr
  let result ← LineScript.Cli.perform (← stdout.isTty)
    (arguments.map String.toList)
  stdout.putStr (String.ofList result.stdout)
  stdout.flush
  stderr.putStr (String.ofList result.stderr)
  pure (UInt32.ofNat result.exit)
