import LineScript.Text.Basic

/-!
Failures of the system around the interpreter: files that cannot be read and
commands that cannot be run.
-/

namespace LineScript

inductive HostFailure
  | notFound
  | permissionDenied
  | notDirectory
  | isDirectory
  | invalidUtf8
  | nulByte
  | other (words : Text)
deriving DecidableEq

namespace HostFailure

def message : HostFailure → Text
  | notFound => "No such file or directory (os error 2)".toList
  | permissionDenied => "Permission denied (os error 13)".toList
  | notDirectory => "Not a directory (os error 20)".toList
  | isDirectory => "Is a directory (os error 21)".toList
  | invalidUtf8 => "stream did not contain valid UTF-8".toList
  | nulByte => "nul byte found in provided data".toList
  | other words => words

end HostFailure
end LineScript
