import LineScript.Command.Echo
import LineScript.Command.Printf
import LineScript.Path

/-!
A stand-in for the host in tests.  Which commands there are is not up to the
interpreter, which takes any `Commands`; this one has `echo`, `printf`, `true`
and `false`, as a common host has them, and a few directories and files.
-/

namespace LineScript
namespace Command

def directories : List Text :=
  ["bin", "boot", "dev", "etc", "home", "lib", "media", "mnt", "opt", "proc",
    "root", "run",
    "sbin", "srv", "sys", "tmp", "usr", "usr/bin", "usr/include", "usr/lib",
      "usr/local",
    "usr/local/bin", "usr/sbin", "usr/share", "usr/src", "var", "var/cache",
      "var/lib",
    "var/log", "var/tmp"].map String.toList

def plainFiles : List Text :=
  ["dev/null", "dev/zero", "etc/group", "etc/hostname", "etc/hosts",
    "etc/passwd",
    "etc/resolv.conf", "etc/shadow"].map String.toList

def program? : Text → Option (List Text → List UInt8)
  | ['e', 'c', 'h', 'o'] => some Echo.output
  | ['p', 'r', 'i', 'n', 't', 'f'] => some Printf.output
  | ['t', 'r', 'u', 'e'] => some fun _ => []
  | ['f', 'a', 'l', 's', 'e'] => some fun _ => []
  | _ => none

def joinPath : List Text → Text
  | [] => []
  | [last] => last
  | first :: second :: rest => first ++ '/' :: joinPath (second :: rest)

def programAt? (path : Text) : Option Text :=
  match Path.components path with
  | [directory, name] => if directory = "bin".toList then some name else none
  | [parent, directory, name] =>
      if parent = "usr".toList ∧ directory = "bin".toList then
        some name
      else
        none
  | _ => none

/-- Why a path from the root that is no program cannot be run. -/
def rootedFailure (names : List Text) : HostFailure :=
  let isFile (outer : List Text) : Bool := plainFiles.contains (joinPath outer)
  if names.isEmpty || directories.contains (joinPath names) || isFile names then
    .permissionDenied
  else if (List.range names.length).any fun length =>
    isFile (names.take length) then
    .notDirectory
  else
    .notFound

/-- Why a path that is no program cannot be run.  The working directory holds
nothing. -/
def pathFailure (path : Text) : HostFailure :=
  let names := Path.components path
  if Text.startsWith ['/'] path then rootedFailure names
  else if names.all Path.leadsOut then .permissionDenied
  else .notFound

def standard : Commands := fun name arguments =>
  if (name :: arguments).any fun word => word.contains '\x00' then
    .refused .nulByte
  else if name.contains '/' then
    match (if Text.startsWith ['/'] name then programAt? name else none).bind
      program? with
    | some output => .ofOutput (output arguments)
    | none => .refused (pathFailure name)
  else
    match program? name with
    | some output => .ofOutput (output arguments)
    | none =>
        .refused
          (if name = ".".toList ∨
            name = "..".toList then .permissionDenied else .notFound)

end Command
end LineScript
