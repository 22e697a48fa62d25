import LineScript.Number.Reading
import LineScript.Settings
import LineScript.SourceFault

/-!
The arguments of a run, and what keeps a run from starting.
-/

namespace LineScript

open Text

inductive CliFault
  | unreadable (path : Text) (failure : HostFailure)
  | notScript (path : Text)
  | source (fault : SourceFault)
  | unknownOption (argument : Text)
  | invalidOption (option message : Text)
  | missingPath
deriving DecidableEq

namespace CliFault

def message : CliFault → Text
  | unreadable path failure =>
      "cannot read ".toList ++ quoted path ++ ": ".toList ++ failure.message
  | notScript path =>
      quoted path ++
        " is not a MicroScript file (expected .microscript, .mus or .micros)".toList
  | source fault => fault.message
  | unknownOption argument => "unknown option ".toList ++ quoted argument
  | invalidOption option message =>
      "invalid value for ".toList ++ quoted option ++ ": ".toList ++ message
  | missingPath => "missing file path".toList

end CliFault

structure RunOptions where
  assignment : AssignmentMode
  callLimit : Nat
  path : Option Text
deriving DecidableEq

namespace RunOptions

def default : RunOptions :=
  { assignment := .shadow, callLimit := defaultCallLimit, path := none }

/-- The bound on the numbers that options hold: they fit into 64 bits. -/
def numberBound : Nat := 0x10000000000000000

/-- A limit on nested calls: a positive number. -/
def readLimit (source : Text) : Except CliFault Nat :=
  match (Decimal.readNatural? numberBound source).filter (0 < ·) with
  | some limit => .ok limit
  | none =>
      .error (.invalidOption "--max-depth".toList
        ("expected a positive integer, got ".toList ++ quoted source))

def readMode (source : Text) : Except CliFault AssignmentMode :=
  match AssignmentMode.ofText? source with
  | some mode => .ok mode
  | none =>
      .error (.invalidOption "--assign".toList (AssignmentMode.unknownMessage source))

def add (options : RunOptions) (argument : Text) : Except CliFault RunOptions :=
  match dropStart? "--assign=".toList argument with
  | some source => (readMode source).map fun mode =>
      { options with assignment := mode }
  | none =>
  match dropStart? "--max-depth=".toList argument with
  | some source => (readLimit source).map fun limit =>
      { options with callLimit := limit }
  | none =>
      if startsWith ['-'] argument || options.path.isSome then
        .error (.unknownOption argument)
      else
        .ok { options with path := some argument }

def read (arguments : List Text) : Except CliFault RunOptions :=
  arguments.foldlM add default

def settings (options : RunOptions) (commands : Commands) : Settings :=
  { assignment := options.assignment
    callLimit := options.callLimit
    commands := commands }

end RunOptions
end LineScript
