import LineScript.Host
import LineScript.Path
import LineScript.Text.Bytes

/-!
A directory tree held in memory, and reading files from it.
-/

namespace LineScript

open Text

inductive DirectoryEntry
  | file (content : List UInt8)
  | directory
deriving DecidableEq

/-- A tree, given by the paths of its entries from the working directory. -/
structure Directory where
  entries : List (List Text × DirectoryEntry)

namespace Directory

def ofPaths (entries : List (Text × DirectoryEntry)) : Directory :=
  { entries := entries.map fun (path, entry) => (Path.components path, entry) }

/-- What the components lead to.  The directories around an entry are there
too. -/
def entry? (tree : Directory) (location : List Text) : Option DirectoryEntry :=
  match tree.entries.lookup location with
  | some entry => some entry
  | none =>
      if location.isEmpty || tree.entries.any fun (path, _) =>
        location.isPrefixOf path then
        some .directory
      else
        none

/-- Follows a path from a location, given with its innermost component first;
no location is one outside the tree. -/
def walk (tree : Directory) :
    Option (List Text) → List Text → Except HostFailure (Option (List Text))
  | location, [] => .ok location
  | none, component :: later =>
      if Path.staysHere component || Path.leadsOut component then
        walk tree none later
      else
        .error .notFound
  | some reached, component :: later =>
      match tree.entry? reached.reverse with
      | none => .error .notFound
      | some (.file _) => .error .notDirectory
      | some .directory =>
          if Path.staysHere component then
            walk tree (some reached) later
          else if Path.leadsOut component then
            match reached with
            | [] => walk tree none later
            | _ :: outer => walk tree (some outer) later
          else
            walk tree (some (component :: reached)) later

def readBytes (tree : Directory) (path : Text) :
    Except HostFailure (List UInt8) :=
  match walk tree (if startsWith ['/'] path then none else some [])
    (splitOn '/' path) with
  | .error failure => .error failure
  | .ok none => .error .isDirectory
  | .ok (some reached) =>
      match tree.entry? reached.reverse with
      | none => .error .notFound
      | some .directory => .error .isDirectory
      | some (.file content) => .ok content

def decode (content : List UInt8) : Except HostFailure Text :=
  match Text.ofBytes? content with
  | some text => .ok text
  | none => .error .invalidUtf8

def readText (tree : Directory) (path : Text) : Except HostFailure Text :=
  (tree.readBytes path).bind decode

end Directory
end LineScript
