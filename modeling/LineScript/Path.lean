import LineScript.Text.Basic

/-!
Paths of files and their extensions.
-/

namespace LineScript
namespace Path

open Text

/-- Whether a component stays where it is: nothing between two slashes, or one
dot. -/
def staysHere (component : Text) : Bool :=
  component.isEmpty || component == ".".toList

def leadsOut (component : Text) : Bool :=
  component == "..".toList

/-- The components of a path that lead somewhere. -/
def components (path : Text) : List Text :=
  (splitOn '/' path).filter fun component => !staysHere component

def fileName? (path : Text) : Option Text :=
  (components path).getLast?.filter fun component => !leadsOut component

/-- What follows the last dot of a file name, unless that dot is its first
character. -/
def extensionOf? (name : Text) : Option Text :=
  match cut '.' name.reverse with
  | none => none
  | some (reversed, before) =>
      if before.isEmpty then none else some reversed.reverse

def extension? (path : Text) : Option Text :=
  (fileName? path).bind extensionOf?

def scriptExtensions : List Text :=
  ["microscript", "mus", "micros"].map String.toList

def isScript (path : Text) : Bool :=
  (extension? path).any scriptExtensions.contains

end Path
end LineScript
