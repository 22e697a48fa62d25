import LineScript.Command

/-!
What stays fixed while a session runs.
-/

namespace LineScript

/-- Where an assignment writes: always into the scope it stands in, or into the
nearest scope that binds the name already. -/
inductive AssignmentMode
  | shadow
  | enclosing
deriving DecidableEq

namespace AssignmentMode

def text : AssignmentMode → Text
  | shadow => "shadow".toList
  | enclosing => "enclosing".toList

def ofText? (word : Text) : Option AssignmentMode :=
  [shadow, enclosing].find? fun mode => mode.text == word

def unknownMessage (word : Text) : Text :=
  "unknown assignment mode `".toList ++ word ++
    "` (expected `shadow` or `enclosing`)".toList

end AssignmentMode

def defaultCallLimit : Nat := 1024

/-- The rules of a session and the host it runs on. -/
structure Settings where
  assignment : AssignmentMode
  callLimit : Nat
  commands : Commands

end LineScript
