import LineScript.Fault

/-!
What can be wrong with the layout of a source.
-/

namespace LineScript

/-- A fault of a source, with the number of the line it was found on. -/
inductive SourceFault
  | directive (line : Nat) (text : Text)
  | unclosedBrace (line : Nat)
  | header (line : Nat) (text : Text)
  | parameter (line : Nat) (text : Text)
  | badType (line : Nat) (fault : Fault)
deriving DecidableEq

namespace SourceFault

def line : SourceFault → Nat
  | directive line _ => line
  | unclosedBrace line => line
  | header line _ => line
  | parameter line _ => line
  | badType line _ => line

def detail : SourceFault → Text
  | directive _ text => "malformed directive ".toList ++ quoted text
  | unclosedBrace _ => quoted ['{'] ++ " is never closed".toList
  | header _ text => "invalid function declaration ".toList ++ quoted text
  | parameter _ text =>
      "invalid parameter ".toList ++ quoted text ++
        " (expected `name: Type`)".toList
  | badType _ fault => fault.message

def message (fault : SourceFault) : Text :=
  "line ".toList ++ Decimal.digits fault.line ++ ": ".toList ++ fault.detail

end SourceFault
end LineScript
