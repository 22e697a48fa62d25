import LineScript.Macro.Lexeme
import LineScript.Table
import LineScript.Text.TopLevel

/-!
Macros and their expansion.  A line is expanded pass by pass until it stays the
same, at most ten times; literals are never touched.
-/

namespace LineScript
namespace Macro

open Text

structure FunctionMacro where
  parameters : List Text
  body : Text
deriving DecidableEq

/-- The macros without and with parameters.  One name may have both kinds. -/
structure Macros where
  objects : Table Text
  functions : Table FunctionMacro
deriving DecidableEq

namespace Macros

def empty : Macros :=
  { objects := [], functions := [] }

def defineObject (macros : Macros) (name value : Text) : Macros :=
  { macros with objects := macros.objects.set name value }

def defineFunction (macros : Macros) (name : Text)
    (definition : FunctionMacro) : Macros :=
  { macros with functions := macros.functions.set name definition }

/-- Forgets a name, whichever kind of macro it is. -/
def undefine (macros : Macros) (name : Text) : Macros :=
  { objects := macros.objects.erase name, functions :=
    macros.functions.erase name }

end Macros

/-- The argument of the first parameter of a name. -/
def argument? (name : Text) : (parameters arguments : List Text) → Option Text
  | parameter :: parameters, argument :: arguments =>
      if parameter = name then
        some argument
      else
        argument? name parameters arguments
  | _, _ => none

def substituteLexeme (parameters arguments : List Text) : Lexeme → Text
  | .word name => (argument? name parameters arguments).getD name
  | lexeme => lexeme.text

/-- A macro body with its parameters replaced by arguments, all at once. -/
def substitute (body : Text) (parameters arguments : List Text) : Text :=
  (lexemes false body).flatMap (substituteLexeme parameters arguments)

/-- The expansion of a macro call, and what follows the call, for the text after
the name of the macro. -/
def callExpansion? (definition : FunctionMacro) (fromParen : Text) :
    Option (Text × Text) :=
  match closeParen fromParen with
  | none => none
  | some (opened, after) =>
      let arguments := splitTopLevel ',' (opened.drop 1)
      if arguments.length = definition.parameters.length then
        some (substitute definition.body definition.parameters arguments, after)
      else
        none

/-- The expansion of a name, and what follows the replaced text.  A macro with
parameters comes first if a bracket follows the name. -/
def expansion? (macros : Macros) (name after : Text) : Option (Text × Text) :=
  match macros.functions.get? name, trimStart after with
  | some definition, '(' :: rest => callExpansion? definition ('(' :: rest)
  | _, _ => (macros.objects.get? name).map fun value => (value, after)

theorem length_of_callExpansion?
    {definition : FunctionMacro} {fromParen expansion rest : Text}
    (found : callExpansion? definition fromParen = some (expansion, rest)) :
    rest.length ≤ fromParen.length := by
  unfold callExpansion? at found
  split at found
  · simp at found
  · next opened after closed =>
      have lengths := length_of_closeParenFrom closed
      dsimp only at found
      split at found
      · simp only [Option.some.injEq, Prod.mk.injEq] at found
        obtain ⟨-, rfl⟩ := found
        omega
      · simp at found

theorem length_of_expansion?
    {macros : Macros} {name after expansion rest : Text}
    (found : expansion? macros name after = some (expansion, rest)) :
    rest.length ≤ after.length := by
  unfold expansion? at found
  split at found
  · next definition inner _ trimmed =>
      have shorter := length_of_callExpansion? found
      have trimmedLength := length_trimStart_le after
      rw [trimmed] at trimmedLength
      omega
  · simp only [Option.map_eq_some_iff, Prod.mk.injEq] at found
    obtain ⟨_, -, -, rfl⟩ := found
    exact Nat.le_refl _

/-- One pass over a line, from left to right.  Replaced text is not looked at
again. -/
def expandOnce (macros : Macros) : Text → Text
  | [] => []
  | character :: rest =>
      match _scanned : Lexeme.next true character rest with
      | (.word name, after) =>
          match _found : expansion? macros name after with
          | some (expansion, remaining) =>
              expansion ++ expandOnce macros remaining
          | none => name ++ expandOnce macros after
      | (lexeme, after) => lexeme.text ++ expandOnce macros after
termination_by line => line.length
decreasing_by
  all_goals
    have shorter := Lexeme.length_next_le true character rest
    rw [_scanned] at shorter
    dsimp only at shorter
    simp only [List.length_cons]
  · have further := length_of_expansion? _found
    omega
  · omega
  · omega

def maxPasses : Nat := 10

/-- Passes over a line until it stays the same, at most `passes` of them. -/
def expandPasses (macros : Macros) : (passes : Nat) → Text → Text
  | 0, line => line
  | passes + 1, line =>
      let expanded := expandOnce macros line
      if expanded = line then line else expandPasses macros passes expanded

def expand (macros : Macros) (line : Text) : Text :=
  expandPasses macros maxPasses line

end Macro
end LineScript
