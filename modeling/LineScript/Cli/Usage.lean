import LineScript.Text.Basic

/-!
The texts about the program itself.
-/

namespace LineScript
namespace Usage

inductive Colour
  | heading
  | item
  | link
deriving DecidableEq

namespace Colour

def code : Colour → Text
  | heading => "\x1b[1;32m".toList
  | item => "\x1b[1;34m".toList
  | link => "\x1b[1;38;5;208m".toList

def reset : Text := "\x1b[0m".toList

end Colour

def paint (coloured : Bool) (colour : Colour) (text : Text) : Text :=
  if coloured then colour.code ++ text ++ Colour.reset else text

def nameWidth : Nat := 22

def row (coloured : Bool) (name help : String) : Text :=
  let filled := name.toList ++ List.replicate (nameWidth - name.length) ' '
  "  ".toList ++ paint coloured .item filled ++ help.toList ++ ['\n']

def block (coloured : Bool) (heading : String) (rows : List (String × String)) :
    Text :=
  '\n' :: paint coloured .heading heading.toList ++
    '\n' :: rows.flatMap fun (name, help) => row coloured name help

def usage (coloured : Bool) : Text :=
  paint coloured .heading "Usage:".toList ++ ' ' ::
    paint coloured .item "msc <command> [options]".toList ++ ['\n'] ++
    block coloured "Commands:"
      [ ("run <file>", "Run a MicroScript file (.microscript, .mus, .micros)"),
        ("<file>", "Shorthand for `run <file>`"),
        ("about", "Show about information") ] ++
    block coloured "Options:"
      [ ("--help", "Show help information"),
        ("--version", "Show version information") ] ++
    block coloured "Run options:"
      [ ("--assign=<mode>", "shadow (default) or enclosing"),
        ("--max-depth=<n>", "Maximum nested calls (default 1024)") ] ++
    block coloured "Logging:"
      [ ("MSC_LOG=<filter>", "e.g. MSC_LOG=ms_eval=debug") ]

def projectPage : Text := "https://github.com/magayaga/microscript".toList

def help (coloured : Bool) : Text :=
  usage coloured ++ "\nFor more information, visit: ".toList ++
    paint coloured .link projectPage ++ ['\n']

def version (coloured : Bool) : Text :=
  paint coloured .item "MicroScript 0.1.0".toList

def about (coloured : Bool) : Text :=
  paint coloured .item "MicroScript - The programming language".toList ++
    "\nA small interpreted scripting language.\n".toList ++
      paint coloured .link projectPage

end Usage
end LineScript
