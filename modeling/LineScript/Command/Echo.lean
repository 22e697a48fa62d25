import LineScript.Command.Escape

/-!
The command `echo` of the stand-in for a host: its arguments with blanks between
them, and a line feed.
-/

namespace LineScript
namespace Command
namespace Echo

structure Options where
  newline : Bool
  escapes : Bool
deriving DecidableEq

def option? (options : Options) : Text → Option Options
  | '-' :: letter :: letters =>
      (letter :: letters).foldlM
        (fun options letter =>
          match letter with
          | 'n' => some { options with newline := false }
          | 'e' => some { options with escapes := true }
          | 'E' => some { options with escapes := false }
          | _ => none)
        options
  | _ => none

def readOptions (options : Options) : List Text → Options × List Text
  | [] => (options, [])
  | argument :: rest =>
      match option? options argument with
      | some changed => readOptions changed rest
      | none => (options, argument :: rest)

def escaped : Text → List Output
  | [] => []
  | '\\' :: 'c' :: _ => [.stop]
  | '\\' :: 'x' :: rest =>
      let spanned := spanDigits hexadecimal? 16 2 0 rest
      if spanned.2.length = rest.length then
        .bytes (Text.toBytes ['\\', 'x']) :: escaped rest
      else
        .bytes (byte spanned.1) :: escaped spanned.2
  | '\\' :: '0' :: rest =>
      let spanned := spanDigits octal? 8 3 0 rest
      .bytes (byte spanned.1) :: escaped spanned.2
  | '\\' :: character :: rest =>
      match control? character with
      | some value => .bytes (byte value) :: escaped rest
      | none =>
          match octal? character with
          | some first =>
              let spanned := spanDigits octal? 8 2 first rest
              .bytes (byte spanned.1) :: escaped spanned.2
          | none => .bytes (Text.toBytes ['\\', character]) :: escaped rest
  | character :: rest => .bytes (Text.toBytes [character]) :: escaped rest
termination_by text => text.length
decreasing_by
  all_goals
    have bound := length_spanDigits_le
    grind

def argument (options : Options) (text : Text) : List Output :=
  if options.escapes then escaped text else [.bytes (Text.toBytes text)]

def joined (options : Options) : List Text → List Output
  | [] => []
  | [last] => argument options last
  | first :: second :: rest =>
      argument options first ++ .bytes (byte 32) ::
        joined options (second :: rest)

def output (arguments : List Text) : List UInt8 :=
  let (options, words) :=
    readOptions { newline := true, escapes := false } arguments
  let ending := if options.newline then [Output.bytes (byte 10)] else []
  (settle (joined options words ++ ending)).1

end Echo
end Command
end LineScript
