import LineScript.Command.Escape
import LineScript.Number.Shortest

/-!
The command `printf` of the stand-in for a host: a format with escapes and
conversions, used again as long as arguments are left.
-/

namespace LineScript
namespace Command
namespace Printf

/-- A width or a precision: written out, or taken from the next argument. -/
inductive Measure
  | absent
  | fixed (value : Nat)
  | argument
deriving DecidableEq

structure Conversion where
  flags : List Char
  width : Measure
  precision : Measure
  letter : Char
deriving DecidableEq

inductive Part
  | output (output : Output)
  | conversion (conversion : Conversion)
deriving DecidableEq

def isFlag (character : Char) : Bool :=
  character == '-' || character == '+' || character == ' ' ||
    character == '0' ||
    character == '#' || character == '\''

def isLength (character : Char) : Bool :=
  character == 'l' || character == 'L' || character == 'h' ||
    character == 'j' ||
    character == 't' || character == 'z'

def isConversion (character : Char) : Bool :=
  "diouxXcs".toList.contains character

def allows (letter flag : Char) : Bool :=
  match flag with
  | '\'' => "diu".toList.contains letter
  | '#' => "oxX".toList.contains letter
  | '0' => "diouxX".toList.contains letter
  | _ => true

def decimal? (character : Char) : Option Nat :=
  if Text.isDigit character then some (character.toNat - '0'.toNat) else none

def readMeasure : Text → Measure × Text
  | '*' :: rest => (.argument, rest)
  | character :: rest =>
      if Text.isDigit character then
        (.fixed (spanDigits decimal? 10 9 0 (character :: rest)).1,
          (character :: rest).dropWhile Text.isDigit)
      else
        (.absent, character :: rest)
  | [] => (.absent, [])

/-- A conversion with flags and measures, its percent sign just before the
text. -/
def readMeasured (text : Text) : Option (Conversion × Text) :=
  let flags := text.takeWhile isFlag
  let (width, afterWidth) := readMeasure (text.dropWhile isFlag)
  let (precision, afterPrecision) :=
    match afterWidth with
    | '.' :: rest =>
        match readMeasure rest with
        | (.absent, after) => (Measure.fixed 0, after)
        | read => read
    | _ => (Measure.absent, afterWidth)
  match afterPrecision.dropWhile isLength with
  | letter :: rest =>
      if isConversion letter && flags.all (allows letter) &&
          (letter != 'c' || precision = .absent) then
        some ({ flags := flags, width := width, precision :=
          precision, letter := letter }, rest)
      else
        none
  | [] => none

/-- The conversion whose percent sign stands just before the text.  Escapes in
an argument are converted without flags and measures. -/
def readConversion : Text → Option (Conversion × Text)
  | 'b' :: rest =>
      some ({ flags := [], width := .absent, precision := .absent, letter :=
        'b' }, rest)
  | text => readMeasured text

/-- The escape whose backslash stands just before the text.  An argument writes
octal escapes with a leading zero. -/
def readEscape (leadingZero : Bool) (text : Text) : Output × Text :=
  match text with
  | [] => (.bytes (byte 92), [])
  | 'c' :: rest => (.stop, rest)
  | '"' :: rest => (.bytes (byte 34), rest)
  | 'x' :: rest =>
      let spanned := spanDigits hexadecimal? 16 2 0 rest
      if spanned.2.length = rest.length then
        (.stop, rest)
      else
        (.bytes (byte spanned.1), spanned.2)
  | character :: rest =>
      match octal? character with
      | some _ =>
          let digits :=
            if leadingZero && character == '0' then rest else character :: rest
          let spanned := spanDigits octal? 8 3 0 digits
          (.bytes (byte spanned.1), spanned.2)
      | none =>
          match control? character with
          | some value => (.bytes (byte value), rest)
          | none => (.bytes (Text.toBytes ['\\', character]), rest)

/-- The parts of a format, at most `limit` of them. -/
def readParts : (limit : Nat) → Text → List Part
  | 0, _ => []
  | _, [] => []
  | limit + 1, '\\' :: rest =>
      let (output, after) := readEscape false rest
      .output output :: readParts limit after
  | limit + 1, '%' :: '%' :: rest =>
      .output (.bytes (byte 37)) :: readParts limit rest
  | limit + 1, '%' :: rest =>
      match readConversion rest with
      | some (conversion, after) =>
          .conversion conversion :: readParts limit after
      | none => [.output .stop]
  | limit + 1, character :: rest =>
      .output (.bytes (Text.toBytes [character])) :: readParts limit rest

/-- The output for an argument of `%b`, at most `limit` parts of it. -/
def escapedParts : (limit : Nat) → Text → List Output
  | 0, _ => []
  | _, [] => []
  | limit + 1, '\\' :: rest =>
      let (output, after) := readEscape true rest
      output :: escapedParts limit after
  | limit + 1, character :: rest =>
      .bytes (Text.toBytes [character]) :: escapedParts limit rest

/-- The integer at the start of an argument: with a sign, decimal, octal after
`0` or hexadecimal after `0x`, or the code of a character after a quote. -/
def integer (text : Text) : Int :=
  let magnitude (digits : Text) : Nat :=
    match digits with
    | '0' :: 'x' :: rest => (spanDigits hexadecimal? 16 rest.length 0 rest).1
    | '0' :: 'X' :: rest => (spanDigits hexadecimal? 16 rest.length 0 rest).1
    | '0' :: rest => (spanDigits octal? 8 rest.length 0 rest).1
    | other => (spanDigits decimal? 10 other.length 0 other).1
  match text with
  | '\'' :: character :: _ => character.toNat
  | '"' :: character :: _ => character.toNat
  | '-' :: rest => -(magnitude rest : Int)
  | '+' :: rest => magnitude rest
  | other => magnitude other

def digitsIn (base number : Nat) (upper : Bool) : Text :=
  let digits := Nat.toDigits base number
  if upper then digits.map Char.toUpper else digits

/-- Fills a field up to its width, on the left unless the flags say
otherwise. -/
def pad (flags : List Char) (width : Nat) (content : List UInt8) : List UInt8 :=
  let blanks := List.replicate (width - content.length) (32 : UInt8)
  if flags.contains '-' then content ++ blanks else blanks ++ content

/-- A number with its sign or mark and at least as many digits as its precision
asks for. -/
def padNumber (flags : List Char) (width : Nat) (precision : Option Nat)
    (mark digits : Text) : List UInt8 :=
  let shown :=
    match precision with
    | some 0 => if digits == ['0'] then [] else digits
    | _ => digits
  let least := precision.getD 1
  let figures := List.replicate (least - shown.length) '0' ++ shown
  let filled :=
    if flags.contains '0' && !flags.contains '-' && precision.isNone then
      List.replicate (width - mark.length - figures.length) '0' ++ figures
    else
      figures
  pad flags width (Text.toBytes (mark ++ filled))

def signed
    (flags : List Char) (width : Nat) (precision : Option Nat) (text : Text) :
    List UInt8 :=
  let number :=
    max (-0x8000000000000000) (min 0x7fffffffffffffff (integer text))
  let mark :=
    if number < 0 then ['-']
    else if flags.contains '+' then ['+']
    else if flags.contains ' ' then [' ']
    else []
  padNumber flags width precision mark (Decimal.digits number.natAbs)

/-- An unsigned number in the base of its letter, modulo the range of 64
bits. -/
def unsigned (flags : List Char) (width : Nat) (precision : Option Nat)
    (letter : Char)
    (text : Text) : List UInt8 :=
  let number :=
    (min 0xffffffffffffffff (integer text) % 0x10000000000000000).toNat
  let marked := flags.contains '#' && number != 0
  match letter with
  | 'o' =>
      padNumber flags width precision []
        ((if marked then ['0'] else []) ++ digitsIn 8 number false)
  | 'x' =>
      padNumber flags width precision (if marked then "0x".toList else [])
        (digitsIn 16 number false)
  | 'X' =>
      padNumber flags width precision (if marked then "0X".toList else [])
        (digitsIn 16 number true)
  | _ => padNumber flags width precision [] (Decimal.digits number)

/-- The output of a conversion with its width and precision settled. -/
def convert (conversion : Conversion) (flags : List Char) (width : Nat)
    (precision : Option Nat) (text : Text) : List Output :=
  let clip (content : List UInt8) : List UInt8 :=
    match precision with
    | some length => content.take length
    | none => content
  match conversion.letter with
  | 's' => [.bytes (pad flags width (clip (Text.toBytes text)))]
  | 'c' => [.bytes (pad flags width ((Text.toBytes text).take 1 ++
      (if text.isEmpty then byte 0 else [])))]
  | 'b' =>
      let (content, stopped) := settle (escapedParts text.length text)
      .bytes (pad flags width (clip content)) ::
        (if stopped then [.stop] else [])
  | 'd' => [.bytes (signed flags width precision text)]
  | 'i' => [.bytes (signed flags width precision text)]
  | letter => [.bytes (unsigned flags width precision letter text)]

/-! ## Running a format -/

def next : List Text → Text × List Text
  | [] => ([], [])
  | argument :: rest => (argument, rest)

def settleMeasure (measure : Measure) (arguments : List Text) :
    Option Int × List Text :=
  match measure with
  | .absent => (none, arguments)
  | .fixed value => (some value, arguments)
  | .argument =>
      let (text, rest) := next arguments
      (some (integer text), rest)

/-- One pass over the parts of a format: the output and the arguments left. -/
def runParts : List Part → List Text → List Output × List Text
  | [], arguments => ([], arguments)
  | .output output :: later, arguments =>
      let (rest, left) := runParts later arguments
      (output :: rest, left)
  | .conversion conversion :: later, arguments =>
      let (width?, afterWidth) := settleMeasure conversion.width arguments
      let (precision?, afterPrecision) :=
        settleMeasure conversion.precision afterWidth
      let (text, afterText) := next afterPrecision
      let width := width?.getD 0
      let flags :=
        if width < 0 then '-' :: conversion.flags else conversion.flags
      let precision := (precision?.filter (0 ≤ ·)).map Int.toNat
      let (rest, left) := runParts later afterText
      (convert conversion flags width.natAbs precision text ++ rest, left)

/-- Runs a format again and again while arguments are left and some are used. -/
def passes (parts : List Part) : (limit : Nat) → List Text → List Output
  | 0, _ => []
  | limit + 1, arguments =>
      let (output, left) := runParts parts arguments
      if left.isEmpty || left.length == arguments.length then
        output
      else
        output ++ passes parts limit left

def formatted : List Text → List UInt8
  | [] => []
  | format :: arguments =>
      (settle (passes (readParts format.length format) (arguments.length + 1) arguments)).1

/-- The bytes that `printf` prints.  Two dashes before the format are passed
over. -/
def output : List Text → List UInt8
  | ['-', '-'] :: words => formatted words
  | words => formatted words

end Printf
end Command
end LineScript
