import LineScript.Arithmetic.Token
import LineScript.Fault
import LineScript.Number.Reading

/-!
Arithmetic over doubles.  From loose to tight: sums, products and remainders,
signs, powers.  Operators of one level associate to the left, powers included;
an exponent may carry signs.  A name before a bracket only groups.

The evaluation reads the tokens once from left to right and keeps what is still
open on a stack of frames, so the first fault in reading order is the one that
is reported.
-/

namespace LineScript
namespace Arithmetic

inductive Operator
  | add
  | subtract
  | multiply
  | divide
  | modulo
deriving DecidableEq

namespace Operator

def apply : Operator → Float → Float → Float
  | add, left, right => left + right
  | subtract, left, right => left - right
  | multiply, left, right => left * right
  | divide, left, right => left / right
  | modulo, left, right => remainder left right

def ofSum? : Char → Option Operator
  | '+' => some add
  | '-' => some subtract
  | _ => none

def ofProduct? : Char → Option Operator
  | '*' => some multiply
  | '/' => some divide
  | '%' => some modulo
  | _ => none

end Operator

def power (base exponent : Float) : Float :=
  Float.pow base exponent

/-- Something that waits for the value of what follows it. -/
inductive Frame
  | sum (left : Float) (operator : Operator)
  | product (left : Float) (operator : Operator)
  | negative
  | power (base : Float)
  | negativeExponent
  | group

/-- Uses the value of an atom: exponents take it at once. -/
def closeAtom : List Frame → Float → List Frame × Float
  | .negativeExponent :: frames, value => closeAtom frames (-value)
  | .power base :: frames, value => (frames, Arithmetic.power base value)
  | frames, value => (frames, value)

/-- Uses the value of a power: the signs before it take it. -/
def closeFactor : List Frame → Float → List Frame × Float
  | .negative :: frames, value => closeFactor frames (-value)
  | frames, value => (frames, value)

/-- Uses the value of a factor: a product before it takes it. -/
def closeTerm (frames : List Frame) (value : Float) : List Frame × Float :=
  match closeFactor frames value with
  | (.product left operator :: rest, factor) =>
      (rest, operator.apply left factor)
  | closed => closed

/-- Uses the value of a term: a sum before it takes it. -/
def closeSum (frames : List Frame) (value : Float) : List Frame × Float :=
  match closeTerm frames value with
  | (.sum left operator :: rest, term) => (rest, operator.apply left term)
  | closed => closed

/-- A minus sign before an operand: in an exponent it binds to the next atom,
elsewhere to the next power. -/
def openSign : List Frame → List Frame
  | .power base :: frames => .negativeExponent :: .power base :: frames
  | .negativeExponent :: frames =>
      .negativeExponent :: .negativeExponent :: frames
  | frames => .negative :: frames

def inGroup (frames : List Frame) : Bool :=
  frames.any fun frame =>
    match frame with
    | .group => true
    | _ => false

def stray (source : Text) (frames : List Frame) (token : Token) : Fault :=
  if inGroup frames then
    .malformed (.missingParen source)
  else
    .malformed (.unexpectedCharacter token.head source)

/-- Reads the tokens with the frames open.  With no value an operand is
expected, with a value an operator, a closing bracket or the end. -/
def run (lookup : Text → Except Fault Float) (source : Text) :
    List Frame → Option Float → List Token → Except Fault Float
  | _, none, [] => .error (.malformed (.unexpectedEnd source))
  | frames, none, .number first rest :: later =>
      match Decimal.readDouble? (first :: rest) with
      | none => .error (.malformed (.number (first :: rest)))
      | some number =>
          let (pending, value) := closeAtom frames number
          run lookup source pending (some value) later
  | frames, none, .name _ _ :: .symbol '(' :: later =>
      run lookup source (.group :: frames) none later
  | frames, none, .name first rest :: later =>
      match lookup (first :: rest) with
      | .error fault => .error fault
      | .ok number =>
          let (pending, value) := closeAtom frames number
          run lookup source pending (some value) later
  | frames, none, .symbol character :: later =>
      if character = '+' then
        run lookup source frames none later
      else if character = '-' then
        run lookup source (openSign frames) none later
      else if character = '(' then
        run lookup source (.group :: frames) none later
      else
        .error (.malformed (.unexpectedCharacter character source))
  | frames, some value, [] =>
      match closeSum frames value with
      | ([], total) => .ok total
      | (_ :: _, _) => .error (.malformed (.missingParen source))
  | frames, some value, .symbol character :: later =>
      if character = '^' then
        run lookup source (.power value :: frames) none later
      else if character = ')' then
        match closeSum frames value with
        | (.group :: outer, total) =>
            let (pending, closed) := closeAtom outer total
            run lookup source pending (some closed) later
        | _ => .error (.malformed (.unexpectedCharacter ')' source))
      else
        match Operator.ofProduct? character with
        | some operator =>
            let (pending, factor) := closeTerm frames value
            run lookup source (.product factor operator :: pending) none later
        | none =>
            match Operator.ofSum? character with
            | some operator =>
                let (pending, term) := closeSum frames value
                run lookup source (.sum term operator :: pending) none later
            | none => .error (stray source frames (.symbol character))
  | frames, some _, token :: _ => .error (stray source frames token)

/-- The value of an arithmetic expression whose names stand for what `lookup`
gives. -/
def evaluate (lookup : Text → Except Fault Float) (source : Text) :
    Except Fault Float :=
  run lookup source [] none (tokens source)

end Arithmetic
end LineScript
