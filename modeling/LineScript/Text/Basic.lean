/-!
Texts as lists of characters: blank characters, trimming, names, and cutting at
a character.
-/

namespace LineScript

/-- A text is the list of its characters. -/
abbrev Text := List Char

namespace Text

/-- The characters with the Unicode property `White_Space`. -/
def isBlank (character : Char) : Bool :=
  let code := character.toNat
  (9 ≤ code && code ≤ 13) || code == 0x20 || code == 0x85 || code == 0xA0 ||
    code == 0x1680 || (0x2000 ≤ code && code ≤ 0x200A) || code == 0x2028 ||
    code == 0x2029 || code == 0x202F || code == 0x205F || code == 0x3000

def isLetter (character : Char) : Bool :=
  let code := character.toNat
  (0x41 ≤ code && code ≤ 0x5A) || (0x61 ≤ code && code ≤ 0x7A)

def isDigit (character : Char) : Bool :=
  let code := character.toNat
  0x30 ≤ code && code ≤ 0x39

def isNameStart (character : Char) : Bool :=
  isLetter character || character == '_'

def isNameChar (character : Char) : Bool :=
  isLetter character || isDigit character || character == '_'

def trimStart (text : Text) : Text :=
  text.dropWhile isBlank

def trimEnd (text : Text) : Text :=
  (text.reverse.dropWhile isBlank).reverse

def trim (text : Text) : Text :=
  trimEnd (trimStart text)

def startsBlank : Text → Bool
  | [] => false
  | character :: _ => isBlank character

/-- The maximal runs of characters that are not blank. -/
def words (text : Text) : List Text :=
  let rec collect : Text → Text × List Text
    | [] => ([], [])
    | character :: rest =>
        let (word, later) := collect rest
        if isBlank character then
          ([], if word.isEmpty then later else word :: later)
        else
          (character :: word, later)
  let (word, later) := collect text
  if word.isEmpty then later else word :: later

/-- What follows `start` in the text, if the text starts with it. -/
def dropStart? : (start text : Text) → Option Text
  | [], text => some text
  | _ :: _, [] => none
  | expected :: start, character :: text =>
      if expected = character then dropStart? start text else none

/-- What precedes `ending` in the text, if the text ends with it. -/
def dropEnd? (ending text : Text) : Option Text :=
  (dropStart? ending.reverse text.reverse).map List.reverse

def startsWith (start text : Text) : Bool :=
  (dropStart? start text).isSome

def endsWith (character : Char) (text : Text) : Bool :=
  text.getLast? == some character

/-- The text before and after the first occurrence of a character. -/
def cut (separator : Char) : Text → Option (Text × Text)
  | [] => none
  | character :: rest =>
      if character = separator then
        some ([], rest)
      else
        (cut separator rest).map fun (before, after) =>
          (character :: before, after)

/-- The pieces between the occurrences of a character: the first one, and the
others in order. -/
def segments (separator : Char) : Text → Text × List Text
  | [] => ([], [])
  | character :: rest =>
      let (first, others) := segments separator rest
      if character = separator then
        ([], first :: others)
      else
        (character :: first, others)

/-- All pieces between the occurrences of a character, in order. -/
def splitOn (separator : Char) (text : Text) : List Text :=
  let (first, others) := segments separator text
  first :: others

def dropCarriageReturn (text : Text) : Text :=
  (dropEnd? ['\r'] text).getD text

/-- The lines of a text.  A line feed ends a line and takes one carriage return
before it along; after a final line feed no further line starts. -/
def lines (text : Text) : List Text :=
  let rec close : List Text → List Text
    | [] => []
    | [last] => if last.isEmpty then [] else [last]
    | line :: next :: later => dropCarriageReturn line :: close (next :: later)
  close (splitOn '\n' text)

/-- Whether the whole text is a name: a letter or underscore, then letters,
digits and underscores, all of them ASCII. -/
def isName : Text → Bool
  | [] => false
  | first :: rest => isNameStart first && rest.all isNameChar

/-- The longest name at the start of a text (empty if there is none), and what
follows it. -/
def spanName : Text → Text × Text
  | [] => ([], [])
  | first :: rest =>
      if isNameStart first then
        (first :: rest.takeWhile isNameChar, rest.dropWhile isNameChar)
      else
        ([], first :: rest)

def byteLength (text : Text) : Nat :=
  text.foldr (fun character length => character.utf8Size + length) 0

/-- The text from a byte offset on, if the offset falls between two
characters. -/
def dropBytes? : Nat → Text → Option Text
  | 0, text => some text
  | _ + 1, [] => none
  | offset + 1, character :: rest =>
      if character.utf8Size ≤ offset + 1 then
        dropBytes? (offset + 1 - character.utf8Size) rest
      else
        none
termination_by _ text => text.length

/-- Lexicographic order by code point. -/
def precedes : Text → Text → Bool
  | [], _ => true
  | _ :: _, [] => false
  | first :: rest, other :: others =>
      if first = other then precedes rest others else first.toNat < other.toNat

theorem length_trimStart_le (text : Text) :
    (trimStart text).length ≤ text.length :=
  (List.dropWhile_sublist isBlank).length_le

theorem length_trimEnd_le (text : Text) :
    (trimEnd text).length ≤ text.length := by
  have shorter := (List.dropWhile_sublist isBlank (l := text.reverse)).length_le
  simpa [trimEnd] using shorter

theorem length_trim_le (text : Text) : (trim text).length ≤ text.length :=
  Nat.le_trans (length_trimEnd_le (trimStart text)) (length_trimStart_le text)

theorem length_of_dropStart?
    {start text rest : Text} (found : dropStart? start text = some rest) :
    text.length = start.length + rest.length := by
  induction start generalizing text with
  | nil =>
      simp only [dropStart?, Option.some.injEq] at found
      simp [found]
  | cons expected start induction =>
      cases text with
      | nil => simp [dropStart?] at found
      | cons character text =>
          simp only [dropStart?] at found
          split at found
          · have lengths := induction found
            simp only [List.length_cons]
            omega
          · simp at found

theorem length_of_cut
    {separator : Char} {text before after : Text}
    (found : cut separator text = some (before, after)) :
    text.length = before.length + 1 + after.length := by
  induction text generalizing before with
  | nil => simp [cut] at found
  | cons character rest induction =>
      simp only [cut] at found
      split at found
      · simp only [Option.some.injEq, Prod.mk.injEq] at found
        obtain ⟨rfl, rfl⟩ := found
        simp; omega
      · simp only [Option.map_eq_some_iff, Prod.exists, Prod.mk.injEq] at found
        obtain ⟨inner, outer, cutRest, rfl, rfl⟩ := found
        have lengths := induction cutRest
        simp only [List.length_cons]
        omega

end Text
end LineScript
