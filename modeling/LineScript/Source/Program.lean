import LineScript.Keyword
import LineScript.Macro.Directive
import LineScript.Source.CodeLine
import LineScript.Source.Header
import LineScript.Text.Braces

/-!
Programs: the lines of code of a source, carved into functions, statements,
blocks that are passed over, and imports.
-/

namespace LineScript

open Text

inductive ItemKind
  | function (style : HeaderStyle) (definition : Function)
  | statement (text : Text)
  | skipped (keyword : BlockKeyword) (lines : Nat)
  | importing (moduleName : Text)
deriving DecidableEq

/-- A part of a program and the number of its first line. -/
structure Item where
  line : Nat
  kind : ItemKind
deriving DecidableEq

structure Program where
  items : List Item
deriving DecidableEq

namespace Item

def function? (item : Item) : Option Function :=
  match item.kind with
  | .function _ definition => some definition
  | _ => none

def declaresMain (item : Item) : Bool :=
  match item.kind with
  | .function .typed definition => definition.name == "main".toList
  | _ => false

def isStatement (item : Item) : Bool :=
  match item.kind with
  | .statement _ => true
  | _ => false

def isSkipped (item : Item) : Bool :=
  match item.kind with
  | .skipped _ _ => true
  | _ => false

end Item

namespace Program

def functions (program : Program) : List Function :=
  program.items.filterMap Item.function?

/-- Whether `main` is called after the last item: it has to be declared with its
return type in front. -/
def autoMain (program : Program) : Bool :=
  program.items.any Item.declaresMain

/-- The name after `import` and a blank, semicolons at its end aside. -/
def import? (line : Text) : Option Text :=
  ((dropStart? "import".toList line).filter startsBlank).map fun rest =>
    trim (((trim rest).reverse.dropWhile (· == ';')).reverse)

/-- The word of a line that opens a block; such a line holds a brace. -/
def blockOpening? (line : Text) : Option BlockKeyword :=
  if line.contains '{' then BlockKeyword.ofLine? line else none

/-- Whether a line goes on with the block before it. -/
def continuesBlock (line : Text) : Bool :=
  match blockOpening? line with
  | some .elifWord => true
  | some .elseWord => true
  | _ => false

/-- The number of lines of the block opened by the first line and of the blocks
that go on with it. -/
def chainLength : List CodeLine → Except SourceFault Nat
  | [] => .ok 0
  | line :: later =>
      match _found : blockLength? (CodeLine.texts (line :: later)) with
      | none => .error (.unclosedBrace line.number)
      | some length =>
          match _rest : (line :: later).drop length with
          | [] => .ok length
          | next :: further =>
              if continuesBlock next.text then
                (chainLength (next :: further)).map (length + ·)
              else
                .ok length
termination_by lines => lines.length
decreasing_by
  have bounds := blockLength?_bounds _found
  have lengths := congrArg List.length _rest
  simp only [List.length_drop, List.length_cons] at lengths ⊢
  omega

/-- The function declared by a header, with its body taken from the lines after
it; `length` counts the header, the body and the closing line. -/
def declared (header : Header) (later : List CodeLine) (length : Nat) :
    Function :=
  { name := header.name
    parameters := header.parameters
    returns := header.returns
    body := CodeLine.texts (later.take (length - 2)) }

def scanItems : List CodeLine → Except SourceFault (List Item)
  | [] => .ok []
  | line :: later =>
      match import? line.text with
      | some moduleName =>
          (scanItems later).map
            ({ line := line.number, kind := .importing moduleName } :: ·)
      | none =>
      match Header.read? line.number line.text with
      | .error fault => .error fault
      | .ok (some header) =>
          match blockLength? (CodeLine.texts (line :: later)) with
          | none => .error (.unclosedBrace line.number)
          | some length =>
              let item : Item :=
                { line := line.number
                  kind := .function header.style
                    (declared header later length) }
              (scanItems (later.drop (length - 1))).map (item :: ·)
      | .ok none =>
      match blockOpening? line.text with
      | some keyword =>
          match chainLength (line :: later) with
          | .error fault => .error fault
          | .ok length =>
              let item : Item :=
                { line := line.number, kind := .skipped keyword length }
              (scanItems (later.drop (length - 1))).map (item :: ·)
      | none =>
          (scanItems later).map
            ({ line := line.number, kind := .statement line.text } :: ·)
termination_by lines => lines.length
decreasing_by
  all_goals
    simp only [List.length_cons, List.length_drop]
    omega

def scan (lines : List Text) : Except SourceFault Program :=
  (scanItems (CodeLine.ofLines lines)).map fun items => { items := items }

def parse (source : Text) : Except SourceFault Program :=
  (Macro.preprocess source).bind scan

end Program
end LineScript
