import LineScript.Proofs.Console
import LineScript.Proofs.Source.Layout
import LineScript.Run

/-!
Every text without named holes can be printed: the source that prints it as a
literal gives the text back, whatever characters it has.
-/

namespace LineScript

open Text

def printing (text : Text) : Text :=
  "console.write(".toList ++ (enquote (escape text) ++ [')', ';'])

section Source

variable (text : Text)

theorem printing_eq :
    printing text =
      "console.write".toList ++ bracketed [enquote (escape text)] ++ [';'] := by
  have split : "console.write(".toList = "console.write".toList ++ ['('] := rfl
  calc
    printing text =
        ("console.write".toList ++ ['(']) ++
          (enquote (escape text) ++ [')', ';']) :=
      congrArg (· ++ (enquote (escape text) ++ [')', ';'])) split
    _ = "console.write".toList ++ bracketed [enquote (escape text)] ++
      [';'] := by
      rw [bracketed, commaList_singleton]
      simp only [List.append_assoc, List.cons_append, List.nil_append]

/-- The source with the characters of its first part written out, for proofs
that go through them. -/
theorem printing_spelled :
    printing text =
      ['c', 'o', 'n', 's', 'o', 'l', 'e', '.', 'w', 'r', 'i', 't', 'e', '('] ++
      (enquote (escape text) ++ [')', ';']) :=
  rfl

theorem trim_printing : trim (printing text) = printing text := by
  apply trim_of_tight
  · rfl
  · rw [printing_eq]
    exact tight_concat _ (by decide)

theorem not_mem_printing : '\n' ∉ printing text := by
  simp [printing_spelled, enquote, not_mem_escape text]

/-- No directive and no macro touches the source. -/
theorem preprocess_printing :
    Macro.preprocess (printing text) = .ok [printing text] := by
  have noDirective : Macro.Directive.read? (trim (printing text)) = none := by
    rw [trim_printing]
    rfl
  have nonempty : printing text ≠ [] := nofun
  rw [Macro.preprocess, lines_of_not_mem nonempty (not_mem_printing text),
    Macro.processLines, Macro.processLine]
  simp only [noDirective, Macro.expand_empty]
  rfl

/-- Nothing of the source is a comment. -/
theorem stripFrom_printing :
    CodeLine.stripFrom .code (printing text) = (printing text, false) := by
  rw [printing_spelled, CodeLine.stripFrom_code_append (by simp),
    CodeLine.stripFrom_enquote (literalBody_escape text)]
  rfl

theorem ofLines_printing :
    CodeLine.ofLines [printing text] = [⟨1, printing text⟩] := by
  have stripped : CodeLine.stripFrom (CodeLine.placeAt false) (printing text) =
      (printing text, false) :=
    stripFrom_printing text
  have notEmpty : (printing text).isEmpty = false := rfl
  rw [CodeLine.ofLines, CodeLine.stripLines_cons]
  simp only [stripped, trim_printing, notEmpty, Bool.false_eq_true, if_false]
  rfl

/-- The source is a statement: it starts neither an import nor a function nor a
block. -/
theorem covers_printing :
    Item.Covers { line := 1, kind := .statement (printing text) }
      [⟨1, printing text⟩] := by
  have notBlock : Program.blockOpening? (printing text) = none := by
    rw [Program.blockOpening?]
    split
    · rfl
    · rfl
  exact @Item.Covers.statement ⟨1, printing text⟩ rfl rfl notBlock

theorem parse_printing :
    Program.parse (printing text) =
      .ok { items := [{ line := 1, kind := .statement (printing text) }] } := by
  have layout : Layout _ [_] := Layout.cons (covers_printing text) nofun .nil
  rw [Program.parse, preprocess_printing]
  show Program.scan _ = _
  rw [Program.scan, ofLines_printing, layout.scanItems_eq]
  rfl

end Source

section Run

variable {text : Text} (noNames : ∀ name, ¬ HasNamedHole text name)

include noNames

/-- The statement prints the text and a line feed, and does nothing else. -/
theorem execute_printing (session : Session) (scope : ScopeId) :
    session.execute scope (printing text) =
      session.printed (text ++ ['\n']) := by
  have isBody := literalBody_escape text
  have interpolated :
      Interpolated (session.textOf scope) (unescape (escape text)) text := by
    rw [unescape_escape]
    exact interpolated_self _ noNames
  have evaluates : session.Evaluates scope [] [] := rfl
  have reads :
      Statement.read (printing text) =
        .ok (.write (enquote (escape text)) [] true) := by
    rw [printing_eq]
    exact Statement.read_write (listable_enquote isBody)
  rw [Session.execute,
    Session.tryExecute_write isBody interpolated evaluates reads, List.map_nil,
    fill_nil]
  rfl

theorem run_printing (settings : Settings) :
    Program.run settings
      { items := [{ line := 1, kind := .statement (printing text) }] } =
      { summary :=
          { statements := 1, functions := 0, skippedBlocks := 0, errors :=
            0, ranMain := false }
        session := (Session.start settings).printed (text ++ ['\n']) } := by
  have executes :=
    execute_printing noNames (Session.start settings) Program.rootScope
  rw [Program.run, List.foldl_cons, List.foldl_nil, Program.runItem]
  simp only [executes]
  rfl

/-- Each text without named holes is printed by its source, under all settings,
with one statement and no failure. -/
theorem every_text_can_be_printed (settings : Settings) :
    ∃ session,
      runSource settings (printing text) =
        .ok
          ({ statements := 1, functions := 0, skippedBlocks := 0, errors :=
            0, ranMain := false },
            session) ∧
        session.output = text ++ ['\n'] ∧ session.reports = [] := by
  refine ⟨(Session.start settings).printed (text ++ ['\n']), ?_, ?_, rfl⟩
  · rw [runSource, parse_printing, Except.map, run_printing noNames]
  · exact List.append_nil _

end Run

/-- A text with a keyword, brackets, quotes, comments, a directive and line
ends. -/
def unruly : Text :=
  "if (x) ".toList ++
    '{' :: " {} // /* #define \"q\" \\ 'c', {1x}\r\n".toList ++ ['}']

theorem not_hasNamedHole_unruly (name : Text) : ¬ HasNamedHole unruly name := by
  intro hole
  have known : pieces unruly = unruly.map .copied := by
    with_unfolding_all rfl
  have found := hole.mem_pieces
  rw [known] at found
  obtain ⟨_, _, same⟩ := List.mem_map.mp found
  cases same

/-- Under all settings `unruly` is printed character by character. -/
theorem every_text_can_be_printed_of_unruly :
    (∀ name, ¬ HasNamedHole unruly name) ∧
      ∀ settings, ∃ session,
        runSource settings (printing unruly) =
          .ok
            ({ statements := 1, functions := 0, skippedBlocks := 0, errors :=
              0, ranMain := false },
              session) ∧
          session.output = unruly ++ ['\n'] ∧ session.reports = [] :=
  ⟨not_hasNamedHole_unruly, fun settings =>
    every_text_can_be_printed not_hasNamedHole_unruly settings⟩

end LineScript
