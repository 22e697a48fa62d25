import LineScript.Proofs.Source.Blocks
import LineScript.Run

/-!
The numbers of the lines of a program.

Lines of code are carved into items without a look at their numbers: with other
numbers on the lines the same items and the same faults are found, and these
have the other numbers on them. Nor does a run look at the numbers.
-/

namespace LineScript

open Text

namespace SourceFault

def renumber (change : Nat → Nat) : SourceFault → SourceFault
  | directive line text => directive (change line) text
  | unclosedBrace line => unclosedBrace (change line)
  | header line text => header (change line) text
  | parameter line text => parameter (change line) text
  | badType line fault => badType (change line) fault

end SourceFault

def CodeLine.renumber (change : Nat → Nat) (line : CodeLine) : CodeLine :=
  { line with number := change line.number }

def Item.renumber (change : Nat → Nat) (item : Item) : Item :=
  { item with line := change item.line }

def Program.renumber (change : Nat → Nat) (program : Program) : Program :=
  { items := program.items.map (Item.renumber change) }

section Results

variable {ε α β : Type} {change : ε → ε}

theorem mapError_map (result : Except ε α) (view : α → β) :
    (result.map view).mapError change = (result.mapError change).map view := by
  cases result with
  | error fault => rfl
  | ok value => rfl

theorem mapM_mapError
    {read reread : α → Except ε β}
    (alike : ∀ source, reread source = (read source).mapError change)
    (sources : List α) :
    sources.mapM reread = (sources.mapM read).mapError change := by
  induction sources with
  | nil => rfl
  | cons source later inductionHypothesis =>
      rw [List.mapM_cons, List.mapM_cons, alike, inductionHypothesis]
      cases read source with
      | error fault => rfl
      | ok value =>
          cases later.mapM read with
          | error fault => rfl
          | ok values => rfl

end Results

namespace Header

variable (change : Nat → Nat) (number : Nat)

theorem readParameter_renumber (source : Text) :
    readParameter (change number) source =
      (readParameter number source).mapError (SourceFault.renumber change) := by
  rw [readParameter, readParameter]
  cases cut ':' source with
  | none => rfl
  | some parts =>
      dsimp only
      by_cases named : isName (trim parts.1)
      · rw [if_pos named, if_pos named]
        cases TypeTag.read parts.2 with
        | error fault => rfl
        | ok tag => rfl
      · rw [if_neg named, if_neg named]
        rfl

theorem readParameters_renumber (source : Text) :
    readParameters (change number) source =
      (readParameters number source).mapError (SourceFault.renumber change) :=
  mapM_mapError (readParameter_renumber change number)
    (splitTopLevel ',' source)

theorem readReturns_renumber (header : Text) (opening : Opening) (tail : Text) :
    readReturns (change number) header opening tail =
      (readReturns number header opening tail).mapError
        (SourceFault.renumber change) := by
  cases opening with
  | typed returns =>
      rw [readReturns, readReturns]
      by_cases bare : tail.isEmpty
      · rw [if_pos bare, if_pos bare]
        rfl
      · rw [if_neg bare, if_neg bare]
        rfl
  | keyword =>
      rw [readReturns, readReturns]
      by_cases bare : tail.isEmpty
      · rw [if_pos bare, if_pos bare]
        rfl
      · rw [if_neg bare, if_neg bare]
        cases dropStart? "->".toList tail with
        | none => rfl
        | some typeText =>
            dsimp only
            cases ReturnType.read typeText with
            | error fault => rfl
            | ok returns => rfl

theorem readFrom_renumber
    (header : Text) (opening : Opening) (name fromParen : Text) :
    readFrom (change number) header opening name fromParen =
      (readFrom number header opening name fromParen).mapError
        (SourceFault.renumber change) := by
  rw [readFrom, readFrom]
  cases closeParen fromParen with
  | none => rfl
  | some parts =>
      dsimp only
      cases dropEnd? ['{'] (trim parts.2) with
      | none => rfl
      | some tail =>
          dsimp only
          rw [readReturns_renumber]
          cases readReturns number header opening (trim tail) with
          | error fault => rfl
          | ok returns =>
              rw [readParameters_renumber]
              exact (mapError_map _ _).symm

/-- A header does not depend on its number, which only its faults tell. -/
theorem read?_renumber (line : Text) :
    read? (change number) line =
      (read? number line).mapError (SourceFault.renumber change) := by
  rw [read?, read?]
  cases Opening.ofWord?
    (line.takeWhile fun character => !isBlank character) with
  | none => rfl
  | some opening =>
      dsimp only
      split
      · rw [readFrom_renumber]
        exact (mapError_map _ _).symm
      · cases opening with
        | typed returns => rfl
        | keyword => rfl

end Header

namespace Program

variable (change : Nat → Nat)

theorem texts_renumber (lines : List CodeLine) :
    CodeLine.texts (lines.map (CodeLine.renumber change)) =
      CodeLine.texts lines := by
  rw [CodeLine.texts, List.map_map]
  rfl

theorem continues_renumber (lines : List CodeLine) :
    continues (lines.map (CodeLine.renumber change)) = continues lines := by
  cases lines with
  | nil => rfl
  | cons line later => rfl

/-- The length of a chain is that of its first block and of what goes on with
it. -/
theorem chainLength_cons (line : CodeLine) (later : List CodeLine) :
    chainLength (line :: later) =
      match blockLength? (CodeLine.texts (line :: later)) with
      | none => .error (.unclosedBrace line.number)
      | some length =>
          if continues ((line :: later).drop length) then
            (chainLength ((line :: later).drop length)).map (length + ·)
          else
            .ok length := by
  cases found : blockLength? (CodeLine.texts (line :: later)) with
  | none =>
      rw [chainLength]
      split
      · rfl
      · next foundToo => cases found.symm.trans foundToo
  | some length =>
      obtain ⟨block, rest, whole, isBlock, isLength⟩ := exists_block found
      rw [whole, isBlock.chainLength_append, ← isLength]
      dsimp only
      rw [List.drop_left]

theorem chainLength_renumber (lines : List CodeLine) :
    chainLength (lines.map (CodeLine.renumber change)) =
      (chainLength lines).mapError (SourceFault.renumber change) := by
  cases lines with
  | nil =>
      rw [List.map_nil, chainLength]
      rfl
  | cons line later =>
      have texts := texts_renumber change (line :: later)
      rw [List.map_cons] at texts
      rw [List.map_cons, chainLength_cons, chainLength_cons, texts]
      cases found : blockLength? (CodeLine.texts (line :: later)) with
      | none => rfl
      | some length =>
          have bounds := blockLength?_bounds found
          have shorter :
              ((line :: later).drop length).length <
                (line :: later).length := by
            rw [CodeLine.texts, List.length_map] at bounds
            rw [List.length_drop]
            omega
          dsimp only
          rw [← List.map_cons, ← List.map_drop, continues_renumber]
          by_cases goesOn : continues ((line :: later).drop length)
          · rw [if_pos goesOn, if_pos goesOn,
              chainLength_renumber ((line :: later).drop length)]
            exact (mapError_map _ _).symm
          · rw [if_neg goesOn, if_neg goesOn]
            rfl
termination_by lines.length

theorem cons_renumber (item : Item) (result : Except SourceFault (List Item)) :
    ((result.map (List.map (Item.renumber change))).mapError
      (SourceFault.renumber change)).map
        (item.renumber change :: ·) =
      ((result.map (item :: ·)).map (List.map (Item.renumber change))).mapError
        (SourceFault.renumber change) := by
  cases result with
  | error fault => rfl
  | ok items => rfl

/-- The items of lines with other numbers are the same items with other
numbers. -/
theorem scanItems_renumber (lines : List CodeLine) :
    scanItems (lines.map (CodeLine.renumber change)) =
      ((scanItems lines).map (List.map (Item.renumber change))).mapError
        (SourceFault.renumber change) := by
  cases lines with
  | nil =>
      rw [List.map_nil, scanItems]
      rfl
  | cons line later =>
      have further := fun count => scanItems_renumber (later.drop count)
      have texts := texts_renumber change (line :: later)
      have chain := chainLength_renumber change (line :: later)
      have body :
          ∀ header length,
            declared header (later.map (CodeLine.renumber change)) length =
          declared header later length := by
        intro header length
        rw [declared, ← List.map_take, texts_renumber, declared]
      rw [List.map_cons] at texts chain ⊢
      rw [scanItems, scanItems, texts, chain]
      simp only [CodeLine.renumber, Header.read?_renumber, body,
        ← List.map_drop, further]
      cases import? line.text with
      | some moduleName =>
          dsimp only
          rw [scanItems_renumber later]
          exact cons_renumber change ⟨line.number, .importing moduleName⟩
            (scanItems later)
      | none =>
          dsimp only
          cases Header.read? line.number line.text with
          | error fault => rfl
          | ok found =>
              cases found with
              | some header =>
                  cases blockLength? (CodeLine.texts (line :: later)) with
                  | none => rfl
                  | some length =>
                      exact cons_renumber change
                        ⟨line.number,
                          .function header.style (declared header later length)⟩
                        (scanItems (later.drop (length - 1)))
              | none =>
                  cases blockOpening? line.text with
                  | none =>
                      rw [scanItems_renumber later]
                      exact cons_renumber change
                        ⟨line.number, .statement line.text⟩
                        (scanItems later)
                  | some keyword =>
                      cases chainLength (line :: later) with
                      | error fault => rfl
                      | ok length =>
                          exact cons_renumber change
                            ⟨line.number, .skipped keyword length⟩
                            (scanItems (later.drop (length - 1)))
termination_by lines.length

theorem autoMain_renumber (program : Program) :
    (program.renumber change).autoMain = program.autoMain := by
  rw [autoMain, renumber, List.any_map]
  rfl

/-- A run does not depend on the numbers of the lines. -/
theorem run_renumber (settings : Settings) (program : Program) :
    (program.renumber change).run settings = program.run settings := by
  rw [run, run, autoMain_renumber, renumber, List.foldl_map]
  rfl

end Program

end LineScript
