import LineScript.Proofs.Arithmetic.Names
import LineScript.Proofs.Body
import LineScript.Proofs.Source.Layout
import LineScript.Proofs.Statement.BlockLine

/-!
Blocks on one line in the body of a function.

On the top level of a program a line like `if (c) { ... }` is passed over.  In a
body such a line is run as an expression: the names before its brace are looked
up, and a name without a number makes the body fail.
-/

namespace LineScript

open Text

theorem Machine.not_isMalformed_of_lookupNumber
    {machine : Machine} {scope : ScopeId} {name : Text} {fault : Fault}
    (failed : machine.lookupNumber scope name = .error fault) :
    fault.isMalformed = false := by
  rw [lookupNumber, lookup] at failed
  cases found : machine.forest.value? scope name with
  | none =>
      rw [found] at failed
      cases failed
      rfl
  | some value =>
      rw [found] at failed
      dsimp only at failed
      cases number : value.number? with
      | none =>
          rw [number] at failed
          cases failed
          rfl
      | some found =>
          rw [number] at failed
          cases failed

namespace Evaluation

/-- Looks up names as numbers, one after the other. -/
def lookUp (scope : ScopeId) (names : List Text) : Action Unit :=
  Action.inspect fun machine =>
    Arithmetic.lookUpAll (machine.lookupNumber scope) names

/-- What is evaluated like arithmetic and run for its effects has none but the
faults of its names. -/
theorem runExpression_of_evaluated
    {invoke : Invoker Action} {scope : ScopeId} {source text : Text}
    (evaluated : ∀ machine, (evaluateText invoke scope source).run machine =
      ((Arithmetic.evaluate (machine.lookupNumber scope) text).map .float64,
        machine)) :
    runExpression (evaluateText invoke scope) source =
      lookUp scope (Arithmetic.bareNames text) := by
  funext machine
  have decided :=
    Arithmetic.evaluate_decidedBy (machine.lookupNumber scope) text
  rw [Arithmetic.DecidedBy] at decided
  rw [runExpression]
  show (tryCatch (evaluateText invoke scope source >>= fun _ => pure ())
    forgive : Action Unit).run machine =
      (Arithmetic.lookUpAll (machine.lookupNumber scope)
        (Arithmetic.bareNames text), machine)
  rw [Action.run_tryCatch, Action.run_bind, evaluated]
  cases found :
    Arithmetic.lookUpAll (machine.lookupNumber scope)
      (Arithmetic.bareNames text) with
  | error fault =>
      rw [found] at decided
      obtain ⟨name, _, failed⟩ := Arithmetic.mem_of_lookUpAll found
      have notMalformed := Machine.not_isMalformed_of_lookupNumber failed
      dsimp only at decided
      rw [decided]
      show (forgive fault : Action Unit).run machine = _
      rw [forgive, notMalformed]
      rfl
  | ok done =>
      rw [found] at decided
      cases result : Arithmetic.evaluate (machine.lookupNumber scope) text with
      | ok value => rfl
      | error fault =>
          show (forgive fault : Action Unit).run machine = _
          rw [forgive, decided fault result]
          rfl

/-- Run for its effects, an arithmetic text comes down to looking up its
names. -/
theorem runExpression_arithmetic
    {source text : Text} (reads : Expression.read source = .arithmetic text)
    (invoke : Invoker Action) (scope : ScopeId) :
    runExpression (evaluateText invoke scope) source =
      lookUp scope (Arithmetic.bareNames text) := by
  apply runExpression_of_evaluated
  intro machine
  rw [evaluateText, reads]
  rfl

/-- The first lines of a body lead from one machine to another: what follows
them is run on the second one. -/
def LeadsTo
    (settings : Settings) (invoke : Invoker Action) (scope : ScopeId)
    (function : Function)
    (before : List Text) (start reached : Machine) : Prop :=
  ∀ rest, (runLines settings invoke scope function 0 (before ++ rest)).run
    start =
    (runLines settings invoke scope function 0 rest).run reached

/-- Wherever it stands in a body, the line only looks up the names: it is passed
over if all of them have numbers, and otherwise the body fails where it stands,
with the fault of the first name that has none. -/
def OnlyLooksUp (line : Text) (names : List Text) : Prop :=
  ∀ settings invoke scope function before start reached later,
    LeadsTo settings invoke scope function before start reached →
      (∀ fault, Arithmetic.lookUpAll (reached.lookupNumber scope) names =
        .error fault →
        (runLines settings invoke scope function 0
          (before ++ line :: later)).run start =
          (.error fault, reached)) ∧
      (Arithmetic.lookUpAll (reached.lookupNumber scope) names = .ok () →
        (runLines settings invoke scope function 0
          (before ++ line :: later)).run start =
          (runLines settings invoke scope function 0 (before ++ later)).run
            start)

/-- It is enough to know what the line does in front of all others. -/
theorem OnlyLooksUp.of_runLines
    {line : Text} {names : List Text}
    (runs : ∀ settings invoke scope function later,
      runLines settings invoke scope function 0 (line :: later) =
        (do
          lookUp scope names
          runLines settings invoke scope function 0 later)) :
    OnlyLooksUp line names := by
  intro settings invoke scope function before start reached later leads
  have looksUp : (lookUp scope names).run reached =
      (Arithmetic.lookUpAll (reached.lookupNumber scope) names, reached) := rfl
  rw [leads, leads, runs, Action.run_bind, looksUp]
  constructor
  · intro fault failed
    rw [failed]
  · intro found
    rw [found]

/-- A line that is read as an arithmetic expression looks up its names. -/
theorem onlyLooksUp_expression
    {line body text : Text}
    (reads : Statement.read line = .ok (.expression body))
    (isArithmetic : Expression.read body = .arithmetic text) :
    OnlyLooksUp line (Arithmetic.bareNames text) := by
  apply OnlyLooksUp.of_runLines
  intro settings invoke scope function later
  rw [← runExpression_arithmetic isArithmetic invoke scope]
  exact runLines_expression reads later

/-- A block that its own line closes is passed over and looks up nothing. -/
theorem onlyLooksUp_block
    {line : Text} {keyword : BlockKeyword}
    (reads : Statement.read line = .ok (.blockOpen keyword))
    (closes : Closes 0 [line]) : OnlyLooksUp line [] := by
  apply OnlyLooksUp.of_runLines
  intro settings invoke scope function later
  exact runLines_block reads closes later

end Evaluation

open Evaluation Statement

theorem Program.closes_of_chain_singleton
    {line : CodeLine} (isChain : Chain [line]) :
    Closes 0 [line.text] := by
  generalize single : [line] = chain at isChain
  cases isChain with
  | last isBlock =>
      rw [← single] at isBlock
      exact isBlock
  | more isBlock _ later =>
      rcases List.singleton_eq_append_iff.mp single with ⟨empty, _⟩ | ⟨_, empty⟩
      · exact absurd empty isBlock.nonempty
      · exact absurd empty later.nonempty

/-- An item for a block on one line covers one line with a control-flow word. -/
theorem Item.Covers.exists_blockLine
    {number : Nat} {keyword : BlockKeyword} {group : List CodeLine}
    (covers : Covers { line := number, kind := .skipped keyword 1 } group) :
    ∃ line, group = [{ number := number, text := line }] ∧
      Program.blockOpening? line = some keyword ∧ Closes 0 [line] := by
  generalize isItem : ({ line := number, kind := .skipped keyword 1 } : Item) =
    item at covers
  cases covers with
  | @skipped line later word notImport notHeader opens isChain =>
      obtain ⟨sameNumber, sameKind⟩ := Item.mk.inj isItem
      obtain ⟨sameWord, single⟩ := ItemKind.skipped.inj sameKind
      have isLast : later = [] :=
        List.eq_nil_of_length_eq_zero (Nat.succ.inj single).symm
      rw [isLast] at isChain ⊢
      rw [sameNumber, sameWord]
      exact ⟨line.text, rfl, opens, Program.closes_of_chain_singleton isChain⟩
  | importing isImport => cases isItem
  | function notImport isHeader isBlock => cases isItem
  | statement notImport notHeader notBlock => cases isItem

/-- A line that is passed over as a block of its own on the top level of a
program.  In a body it is read as the start of a block, a call, an assignment or
an expression.  As the start of a block it is passed over as well.  As an
expression it is passed over only if the names before its brace have numbers. -/
theorem one_line_blocks_look_up_their_names_in_bodies
    {lines : List Text} {program : Program} {number : Nat}
    {keyword : BlockKeyword} (scanned : Program.scan lines = .ok program)
    (skipped : { line := number, kind := .skipped keyword 1 } ∈ program.items) :
    ∃ line statement,
      { number := number, text := line } ∈ CodeLine.ofLines lines ∧
      Statement.read line = .ok statement ∧
      (statement = .blockOpen keyword ∨
        (∃ name arguments, statement = .call name arguments) ∨
        (∃ name value, statement = .assign name value) ∨
        statement = .expression (bodyOf line)) ∧
      (statement = .blockOpen keyword → OnlyLooksUp line []) ∧
      (statement = .expression (bodyOf line) →
        splitConditional? (bodyOf line) = none →
        OnlyLooksUp line (Arithmetic.bareNames (bodyOf line))) := by
  have layout := Program.layout_of_scan scanned
  obtain ⟨before, group, after, whole, covers, _⟩ := layout.exists_group skipped
  obtain ⟨line, rfl, opens, closes⟩ := covers.exists_blockLine
  have member :
      { number := number, text := line } ∈ CodeLine.ofLines lines := by
    rw [whole]
    simp
  have isBlockLine : IsBlockLine line keyword :=
    ⟨CodeLine.trim_of_mem_ofLines member, opens⟩
  have reads := isBlockLine.read_eq
  refine ⟨line, readPlain (bodyOf line), member, reads, ?_, ?_, ?_⟩
  · rcases isBlockLine.readPlain_cases
      with opening | call | assigns | ⟨isExpression, _⟩
    · exact .inl opening
    · exact .inr (.inl call)
    · exact .inr (.inr (.inl assigns))
    · exact .inr (.inr (.inr isExpression))
  · intro opening
    rw [opening] at reads
    exact onlyLooksUp_block reads closes
  · intro isExpression notConditional
    rw [isExpression] at reads
    exact onlyLooksUp_expression reads
      (isBlockLine.read_body isExpression notConditional)

def guarded : Text := "if (flag) { x = 1; }".toList

theorem scan_guarded :
    Program.scan [guarded] =
      .ok { items := [{ line := 1, kind := .skipped .ifWord 1 }] } := by
  decide +kernel

theorem read_guarded :
    Statement.read guarded = .ok (.expression (bodyOf guarded)) := by
  decide +kernel

theorem bareNames_guarded :
    Arithmetic.bareNames (bodyOf guarded) = ["flag".toList] := by
  decide +kernel

/-- At the top `guarded` is passed over; in a body it looks up the name in its
condition. -/
theorem one_line_blocks_look_up_their_names_in_bodies_of_guarded :
    Program.scan [guarded] =
      .ok { items := [{ line := 1, kind := .skipped .ifWord 1 }] } ∧
      OnlyLooksUp guarded ["flag".toList] := by
  obtain ⟨line, statement, member, reads, _, _, looksUp⟩ :=
    one_line_blocks_look_up_their_names_in_bodies scan_guarded
      (List.mem_singleton_self _)
  have isCode :
      CodeLine.ofLines [guarded] = [{ number := 1, text := guarded }] := by
    decide +kernel
  rw [isCode] at member
  cases List.mem_singleton.mp member
  cases reads.symm.trans read_guarded
  refine ⟨scan_guarded, ?_⟩
  rw [← bareNames_guarded]
  exact looksUp rfl (by decide +kernel)

/-- A machine on which the name in the condition is bound to a truth value. -/
def flagged : Machine :=
  Machine.start.withForest
    (Machine.start.forest.setVariable 0 "flag".toList (.boolean true))

/-- A condition that is a truth value makes the body fail, and the next line is
not run. -/
theorem block_on_one_line_fails_on_a_truth_value :
    Program.scan [guarded] =
      .ok { items := [{ line := 1, kind := .skipped .ifWord 1 }] } ∧
      ∀ settings invoke function,
        (runLines settings invoke 0 function 0
            [guarded, "console.write(\"after\");".toList]).run flagged =
          (.error (.typeMismatch .number (.namedValue .boolean "flag".toList)),
            flagged) := by
  have isArithmetic :
      Expression.read (bodyOf guarded) = .arithmetic (bodyOf guarded) := by
    decide +kernel
  have looksUp := onlyLooksUp_expression read_guarded isArithmetic
  rw [bareNames_guarded] at looksUp
  have noNumber :
      Arithmetic.lookUpAll (flagged.lookupNumber 0) ["flag".toList] =
      .error (.typeMismatch .number (.namedValue .boolean "flag".toList)) := by
    decide +kernel
  refine ⟨scan_guarded, ?_⟩
  intro settings invoke function
  exact (looksUp settings invoke 0 function [] flagged flagged _ fun _ => rfl).1
    _ noNumber

end LineScript
