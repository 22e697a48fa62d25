import LineScript.Evaluation
import LineScript.Proofs.Action
import LineScript.Proofs.Source.Blocks

/-!
Bodies of functions: what running their lines comes down to, line by line and
block by block.
-/

namespace LineScript
namespace Evaluation

open Text

theorem walkLines_eq_drop
    (unclosed : BlockKeyword → Action (Option Value))
    (run : Statement → Action Unit)
    (answer : Option Text → Action (Option Value)) (skipped : Nat)
    (lines : List Text) :
    walkLines unclosed run answer skipped lines =
      walkLines unclosed run answer 0 (lines.drop skipped) := by
  induction lines generalizing skipped with
  | nil =>
      rw [List.drop_nil]
      cases skipped with
      | zero => rfl
      | succ skipped => rfl
  | cons line later laterSame =>
      cases skipped with
      | zero => rfl
      | succ skipped => exact laterSame skipped

theorem runLines_eq_drop
    (settings : Settings) (invoke : Invoker Action) (scope : ScopeId)
    (function : Function) (skipped : Nat) (lines : List Text) :
    runLines settings invoke scope function skipped lines =
      runLines settings invoke scope function 0 (lines.drop skipped) :=
  walkLines_eq_drop _ _ _ skipped lines

theorem ofExcept_ok_bind {α β : Type} (value : α) (next : α → Action β) :
    liftM (Action.ofExcept (.ok value)) >>= next = next value :=
  rfl

/-- Run for its effects, an expression stores nothing. -/
theorem runStatement_expression
    (settings : Settings) (invoke : Invoker Action) (scope : ScopeId)
    (source : Text) :
    runStatement settings invoke scope (.expression source) =
      runExpression (evaluateText invoke scope) source := by
  rw [runStatement, effect, outcome, bind_assoc]
  exact bind_pure _

section Rendered

variable {settings : Settings} {invoke : Invoker Action} {scope : ScopeId}
  {template : Text} {arguments : List Text} {machine after : Machine}

theorem run_runStatement_write
    {value : Value}
    (rendered :
      (render (evaluateText invoke scope) template arguments).run machine =
        (.ok value, after))
    (newline : Bool) :
    (runStatement settings invoke scope
        (.write template arguments newline)).run machine =
      (.ok (), after.printed
        (if newline then value.text ++ ['\n'] else value.text)) := by
  rw [runStatement, effect, Action.run_bind, outcome, Action.run_bind, rendered]
  rfl

theorem run_runStatement_system
    {line : Text}
    (rendered :
      (render (evaluateText invoke scope) template arguments).run machine =
        (.ok (.string line), after)) :
    (runStatement settings invoke scope (.system template arguments)).run
        machine =
      (runCommand settings.commands line).run after := by
  rw [runStatement, effect, outcome, bind_assoc, Action.run_bind, rendered]
  show ((runCommand settings.commands line >>= fun _ => pure none) >>= _ :
    Action Unit).run after = _
  rw [bind_assoc, Action.run_bind]
  rcases (runCommand settings.commands line).run after with ⟨fault | done, ended⟩
  · rfl
  · rfl

end Rendered

section Lines

variable {settings : Settings} {invoke : Invoker Action} {scope : ScopeId}
    {function : Function}
  {line : Text}

/-- A line that neither opens a block nor returns is run, and the next line
after it. -/
theorem runLines_cons
    {statement : Statement} (reads : Statement.read line = .ok statement)
    (notBlock : ∀ keyword, statement ≠ .blockOpen keyword)
    (notReturn : ∀ value, statement ≠ .returns value) (later : List Text) :
    runLines settings invoke scope function 0 (line :: later) =
      (do
        runStatement settings invoke scope statement
        runLines settings invoke scope function 0 later) := by
  rw [runLines, walkLines, reads, ofExcept_ok_bind]
  cases statement with
  | blockOpen keyword => exact absurd rfl (notBlock keyword)
  | returns value => exact absurd rfl (notReturn value)
  | _ => rfl

theorem runLines_expression
    {source : Text} (reads : Statement.read line = .ok (.expression source))
    (later : List Text) :
    runLines settings invoke scope function 0 (line :: later) =
      (do
        runExpression (evaluateText invoke scope) source
        runLines settings invoke scope function 0 later) := by
  rw [runLines_cons reads nofun nofun, runStatement_expression]

/-- A block is passed over as a whole. -/
theorem runLines_block
    {keyword : BlockKeyword}
    (reads : Statement.read line = .ok (.blockOpen keyword))
    {inner : List Text} (closes : Closes 0 (line :: inner)) (rest : List Text) :
    runLines settings invoke scope function 0 (line :: (inner ++ rest)) =
      runLines settings invoke scope function 0 rest := by
  have found :
      blockLength? (line :: (inner ++ rest)) = some (inner.length + 1) :=
    closes.blockLengthFrom?_append rest
  have passed :
      runLines settings invoke scope function inner.length (inner ++ rest) =
      runLines settings invoke scope function 0 rest := by
    rw [runLines_eq_drop, List.drop_left]
  rw [runLines, walkLines, reads, ofExcept_ok_bind, ← passed]
  simp only [found]
  rfl

end Lines

end Evaluation
end LineScript
