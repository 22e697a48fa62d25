import LineScript.Proofs.Body
import LineScript.Proofs.Shadow
import LineScript.Proofs.StaticScope
import LineScript.Proofs.Text.Literal
import LineScript.Proofs.Text.Template

/-!
What the console prints and runs.

A template that is written as a string literal is first interpolated, as every
string literal is, and its empty holes are filled afterwards.  So a pair of
braces that comes with the value of a name is an empty hole like any other.
-/

namespace LineScript

open Text

namespace Expression

theorem read_enquote {body : Text} (isBody : LiteralBody '"' false body) :
    read (enquote body) = .string (unescape body) := by
  have found := stringLiteral?_eq_some_iff.mpr ⟨isBody, rfl⟩
  have nonempty : (enquote body).isEmpty = false := rfl
  rw [read, trim_enquote, readTrimmed]
  simp only [nonempty, Bool.false_eq_true, if_false]
  split
  · next isFound =>
      rw [found] at isFound
      cases isFound
      rfl
  · next refused =>
      rw [found] at refused
      cases refused

end Expression

def Machine.textOf (machine : Machine) (scope : ScopeId) (name : Text) :
    Option Text :=
  (machine.forest.value? scope name).map Value.text

namespace Evaluation

variable (invoke : Invoker Action) (scope : ScopeId) {machine : Machine}

theorem run_evaluateText_enquote
    {body text : Text} (isBody : LiteralBody '"' false body)
    (interpolated : Interpolated (machine.textOf scope) (unescape body) text) :
    (evaluateText invoke scope (enquote body)).run machine =
      (.ok (.string text), machine) := by
  have same :
      Text.interpolate
        (fun name => (machine.forest.value? scope name).map Value.text)
      (unescape body) = .ok text :=
    interpolated.interpolate_eq
  have filled : interpolate machine scope (unescape body) = .ok text := by
    rw [interpolate, same]
  rw [evaluateText, Expression.read_enquote isBody, evaluate]
  show ((interpolate machine scope (unescape body)).map Value.string, machine) =
      _
  rw [filled]
  rfl

theorem run_evaluateAll
    {sources : List Text} {values : List Value}
    (evaluates :
      sources.map
        (fun source => (evaluateText invoke scope source).run machine) =
        values.map fun value => (.ok value, machine)) :
    (evaluateAll (evaluateText invoke scope) sources).run machine = (.ok values, machine) := by
  induction sources generalizing values with
  | nil =>
      cases values with
      | nil => rfl
      | cons value values => cases evaluates
  | cons source sources inductionHypothesis =>
      cases values with
      | nil => cases evaluates
      | cons value values =>
          obtain ⟨first, later⟩ := List.cons.inj evaluates
          dsimp only at first
          rw [evaluateAll, Action.run_bind, first]
          show ((evaluateAll (evaluateText invoke scope) sources >>= _).run
            machine) = _
          rw [Action.run_bind, inductionHypothesis later]
          rfl

/-- A string literal as a template has its named holes filled first, and then
its numbered ones. -/
theorem run_render_enquote
    {body text : Text} (isBody : LiteralBody '"' false body)
    (interpolated : Interpolated (machine.textOf scope) (unescape body) text)
    {arguments : List Text} {values : List Value}
    (evaluates :
      arguments.map
        (fun source => (evaluateText invoke scope source).run machine) =
        values.map fun value => (.ok value, machine)) :
    (render (evaluateText invoke scope) (enquote body) arguments).run machine =
      (.ok (.string (fill (values.map Value.text) text)), machine) := by
  rw [render, Action.run_bind,
    run_evaluateText_enquote invoke scope isBody interpolated]
  cases arguments with
  | nil =>
      cases values with
      | nil => rw [List.map_nil, fill_nil]; rfl
      | cons value values => cases evaluates
  | cons argument arguments =>
      show ((evaluateAll (evaluateText invoke scope) (argument :: arguments) >>=
        _).run machine) = _
      rw [Action.run_bind, run_evaluateAll invoke scope evaluates]
      rfl

end Evaluation

namespace Session

def printed (session : Session) (text : Text) : Session :=
  { session with machine := session.machine.printed text }

def textOf (session : Session) (scope : ScopeId) : Text → Option Text :=
  session.machine.textOf scope

section Literal

variable {session : Session} {scope : ScopeId} {body text : Text}
  (isBody : LiteralBody '"' false body)
  (interpolated : Interpolated (session.textOf scope) (unescape body) text)
  {arguments : List Text} {values : List Value}
  (evaluates : session.Evaluates scope arguments values)

include isBody interpolated evaluates

theorem run_render :
    (Evaluation.render (Evaluation.evaluateText session.invoker scope)
        (enquote body) arguments).run session.machine =
      (.ok (.string (fill (values.map Value.text) text)), session.machine) :=
  Evaluation.run_render_enquote session.invoker scope isBody interpolated
    evaluates.run

/-- Printing a filled template prints its text and does nothing else. -/
theorem tryExecute_write
    {source : Text} {newline : Bool}
    (reads : Statement.read source = .ok (.write (enquote body) arguments newline)) :
    session.tryExecute scope source =
      (.ok (), session.printed
        (if newline then fill (values.map Value.text) text ++ ['\n']
          else fill (values.map Value.text) text)) := by
  rw [tryExecute_of_read session scope reads, perform,
    Evaluation.run_runStatement_write
      (run_render isBody interpolated evaluates)]
  rfl

theorem tryExecute_system
    {source : Text}
    (reads : Statement.read source = .ok (.system (enquote body) arguments)) :
    session.tryExecute scope source =
      session.perform
        (Evaluation.runCommand session.settings.commands
          (fill (values.map Value.text) text)) := by
  rw [tryExecute_of_read session scope reads, perform,
    Evaluation.run_runStatement_system
      (run_render isBody interpolated evaluates)]
  rfl

end Literal

/-- A template that is a string literal, all of its names bound, is filled in
two passes: its named holes first, and then the empty holes of the text so
obtained.  That is one reading of the template unless there are arguments and
the values of the names form an empty hole.  The result is what `write` prints
and what `system` runs. -/
theorem templates_are_filled_in_two_passes
    (session : Session) (scope : ScopeId) {template body : Text}
    (literal : stringLiteral? template = some body)
    (bound : ∀ name, HasNamedHole (unescape body) name → (session.textOf scope name).isSome)
    {arguments : List Text} {values : List Value}
    (evaluates : session.Evaluates scope arguments values) :
    ∃ text result,
      Interpolated (session.textOf scope) (unescape body) text ∧
      Numbered (values.map Value.text) text result ∧
      (values = [] ∨ emptyHoles text = emptyHoles (unescape body) →
        Filled (session.textOf scope) (values.map Value.text)
          (unescape body) result) ∧
      (∀ source newline,
        Statement.read source = .ok (.write template arguments newline) →
          session.tryExecute scope source =
            (.ok (), session.printed
              (if newline then result ++ ['\n'] else result))) ∧
      ∀ source, Statement.read source = .ok (.system template arguments) →
        session.tryExecute scope source =
          session.perform
            (Evaluation.runCommand session.settings.commands result) := by
  obtain ⟨isBody, rfl⟩ := stringLiteral?_eq_some_iff.mp literal
  obtain ⟨text, interpolated⟩ := exists_interpolated bound
  have numbered := numbered_fill (values.map Value.text) text
  refine ⟨text, fill (values.map Value.text) text, interpolated, numbered, ?_,
    ?_, ?_⟩
  · rintro (rfl | same)
    · rw [List.map_nil, fill_nil]
      exact interpolated.filled_nil
    · exact interpolated.filled same numbered
  · intro source newline reads
    exact tryExecute_write isBody interpolated evaluates reads
  · intro source reads
    exact tryExecute_system isBody interpolated evaluates reads

/-- A session in which `x` is a pair of braces with nothing between them. -/
def bracing : Session :=
  let settings : Settings :=
    { assignment := .shadow
      callLimit := 1
      commands := fun _ _ => { lines := [], failure := none } }
  (start settings).modifyForest fun forest =>
    forest.setVariable 0 ['x'] (.string ['{', '}'])

theorem textOf_bracing : bracing.textOf 0 ['x'] = some ['{', '}'] := by
  with_unfolding_all rfl

theorem evaluates_bracing :
    bracing.Evaluates 0 ["1".toList, "2".toList] [.integer 1, .integer 2] := by
  with_unfolding_all rfl

theorem read_bracing :
    Statement.read "console.write(\"{x} {}\", 1, 2);".toList =
      .ok (.write "\"{x} {}\"".toList ["1".toList, "2".toList] true) := by
  rfl

theorem bound_bracing :
    ∀ name, HasNamedHole (unescape "{x} {}".toList) name →
      (bracing.textOf 0 name).isSome := by
  intro name hole
  have found := hole.mem_pieces
  have known : pieces (unescape "{x} {}".toList) =
      [.hole ['x'], .copied ' ', .copied '{', .copied '}'] := by
    with_unfolding_all rfl
  rw [known] at found
  simp only [List.mem_cons, reduceCtorEq, List.not_mem_nil, or_false,
    Piece.hole.injEq] at found
  rw [found, textOf_bracing]
  rfl

/-- The braces that `x` brings into the text are filled with the first argument,
although they stand in no template. -/
theorem templates_are_filled_in_two_passes_of_bracing :
    (∀ name, HasNamedHole "{x} {}".toList name →
      (bracing.textOf 0 name).isSome) ∧
      bracing.Evaluates 0 ["1".toList, "2".toList] [.integer 1, .integer 2] ∧
        ∃ text result,
          Interpolated (bracing.textOf 0) "{x} {}".toList text ∧
          Numbered ["1".toList, "2".toList] text result ∧
          bracing.tryExecute 0 "console.write(\"{x} {}\", 1, 2);".toList =
            (.ok (), bracing.printed (result ++ ['\n'])) := by
  have literal :
      stringLiteral? "\"{x} {}\"".toList = some "{x} {}".toList := rfl
  obtain ⟨text, result, interpolated, numbered, _, writes, _⟩ :=
    templates_are_filled_in_two_passes bracing 0 literal bound_bracing
      evaluates_bracing
  exact ⟨bound_bracing, evaluates_bracing, text, result, interpolated, numbered,
    writes _ true read_bracing⟩

/-- One reading of the template does not give what is printed: the braces in the
value of a name are filled as well. -/
theorem values_can_bring_empty_holes :
    ¬ ∀ (session : Session) (scope : ScopeId) (template body : Text)
      (arguments : List Text)
        (values : List Value) (source : Text),
      stringLiteral? template = some body →
        (∀ name, HasNamedHole (unescape body) name →
          (session.textOf scope name).isSome) →
          session.Evaluates scope arguments values →
            Statement.read source = .ok (.write template arguments true) →
              ∃ result,
                Filled (session.textOf scope) (values.map Value.text)
                  (unescape body) result ∧
                  session.tryExecute scope source =
                    (.ok (), session.printed (result ++ ['\n'])) := by
  intro claimed
  obtain ⟨result, filled, printed⟩ :=
    claimed bracing 0 _ "{x} {}".toList _ _ _ rfl bound_bracing
      evaluates_bracing read_bracing
  have asWritten :
      Filled (bracing.textOf 0) ["1".toList, "2".toList] "{x} {}".toList
      "{} 1".toList := by
    have notBrace : ' ' ≠ '{' := by decide
    have last :
        Filled (bracing.textOf 0)
          ["1".toList, "2".toList] "{}".toList "1".toList :=
      .filled .nil
    have afterName := Filled.copied (not_opensName_of_ne notBrace _)
      (not_opensNumber_of_ne notBrace _) last
    have named : isName ['x'] := rfl
    exact .named named textOf_bracing afterName
  have output :
      (bracing.tryExecute 0
        "console.write(\"{x} {}\", 1, 2);".toList).2.output =
      "1 2\n".toList := by
    with_unfolding_all rfl
  rw [filled.unique asWritten] at printed
  rw [printed] at output
  cases output

end Session
end LineScript
