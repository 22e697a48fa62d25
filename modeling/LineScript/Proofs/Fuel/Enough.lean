import LineScript.Proofs.Body
import LineScript.Proofs.Fuel.Following

/-!
Enough fuel.

Three things shrink while the interpreter runs: the calls that may still be
nested, the lines of a body that are left, and the text of an expression.  With
`width` a bound on the lines of every body and on the length of every text, a
call costs at most `2 * width + 4` steps on top of the calls nested in it: one
for the call, one for each line and for the end of the body, one for the
statement, and one for each nested expression.
-/

namespace LineScript

open Evaluation Text

/-- The fuel for a call with `room` more calls nested in it. -/
def callFuel (width room : Nat) : Nat :=
  room * (2 * width + 4) + 1

theorem callFuel_succ (width room : Nat) :
    callFuel width (room + 1) = callFuel width room + (2 * width + 4) := by
  unfold callFuel
  rw [Nat.add_one_mul]
  omega

namespace Follows

section Recursion

variable {settings : Settings} {width depth room : Nat}

def CallsFollow (settings : Settings) (width depth room : Nat) : Prop :=
  ∀ fuel caller name arguments,
    callFuel width room ≤ fuel → widest arguments ≤ width →
      Follows width depth (following width depth).FitsResult
        (Fuelled.invoke settings fuel caller name arguments)
        (Evaluation.invoke settings room caller name arguments)

/-- Reading a text as it is reached follows reading it beforehand.  The induction
is that of the reader: the parts of a text are shorter, so that less fuel is
enough for them. -/
theorem evaluate
    (calls : CallsFollow settings width depth room) (scope : ScopeId)
    {fuel : Nat} {source text : Text} (trimmed : trim source = text)
    (short : text.length ≤ width)
    (enough : text.length + callFuel width room ≤ fuel) :
    Follows width depth (Narrow width)
      (Fuelled.evaluate settings (fuel + 1) scope source)
      (Evaluation.evaluate (Evaluation.invoke settings room) scope
        (Expression.readTrimmed text)) := by
  fun_induction Expression.readTrimmed text generalizing source fuel
  -- Each case fixes which branch the fuelled evaluation takes.
  all_goals
    rw [Fuelled.evaluate, trimmed]
    simp only [*, ↓reduceIte, Bool.false_eq_true]
  case case1 => exact throw _
  case case2 => exact (sees_following width depth scope).string _
  case case3 text _ _ body _ =>
      unfold Expression.ofCharLiteral
      rcases unescape body with _ | ⟨character, _ | ⟨another, more⟩⟩
      · exact throw _
      · exact pure (Nat.zero_le width)
      · exact throw _
  case case4 text _ _ _ callee arguments isCall =>
      have shortArguments : widest arguments ≤ width := by
        refine widest_le_iff.mpr fun argument member => ?_
        have shorter := length_of_splitCall? isCall argument member
        omega
      have enoughForCall : callFuel width room ≤ fuel := by omega
      exact (following width depth).callValue callee
        (calls fuel scope callee arguments enoughForCall shortArguments)
  case case5 => exact (sees_following width depth scope).name _
  case case6 text _ _ _ _ _ operand isNegation operandFollows =>
      have shorter := Expression.length_of_negated? isNegation
      have trimmedShorter := length_trimStart_le operand
      obtain ⟨less, rfl⟩ : ∃ less, fuel = less + 1 := ⟨fuel - 1, by omega⟩
      rw [← trimmed] at isNegation
      have operandTrimmed := Expression.trim_of_negated? isNegation
      exact (following width depth).negate
        (operandFollows operandTrimmed (by omega) (by omega))
  case case7 text _ _ _ _ _ _ condition yes no isConditional conditionFollows
    yesFollows noFollows =>
      obtain ⟨conditionShorter, yesShorter, noShorter⟩ :=
        length_of_splitConditional? isConditional
      obtain ⟨conditionTrimmed, yesTrimmed, noTrimmed⟩ :=
        trim_of_splitConditional? isConditional
      obtain ⟨less, rfl⟩ : ∃ less, fuel = less + 1 := ⟨fuel - 1, by omega⟩
      exact (following width depth).choose
        (conditionFollows conditionTrimmed (by omega) (by omega))
        (yesFollows yesTrimmed (by omega) (by omega))
        (noFollows noTrimmed (by omega) (by omega))
  case case8 => exact pure (Nat.zero_le width)
  case case9 => exact (sees_following width depth scope).arithmetic _

theorem evaluateText
    (calls : CallsFollow settings width depth room) (scope : ScopeId)
    {fuel : Nat} (enough : width + callFuel width room < fuel)
    (source : Text) (short : source.length ≤ width) :
    Follows width depth (Narrow width)
      (Fuelled.evaluate settings fuel scope source)
      (Evaluation.evaluateText
        (Evaluation.invoke settings room) scope source) := by
  have shortTrimmed := Nat.le_trans (length_trim_le source) short
  obtain ⟨less, rfl⟩ : ∃ less, fuel = less + 1 := ⟨fuel - 1, by omega⟩
  exact evaluate calls scope rfl shortTrimmed (by omega)

theorem runStatement
    (calls : CallsFollow settings width depth room) (scope : ScopeId)
    {fuel : Nat} (enough : width + callFuel width room + 1 < fuel)
    (statement : Statement) (short : statement.width ≤ width) :
    Follows width depth (fun _ => True)
      (Fuelled.runStatement settings fuel scope statement)
      (Evaluation.runStatement settings
        (Evaluation.invoke settings room) scope statement) := by
  obtain ⟨less, rfl⟩ : ∃ less, fuel = less + 1 := ⟨fuel - 1, by omega⟩
  have enoughLess : width + callFuel width room < less := by omega
  rw [Fuelled.runStatement]
  refine (following width depth).effect (sees_following width depth scope)
    (fun source member => ?_) (fun name arguments isCall => ?_)
    (fun closure isArrow => ?_) rfl fun value narrow => ?_
  · have shorter := Statement.length_le_of_mem_sources member
    exact evaluateText calls scope enoughLess source (by omega)
  · subst isCall
    exact calls less scope name arguments (by omega) short
  · subst isArrow
    exact short
  · exact modifyForest fun forest bounded =>
      Statement.width_store_le bounded short narrow settings.assignment scope

theorem tryExecute
    (calls : CallsFollow settings width depth room) (scope : ScopeId)
    {fuel : Nat} (enough : width + callFuel width room + 1 < fuel)
    (source : Text) (short : source.length ≤ width) :
    Follows width depth (fun _ => True)
      (Fuelled.tryExecute settings fuel scope source)
      (runText settings (Evaluation.invoke settings room) scope source) := by
  refine (ofExcept fun _ reads => Statement.width_of_read reads).bind
    fun statement narrow => ?_
  exact runStatement calls scope enough statement (Nat.le_trans narrow short)

/-- The count of lines from an index to the end carries the induction: a line
that is run and a block that is passed over both leave fewer of them. -/
theorem runBody
    (calls : CallsFollow settings width depth room) (scope : ScopeId)
    {function : Function} (narrow : function.width ≤ width) {fuel index : Nat}
    (enough : function.body.length - index + width + callFuel width room + 2 < fuel) :
    Follows width depth (following width depth).FitsResult
      (Fuelled.runBody settings fuel scope function index)
      (runLines settings (Evaluation.invoke settings room) scope function 0
        (function.body.drop index)) := by
  induction fuel generalizing index with
  | zero => omega
  | succ fuel laterFollows =>
      rw [Fuelled.runBody]
      cases atIndex : function.body[index]? with
      | none =>
          rw [List.drop_eq_nil_of_le (List.getElem?_eq_none_iff.mp atIndex)]
          exact Correspondence.relates_none (R := following width depth)
      | some line =>
          obtain ⟨inside, isLine⟩ := List.getElem?_eq_some_iff.mp atIndex
          rw [List.drop_eq_getElem_cons inside, isLine, runLines, walkLines]
          have shortLine : line.length ≤ width :=
            (Function.width_le_iff.mp narrow).2 line
              (List.mem_of_getElem? atIndex)
          refine (ofExcept fun _ reads => Statement.width_of_read reads).bind
            fun statement shortStatement => ?_
          have short := Nat.le_trans shortStatement shortLine
          have enoughForStatement :
              width + callFuel width room + 1 < fuel := by omega
          have runsStatement :=
            runStatement calls scope enoughForStatement statement short
          have runsLater : Follows width depth (following width depth).FitsResult
              (Fuelled.runBody settings fuel scope function (index + 1))
              (runLines settings
                (Evaluation.invoke settings room) scope function 0
                (function.body.drop (index + 1))) :=
            laterFollows (by omega)
          cases statement with
          | blockOpen keyword =>
              simp only [blockEnd?]
              rw [List.drop_eq_getElem_cons inside, isLine]
              cases closes :
                blockLength? (line :: function.body.drop (index + 1)) with
              | none => exact throw _
              | some length =>
                  obtain ⟨positive, _⟩ := blockLength?_bounds closes
                  have last :
                      index + length - 1 + 1 =
                        index + 1 + (length - 1) := by omega
                  simp only [Option.map_some, last]
                  rw [walkLines_eq_drop, List.drop_drop]
                  exact laterFollows (by omega)
          | returns value =>
              have enoughForValue :
                  width + callFuel width room < fuel := by omega
              refine (following width depth).returnValue function
                fun text isText => ?_
              cases isText
              exact evaluateText calls scope enoughForValue text short
          | _ => exact runsStatement.bind fun _ _ => runsLater

/-- The callee of a call on a bounded machine is narrow enough. -/
theorem prepare
    (caller : ScopeId) (name : Text) (arguments : List Text)
    {attempts : Function → ScopeId → Attempt (Option Value)}
    {actions : Function → ScopeId → Action (Option Value)}
    (start : ∀ function owner, function.width ≤ width →
      Follows width depth (following width depth).FitsResult
        (attempts function owner) (actions function owner)) :
    Follows width depth (following width depth).FitsResult
      (Evaluation.prepare caller name arguments attempts)
      (Evaluation.prepare caller name arguments actions) := by
  refine (inspect fun _ _ bounded found =>
    width_of_resolveCallee bounded found).bind
    fun callee narrow => ?_
  dsimp only
  split
  · exact start callee.1 callee.2 narrow
  · exact throw _

/-- The room for calls carries the induction: the arguments and the body of a
call are run with less of it. -/
theorem invoke
    (settings : Settings) (width : Nat) {depth : Nat} (room : Nat)
    (left : room = settings.callLimit - depth) :
    CallsFollow settings width depth room := by
  induction room generalizing depth with
  | zero =>
      intro fuel caller name arguments enough _
      obtain ⟨less, rfl⟩ : ∃ less, fuel = less + 1 :=
        Nat.exists_eq_add_one_of_ne_zero (Nat.ne_zero_of_lt enough)
      have full : settings.callLimit ≤ depth := by omega
      rw [Fuelled.invoke]
      exact prepare caller name arguments fun function owner _ =>
        inCall_refused owner _ full
  | succ room nested =>
      intro fuel caller name arguments enough short
      rw [callFuel_succ] at enough
      obtain ⟨less, rfl⟩ : ∃ less, fuel = less + 1 := ⟨fuel - 1, by omega⟩
      have calls : CallsFollow settings width (depth + 1) room :=
        nested (by omega)
      have allowed : depth < settings.callLimit := by omega
      have enoughForArguments : width + callFuel width room < less := by omega
      rw [Fuelled.invoke, Evaluation.invoke]
      refine prepare caller name arguments fun function owner narrow => ?_
      refine inCall allowed fun scope => ?_
      have lines := (Function.width_le_iff.mp narrow).1
      refine bind ?_ fun _ (_ : True) => runBody calls scope narrow (by omega)
      refine (following width (depth + 1)).bindArguments function.parameters
        (fun source member => ?_) fun name value narrowValue => ?_
      · exact evaluateText calls caller enoughForArguments source
          (widest_le_iff.mp short source member)
      · exact modifyForest fun forest bounded =>
          Forest.width_setVariable_le bounded scope name narrowValue

end Recursion
end Follows

namespace Session

/-- A bound on all texts that the session comes to run when it runs the texts
given. -/
def widthWith (session : Session) (texts : List Text) : Nat :=
  max session.forest.width (widest texts)

/-- The fuel that suffices to run the texts.  It is computed from the calls that
may still be nested, the functions there are and the texts. -/
def fuelFor (session : Session) (texts : List Text) : Nat :=
  (session.room + 1) * (2 * session.widthWith texts + 4)

section Bounds

variable (session : Session) (texts : List Text)

/-- The fuel of a session is enough for its texts and for all calls it has room
for. -/
theorem callFuel_lt_fuelFor :
    session.widthWith texts +
      callFuel (session.widthWith texts) session.room + 1 <
      session.fuelFor texts := by
  have expanded :=
    Nat.add_one_mul session.room (2 * session.widthWith texts + 4)
  unfold fuelFor callFuel
  omega

theorem bounded_machine :
    session.machine.Bounded (session.widthWith texts) session.machine.depth :=
  ⟨Nat.le_max_left _ _, rfl⟩

/-- The calls of a session follow with the fuel that they are given. -/
theorem calls_follow :
    Follows.CallsFollow session.settings
      (session.widthWith texts) session.machine.depth
      session.room :=
  Follows.invoke session.settings _ session.room rfl

theorem length_le_widthWith (source : Text) :
    source.length ≤ session.widthWith [source] :=
  Nat.le_trans (widest_le_iff.mp (Nat.le_refl _) source List.mem_cons_self)
    (Nat.le_max_right _ _)

end Bounds

/-- An attempt that follows an action ends as the session does. -/
theorem run_eq_perform
    {α : Type} {suits : α → Prop} {attempt : Attempt α} {action : Action α}
    (session : Session) (texts : List Text)
    (follows : Follows (session.widthWith texts) session.machine.depth suits attempt action) :
    attempt.run session.machine =
      some ((session.perform action).1, (session.perform action).2.machine) :=
  (follows session.machine (session.bounded_machine texts)).1

/-- The interpreter always ends.  With the fuel that the limit, the functions
and the texts give, and with any more, it does not run out, and it ends as the
session does. -/
theorem fuel_never_runs_out
    (session : Session) (scope : ScopeId) (spare : Nat) :
    (∀ source,
      (Fuelled.evaluate session.settings
        (session.fuelFor [source] + spare) scope source).run
          session.machine =
        some ((session.evaluate scope source).1,
          (session.evaluate scope source).2.machine)) ∧
    (∀ source,
      (Fuelled.tryExecute session.settings
        (session.fuelFor [source] + spare) scope source).run
          session.machine =
        some ((session.tryExecute scope source).1,
          (session.tryExecute scope source).2.machine)) ∧
    ∀ name arguments,
      (Fuelled.invoke session.settings
        (session.fuelFor arguments + spare) scope name
          arguments).run session.machine =
        some ((session.invoke scope name arguments).1,
          (session.invoke scope name arguments).2.machine) := by
  refine ⟨fun source => ?_, fun source => ?_, fun name arguments => ?_⟩
  · have enough := session.callFuel_lt_fuelFor [source]
    have follows := Follows.evaluateText (session.calls_follow [source]) scope
      (Nat.lt_add_right spare (Nat.lt_of_succ_lt enough)) source
      (session.length_le_widthWith source)
    exact session.run_eq_perform [source] follows
  · have enough := session.callFuel_lt_fuelFor [source]
    have follows := Follows.tryExecute (session.calls_follow [source]) scope
      (Nat.lt_add_right spare enough) source
        (session.length_le_widthWith source)
    exact session.run_eq_perform [source] follows
  · have enough : callFuel (session.widthWith arguments) session.room ≤
        session.fuelFor arguments + spare := by
      have more := session.callFuel_lt_fuelFor arguments
      omega
    have follows := session.calls_follow arguments _ scope name arguments enough
      (Nat.le_max_right _ _)
    exact session.run_eq_perform arguments follows

end Session
end LineScript
