import LineScript.Proofs.Shadow
import LineScript.Proofs.Text.Balance

/-!
Conditionals in a row: `c ? e : d ? f : last`.

The text is read anew from every condition on, and literals, calls and negations
come before conditionals.  A balanced condition is none of them together with
what follows, so that each question mark is found where it was written.  The
chain then evaluates its conditions in order up to the first one that holds, and
of its branches only the one that belongs to it.
-/

namespace LineScript

open Text

namespace Text

def conditional (condition branch otherwise : Text) : Text :=
  condition ++ ' ' :: '?' :: ' ' :: (branch ++ ' ' :: ':' :: ' ' :: otherwise)

/-- Whether a text that stands before a blank starts a negation. -/
def opensNegation (text : Text) : Bool :=
  startsWith ['!'] (trimStart text) ||
    (dropStart? "not".toList (trimStart text)).any fun rest =>
      rest.isEmpty || startsBlank rest

/-- What a condition has to be in order not to be mistaken for something
else. -/
structure IsTest (text : Text) : Prop where
  notBlank : trim text ≠ []
  balanced : Balanced text
  noQuestion : ¬ Exposed '?' text
  notNegation : ¬ opensNegation text

/-- What a branch has to be in order to end at its colon. -/
structure IsBranch (text : Text) : Prop where
  balanced : Balanced text
  noColon : ¬ Exposed ':' text

theorem cutTopLevel_append
    {separator : Separator} {text : Text}
    (read : separator.scan.run .start text = some .start) (rest : Text) :
    cutTopLevel separator.character
      (text ++ ' ' :: separator.character :: rest) =
      some (text ++ [' '], rest) := by
  have readBlank : separator.scan.run .start (text ++ [' ']) = some .start := by
    rw [Scan.run_append_of_run read]
    exact Scan.run_blanks rfl (List.forall_mem_singleton.mpr rfl)
  have stops : separator.scan.step .start separator.character = none :=
    Separator.step_eq_none_iff.mpr ⟨rfl, rfl⟩
  rw [cutTopLevel, separator.cutTopLevelFrom_eq_stop, List.append_cons]
  exact Scan.stop_append readBlank stops rest

def trimmedConditional (condition branch otherwise : Text) : Text :=
  trimStart condition ++ ' ' :: '?' :: ' ' ::
    (branch ++ ' ' :: ':' :: trimEnd (' ' :: otherwise))

theorem trim_conditional
    {condition : Text} (notBlank : trim condition ≠ [])
    (branch otherwise : Text) :
    trim (conditional condition branch otherwise) =
      trimmedConditional condition branch otherwise := by
  have atColon : ∀ rest : Text,
      trimStart condition ++ ' ' :: '?' :: ' ' ::
        (branch ++ ' ' :: ':' :: rest) =
        trimStart condition ++ ' ' :: '?' :: ' ' :: (branch ++ [' ']) ++ ':' ::
          rest := by
    intro rest
    simp
  have notBlankColon : ¬ isBlank ':' := by decide
  rw [trim, conditional, trimStart_append_of_not_blank notBlank, atColon,
    trimEnd_append_of_not_blank _ notBlankColon, ← atColon, trimmedConditional]

section Reading

variable {condition branch : Text} (isTest : IsTest condition)

include isTest

theorem negated?_trimmedConditional (rest : Text) :
    Expression.negated? (trimStart condition ++ ' ' :: rest) = none := by
  obtain ⟨first, others, front⟩ :=
    List.exists_cons_of_ne_nil (trimStart_ne_nil isTest.notBlank)
  have notNegation := isTest.notNegation
  simp only [opensNegation, Bool.or_eq_true, not_or,
    Bool.not_eq_true] at notNegation
  obtain ⟨notMark, notWord⟩ := notNegation
  have noWord :
      (dropStart? "not".toList (trimStart condition ++ ' ' :: rest)).filter
        startsBlank =
      none := by
    rw [dropStart?_append_cons (by decide)]
    cases dropped : dropStart? "not".toList (trimStart condition) with
    | none => rfl
    | some behind =>
        rw [dropped] at notWord
        cases behind with
        -- Directly behind the word the blank before the question mark would come next.
        | nil => cases notWord
        | cons next behind => simpa [startsBlank] using notWord
  have noMark : first ≠ '!' := by
    rintro rfl
    rw [front] at notMark
    cases notMark
  rw [Expression.negated?.eq_def, noWord, front, List.cons_append]
  simp [noMark]

/-- A conditional is cut at the mark behind its condition and at the colon
behind its branch, whatever follows. -/
theorem splitConditional?_trimmedConditional
    (isBranch : IsBranch branch) (otherwise : Text) :
    splitConditional? (trimmedConditional condition branch otherwise) =
      some (trim condition, trim branch, trim otherwise) := by
  have readCondition :
      Separator.question.scan.run .start (trimStart condition) =
        some .start := by
    rw [Scan.run_trimStart rfl]
    exact run_of_settled isTest.balanced.settled isTest.noQuestion
  have readBranch :
      Separator.colon.scan.run .start (' ' :: branch) = some .start := by
    have blank : Separator.colon.scan.step .start ' ' = some .start := rfl
    rw [Scan.run_cons_of_step blank]
    exact run_of_settled isBranch.balanced.settled isBranch.noColon
  have cutQuestion :
      cutTopLevel '?' (trimmedConditional condition branch otherwise) =
      some (trimStart condition ++ [' '],
        ' ' :: branch ++ ' ' :: ':' :: trimEnd (' ' :: otherwise)) :=
    cutTopLevel_append readCondition _
  have cutColon :
      cutTopLevel ':'
        (' ' :: branch ++ ' ' :: ':' :: trimEnd (' ' :: otherwise)) =
      some (' ' :: branch ++ [' '], trimEnd (' ' :: otherwise)) :=
    cutTopLevel_append readBranch _
  have trimmedCondition :
      trim (trimStart condition ++ [' ']) = trim condition := by
    rw [trim_concat_of_blank _ (by decide), trim_trimStart]
  have trimmedBranch : trim (' ' :: branch ++ [' ']) = trim branch := by
    rw [trim_concat_of_blank _ (by decide), trim_space_cons]
  have trimmedOtherwise :
      trim (trimEnd (' ' :: otherwise)) = trim otherwise := by
    rw [trim_trimEnd, trim_space_cons]
  rw [splitConditional?, cutQuestion]
  simp only [cutColon, trimmedCondition, trimmedBranch, trimmedOtherwise]

end Reading

end Text

namespace Expression

/-- A text that is nothing else and can be cut as a conditional is one. -/
theorem readTrimmed_of_conditional
    {text condition yes no : Text} (nonempty : text ≠ [])
    (noString : stringLiteral? text = none)
    (noChar : charLiteral? text = none) (noCall : splitCall? text = none)
    (noName : isName text = false) (notNegated : negated? text = none)
    (isConditional : splitConditional? text = some (condition, yes, no)) :
    readTrimmed text =
      .conditional (readTrimmed condition) (readTrimmed yes)
        (readTrimmed no) := by
  rw [readTrimmed, if_neg (by simpa using nonempty)]
  simp only [noString, noChar, noCall, noName, Bool.false_eq_true, if_false]
  split
  · next negated => cases notNegated.symm.trans negated
  · split
    · next split =>
        cases isConditional.symm.trans split
        rfl
    · next split => cases isConditional.symm.trans split

/-- A conditional is read as one, from a condition and a branch that can stand
in it. -/
theorem read_conditional
    {condition branch : Text} (isTest : IsTest condition)
    (isBranch : IsBranch branch) (otherwise : Text) :
    read (Text.conditional condition branch otherwise) =
      .conditional (read condition) (read branch) (read otherwise) := by
  have balanced := isTest.balanced.trimStart
  have visible := trimStart_ne_nil isTest.notBlank
  have more : ∀ rest : Text, ' ' :: rest ≠ [] := List.cons_ne_nil ' '
  rw [read, trim_conditional isTest.notBlank, trimmedConditional]
  -- The other forms of an expression are ruled out in the order in which they are tried.
  apply readTrimmed_of_conditional
  · exact List.append_ne_nil_of_left_ne_nil visible _
  · exact balanced.stringLiteral?_append visible (more _)
  · exact balanced.charLiteral?_append visible (more _)
  · exact balanced.splitCall?_append (by decide) (by decide) _
  · apply Bool.eq_false_iff.mpr
    intro named
    have notName : ¬ isNameChar ' ' := by decide
    exact not_mem_name named notName
      (List.mem_append_right _ List.mem_cons_self)
  · exact negated?_trimmedConditional isTest _
  · exact splitConditional?_trimmedConditional isTest isBranch otherwise

end Expression

/-! ## Evaluating a conditional -/

/-- Whatever is done, as many calls are in progress afterwards as before. -/
def Conduct.keepsDepth (mode : AssignmentMode) : Conduct mode where
  calls before after := after.depth = before.depth
  acts _ before after := after.depth = before.depth
  refl _ := rfl
  trans start ending := ending.trans start
  acts_of_calls same := same
  acts_trans start ending := ending.trans start
  prints _ _ := rfl
  stores _ _ _ _ := rfl
  binds _ _ _ _ := rfl
  returns {machine owner ending} same := by
    have entered : (machine.entered owner).depth = machine.depth + 1 := rfl
    show ending.depth - 1 = machine.depth
    rw [same, entered, Nat.add_sub_cancel]

theorem Value.eq_boolean_of_boolean?
    {value : Value} {truth : Bool} (isTruth : value.boolean? = some truth) :
    value = .boolean truth := by
  cases value with
  | boolean _ =>
      cases isTruth
      rfl
  | _ => cases isTruth

namespace Session

section Performing

variable {α β : Type} {session after : Session} {action : Action α}

theorem run_of_perform
    {result : Except Fault α} (ran : session.perform action = (result, after)) :
    action.run session.machine = (result, after.machine) ∧
      after = { session with machine := after.machine } := by
  cases ran
  exact ⟨rfl, rfl⟩

theorem perform_bind_of_ok
    {value : α} (ran : session.perform action = (.ok value, after))
    (next : α → Action β) :
    session.perform (action >>= next) = after.perform (next value) := by
  obtain ⟨run, same⟩ := run_of_perform ran
  rw [perform, Action.run_bind, run, same]
  rfl

theorem perform_bind_of_error
    {fault : Fault} (ran : session.perform action = (.error fault, after))
    (next : α → Action β) :
    session.perform (action >>= next) = (.error fault, after) := by
  obtain ⟨run, same⟩ := run_of_perform ran
  rw [perform, Action.run_bind, run, same]

end Performing

/-- Calls mean the same after an evaluation. -/
theorem invoker_of_evaluate
    {session after : Session} {scope : ScopeId} {source : Text}
    {result : Except Fault Value}
    (ran : session.evaluate scope source = (result, after)) :
    after.invoker = session.invoker := by
  have admits :=
    session.admits_invoker (Conduct.keepsDepth session.settings.assignment)
  obtain ⟨run, same⟩ := run_of_perform ran
  have kept : after.machine.depth = session.machine.depth := by
    have within :=
      Conduct.evaluateText_within admits scope source session.machine
    rw [run] at within
    exact within
  rw [same, invoker, invoker, room, room]
  simp only [kept]

section Step

variable
  {condition branch : Text} (isTest : IsTest condition)
    (isBranch : IsBranch branch)
  {session after : Session} {scope : ScopeId}

include isTest isBranch

/-- The condition of a conditional comes first, and then only the branch that it
selects. -/
theorem evaluate_conditional (otherwise : Text) :
    session.evaluate scope (Text.conditional condition branch otherwise) =
      session.perform (do
        let value ← Evaluation.evaluateText session.invoker scope condition
        let truth ← Action.ofExcept (Evaluation.expectBoolean value)
        if truth then Evaluation.evaluateText session.invoker scope branch
        else Evaluation.evaluateText session.invoker scope otherwise) := by
  rw [evaluate, Evaluation.evaluateText,
    Expression.read_conditional isTest isBranch]
  rfl

/-- A condition that fails is all that is evaluated. -/
theorem evaluate_conditional_of_error
    {fault : Fault}
    (ran : session.evaluate scope condition = (.error fault, after))
    (otherwise : Text) :
    session.evaluate scope (Text.conditional condition branch otherwise) =
      (.error fault, after) := by
  rw [evaluate_conditional isTest isBranch]
  exact perform_bind_of_error ran _

/-- A condition that is no truth value is a fault of the conditional. -/
theorem evaluate_conditional_of_mistyped
    {value : Value}
    (ran : session.evaluate scope condition = (.ok value, after))
    (noTruth : value.boolean? = none) (otherwise : Text) :
    session.evaluate scope (Text.conditional condition branch otherwise) =
      (.error (.typeMismatch .boolean (.kind value.kind)), after) := by
  rw [evaluate_conditional isTest isBranch, perform_bind_of_ok ran,
    Evaluation.expectBoolean, noTruth]
  rfl

/-- A truth value decides which of the other two texts is evaluated, and the
other one is not. -/
theorem evaluate_conditional_of_boolean
    {truth : Bool}
    (ran : session.evaluate scope condition = (.ok (.boolean truth), after))
    (otherwise : Text) :
    session.evaluate scope (Text.conditional condition branch otherwise) =
      after.evaluate scope (if truth then branch else otherwise) := by
  rw [evaluate_conditional isTest isBranch, perform_bind_of_ok ran, evaluate,
    invoker_of_evaluate ran]
  cases truth with
  | true => rfl
  | false => rfl

end Step
end Session

structure Arm where
  condition : Text
  branch : Text
  isTest : IsTest condition
  isBranch : IsBranch branch

def Arm.chain (arms : List Arm) (last : Text) : Text :=
  arms.foldr
    (fun arm otherwise => Text.conditional arm.condition arm.branch otherwise)
      last

namespace Session

/-- The outcome of arms that are tried in order, each condition in the session
that the one before has left.  No condition is evaluated behind one that holds,
and no branch but its own. -/
inductive Selects (scope : ScopeId) (last : Text) :
    Session → List Arm → Except Fault Value × Session → Prop
  | last {session : Session} :
      Selects scope last session [] (session.evaluate scope last)
  | chosen {session after : Session} {arm : Arm} {later : List Arm}
      (holds : session.evaluate scope arm.condition =
        (.ok (.boolean true), after)) :
      Selects scope last session (arm :: later)
        (after.evaluate scope arm.branch)
  | passed {session after : Session} {arm : Arm} {later : List Arm}
      {outcome : Except Fault Value × Session}
      (fails : session.evaluate scope arm.condition =
        (.ok (.boolean false), after))
      (goesOn : Selects scope last after later outcome) :
      Selects scope last session (arm :: later) outcome
  | failed {session after : Session} {arm : Arm} {later : List Arm}
      {fault : Fault}
      (fails : session.evaluate scope arm.condition = (.error fault, after)) :
      Selects scope last session (arm :: later) (.error fault, after)
  | mistyped {session after : Session} {arm : Arm} {later : List Arm}
      {value : Value}
      (gives : session.evaluate scope arm.condition = (.ok value, after))
      (noTruth : value.boolean? = none) :
      Selects scope last session (arm :: later)
        (.error (.typeMismatch .boolean (.kind value.kind)), after)

/-- The text of a chain is evaluated as the chain selects. -/
theorem Selects.evaluate_eq
    {scope : ScopeId} {last : Text} {session : Session} {arms : List Arm}
    {outcome : Except Fault Value × Session}
    (selects : Selects scope last session arms outcome) :
    session.evaluate scope (Arm.chain arms last) = outcome := by
  induction selects with
  | last => rfl
  | @chosen _ _ arm _ holds =>
      exact evaluate_conditional_of_boolean arm.isTest arm.isBranch holds _
  | @passed _ _ arm _ _ fails _ inductionHypothesis =>
      rw [← inductionHypothesis]
      exact evaluate_conditional_of_boolean arm.isTest arm.isBranch fails _
  | @failed _ _ arm _ _ fails =>
      exact evaluate_conditional_of_error arm.isTest arm.isBranch fails _
  | @mistyped _ _ arm _ _ gives noTruth =>
      exact evaluate_conditional_of_mistyped arm.isTest arm.isBranch gives
        noTruth _

/-- A chain always selects something, a fault included. -/
theorem exists_selects
    (scope : ScopeId) (last : Text) (session : Session) (arms : List Arm) :
    ∃ outcome, Selects scope last session arms outcome := by
  induction arms generalizing session with
  | nil => exact ⟨_, .last⟩
  | cons arm later inductionHypothesis =>
      rcases ran :
        session.evaluate scope arm.condition with ⟨fault | value, after⟩
      · exact ⟨_, .failed ran⟩
      · cases isTruth : value.boolean? with
        | none => exact ⟨_, .mistyped ran isTruth⟩
        | some truth =>
            rw [Value.eq_boolean_of_boolean? isTruth] at ran
            cases truth with
            | true => exact ⟨_, .chosen ran⟩
            | false =>
                obtain ⟨outcome, selects⟩ := inductionHypothesis after
                exact ⟨outcome, .passed ran selects⟩

/-- A chain of conditionals selects the branch of the first condition that
holds: its outcome is that of the conditions up to this one, in order, and of
the branch behind it.  What stands in the other arms does not matter. -/
theorem conditional_chain_selects_first_true
    (session : Session) (scope : ScopeId) (arms : List Arm) (last : Text)
    (outcome : Except Fault Value × Session) :
    session.evaluate scope (Arm.chain arms last) = outcome ↔
      Selects scope last session arms outcome := by
  constructor
  · intro evaluated
    obtain ⟨selected, selects⟩ := exists_selects scope last session arms
    rw [← evaluated, selects.evaluate_eq]
    exact selects
  · exact Selects.evaluate_eq

/-- A session in which `b` and `not` are truth values. -/
def deciding : Session :=
  let settings : Settings :=
    { assignment := .shadow
      callLimit := 1
      commands := fun _ _ => { lines := [], failure := none } }
  (start settings).modifyForest fun forest =>
    (forest.setVariable 0 ['b'] (.boolean false)).setVariable 0 "not".toList
    (.boolean true)

/-- An arm that is passed over and one that is chosen, with a string and a call
that look like more of the chain. -/
def decided : List Arm :=
  [{ condition := ['b']
     branch := "f(\":\", [?:])".toList
     isTest := ⟨by decide +kernel, by decide +kernel, by decide +kernel, by decide +kernel⟩
     isBranch := ⟨by decide +kernel, by decide +kernel⟩ },
   { condition := "true".toList
     branch := "\"?:(\"".toList
     isTest := ⟨by decide +kernel, by decide +kernel, by decide +kernel, by decide +kernel⟩
     isBranch := ⟨by decide +kernel, by decide +kernel⟩ }]

theorem chain_decided :
    Arm.chain decided "g()".toList =
      "b ? f(\":\", [?:]) : true ? \"?:(\" : g()".toList := by
  decide +kernel

/-- The chain passes over a branch with marks inside brackets and selects a
string with marks in it. -/
theorem conditional_chain_selects_first_true_of_decided :
    deciding.evaluate 0 "b ? f(\":\", [?:]) : true ? \"?:(\" : g()".toList =
      (.ok (.string "?:(".toList), deciding) := by
  have fails :
      deciding.evaluate 0 ['b'] = (.ok (.boolean false), deciding) := by
    with_unfolding_all rfl
  have holds :
      deciding.evaluate 0 "true".toList = (.ok (.boolean true), deciding) := by
    with_unfolding_all rfl
  have branch : deciding.evaluate 0 "\"?:(\"".toList =
      (.ok (.string "?:(".toList), deciding) := by
    with_unfolding_all rfl
  have selects :
      Selects 0 "g()".toList deciding decided
        (deciding.evaluate 0 "\"?:(\"".toList) :=
    .passed fails (.chosen holds)
  have evaluated := (conditional_chain_selects_first_true _ _ _ _ _).mpr selects
  rw [chain_decided] at evaluated
  exact evaluated.trans branch

/-- A condition whose own first characters are no negation.  The blank behind it
and blanks before it are left out of account. -/
structure IsPlainCondition (text : Text) : Prop where
  notBlank : trim text ≠ []
  balanced : Balanced text
  noQuestion : ¬ Exposed '?' text
  noColon : ¬ Exposed ':' text
  noMark : ¬ startsWith ['!'] text
  noWord : ¬ (dropStart? "not".toList text).any startsBlank

/-- The name `not` before a question mark is a negation for the blank between
them, and so is an exclamation mark behind a blank.  The rest of the conditional
is then the operand. -/
theorem negation_comes_before_conditional :
    (IsPlainCondition "not".toList ∧
      deciding.evaluate 0 "not".toList = (.ok (.boolean true), deciding) ∧
      deciding.evaluate 0 (Text.conditional "not".toList ['1'] ['2']) =
        (.error (.malformed .emptyExpression), deciding)) ∧
      IsPlainCondition " !b".toList ∧
      deciding.evaluate 0 " !b".toList = (.ok (.boolean true), deciding) ∧
      deciding.evaluate 0 (Text.conditional " !b".toList ['1'] ['2']) =
        (.error (.typeMismatch .boolean (.kind .integer)), deciding) := by
  have plainWord : IsPlainCondition "not".toList := by
    constructor <;> decide +kernel
  have plainMark : IsPlainCondition " !b".toList := by
    constructor <;> decide +kernel
  refine ⟨⟨plainWord, ?_, ?_⟩, plainMark, ?_, ?_⟩
  · with_unfolding_all rfl
  · with_unfolding_all rfl
  · with_unfolding_all rfl
  · with_unfolding_all rfl

end Session
end LineScript
