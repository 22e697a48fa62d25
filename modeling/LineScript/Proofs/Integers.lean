import LineScript.Proofs.Console
import LineScript.Proofs.Macro.Lexing
import LineScript.Proofs.Statement.Roundtrip
import LineScript.Proofs.Text.Balance
import LineScript.Proofs.Visibility

/-!
Integers in declarations, on the console and in steps.

The decimal text of a 64-bit integer is read back as that integer before
arithmetic could take it for a number with rounding.  So a variable that is
declared with such a text holds exactly the integer and is printed as the same
text.
-/

namespace LineScript

open Text

namespace Decimal

theorem isDigit_of_mem_digits {number : Nat} {character : Char}
    (member : character ∈ digits number) : isDigit character := by
  have digit := Nat.isDigit_of_mem_toDigits (by decide) (Nat.le_refl 10) member
  simp only [Char.isDigit, Bool.and_eq_true, decide_eq_true_eq,
    ge_iff_le] at digit
  simp only [isDigit, Bool.and_eq_true, decide_eq_true_eq]
  exact digit

theorem digitsValue_digits (number : Nat) :
    digitsValue (digits number) = number := by
  have value :=
    Nat.ofDigitChars_toDigits (n := number) (by decide) (Nat.le_refl 10)
  simp only [Nat.ofDigitChars, Nat.mul_comm 10] at value
  exact value

theorem digits_ne_nil (number : Nat) : digits number ≠ [] :=
  Nat.toDigits_ne_nil

theorem readDigits?_digits (number : Nat) :
    readDigits? (digits number) = some number := by
  have nonempty : (digits number).isEmpty = false :=
    List.isEmpty_eq_false_iff.mpr (digits_ne_nil _)
  have allDigits : (digits number).all isDigit = true :=
    List.all_eq_true.mpr fun _ member => isDigit_of_mem_digits member
  rw [readDigits?, nonempty, allDigits, digitsValue_digits]
  rfl

/-- The decimal text of an integer is read back as the integer. -/
theorem readSigned?_integer (number : Int) :
    readSigned? (integer number) = some number := by
  rw [integer]
  split
  · next negative =>
      rw [readSigned?, readDigits?_digits]
      show some (-(number.natAbs : Int)) = some number
      rw [Int.ofNat_natAbs_of_nonpos (Int.le_of_lt negative), Int.neg_neg]
  · next notNegative =>
      have reads := readDigits?_digits number.natAbs
      obtain ⟨first, rest, whole⟩ :=
        List.exists_cons_of_ne_nil (digits_ne_nil number.natAbs)
      have isFirst : first ∈ digits number.natAbs := by
        rw [whole]
        exact List.mem_cons_self
      have digit := isDigit_of_mem_digits isFirst
      rw [whole] at reads ⊢
      rw [readSigned?.eq_def]
      -- No digit is a sign.
      split
      · next same =>
          cases same
          exact absurd digit (by decide)
      · next same =>
          cases same
          exact absurd digit (by decide)
      · rw [reads]
        show some (number.natAbs : Int) = some number
        rw [Int.natAbs_of_nonneg (Int.not_lt.mp notNegative)]

/-- An integer is in range exactly if it is that of a 64-bit one. -/
theorem int64?_eq_some_iff {number : Int} {result : Int64} :
    int64? number = some result ↔ result.toInt = number := by
  rw [int64?]
  constructor
  · intro found
    split at found
    · next inRange =>
        cases found
        have low : -2 ^ 63 ≤ number := inRange.1
        have high : number ≤ 2 ^ 63 - 1 := inRange.2
        exact Int64.toInt_ofInt_of_le low (by omega)
    · cases found
  · rintro rfl
    rw [if_pos ⟨result.minValue_le_toInt, result.toInt_le⟩, Int64.ofInt_toInt]

theorem int64?_eq_none_iff {number : Int} :
    int64? number = none ↔ ∀ result : Int64, result.toInt ≠ number := by
  rw [Option.eq_none_iff_forall_ne_some]
  simp only [ne_eq, int64?_eq_some_iff]

/-- The decimal text of an integer of 64 bits is read as this integer. -/
theorem readInteger?_integer (number : Int64) :
    readInteger? (integer number.toInt) = some number := by
  rw [readInteger?, readSigned?_integer, Option.bind_some]
  exact int64?_eq_some_iff.mpr rfl

def isFigure (character : Char) : Bool :=
  isDigit character || character == '-'

theorem isFigure_of_mem_integer {number : Int} {character : Char}
    (member : character ∈ integer number) : isFigure character := by
  have figures : character ∈ digits number.natAbs → isFigure character := by
    intro inDigits
    rw [isFigure, isDigit_of_mem_digits inDigits, Bool.true_or]
  rw [integer] at member
  split at member
  · rcases List.mem_cons.mp member with sign | later
    · rw [sign]
      rfl
    · exact figures later
  · exact figures member

theorem integer_ne_nil (number : Int) : integer number ≠ [] := by
  rw [integer]
  split
  · exact List.cons_ne_nil _ _
  · exact digits_ne_nil _

section Figures

variable {character : Char} (figure : isFigure character)

include figure

theorem ne_of_isFigure {different : Char} (other : ¬ isFigure different) :
    character ≠ different := by
  intro same
  rw [same] at figure
  exact other figure

theorem isPlain_of_isFigure : Nesting.isPlain character := by
  rcases Bool.or_eq_true_iff.mp figure with digit | sign
  · exact Nesting.isPlain_of_isNameChar (isNameChar_of_isDigit digit)
  · rw [beq_iff_eq.mp sign]
    rfl

theorem not_isBlank_of_isFigure : ¬ isBlank character := by
  rcases Bool.or_eq_true_iff.mp figure with digit | sign
  · exact not_isBlank_of_isNameChar (isNameChar_of_isDigit digit)
  · rw [beq_iff_eq.mp sign]
    decide

theorem not_isNameStart_of_isFigure : isNameStart character = false := by
  apply Bool.eq_false_iff.mpr
  intro starts
  rcases Bool.or_eq_true_iff.mp figure with digit | sign
  · exact not_isDigit_of_isNameStart starts digit
  · rw [beq_iff_eq.mp sign] at starts
    exact absurd starts (by decide)

end Figures

theorem solid_integer (number : Int) : Solid (integer number) := by
  obtain ⟨first, rest, whole⟩ :=
    List.exists_cons_of_ne_nil (integer_ne_nil number)
  have figures : ∀ character ∈ first :: rest, isFigure character := by
    rw [← whole]
    exact fun character member => isFigure_of_mem_integer member
  rw [whole]
  apply solid_cons (not_isBlank_of_isFigure (figures first List.mem_cons_self))
  intro character isLast
  exact not_isBlank_of_isFigure
    (figures character (List.mem_of_getLast? isLast))

end Decimal

/-! ## Expressions -/

namespace Expression

open Decimal

section FirstCharacter

variable {first : Char}

theorem stringLiteral?_cons_of_ne (notQuote : first ≠ '"') (rest : Text) :
    stringLiteral? (first :: rest) = none := by
  apply Option.eq_none_iff_forall_ne_some.mpr
  intro body isString
  exact notQuote
    (List.head_eq_of_cons_eq (stringLiteral?_eq_some_iff.mp isString).2)

theorem charLiteral?_cons_of_ne (notQuote : first ≠ '\'') (rest : Text) :
    charLiteral? (first :: rest) = none := by
  apply Option.eq_none_iff_forall_ne_some.mpr
  intro body isChar
  exact notQuote
    (List.head_eq_of_cons_eq (literalBody_of_charLiteral? isChar).2)

end FirstCharacter

theorem splitConditional?_of_figures
    {text : Text} (figures : ∀ character ∈ text, isFigure character) :
    splitConditional? text = none := by
  have read : Separator.question.scan.run .start text = some .start := by
    apply Scan.run_of_ignored
    intro character member
    have figure := figures character member
    exact Separator.step_of_isPlain rfl (isPlain_of_isFigure figure)
      (ne_of_isFigure figure (by decide))
  have uncut : cutTopLevel '?' text = none := by
    rw [cutTopLevel]
    exact (Separator.question.cutTopLevelFrom_eq_stop _ _).trans
      (Scan.stop_of_run read)
  rw [splitConditional?, uncut]

theorem negated?_cons_of_figure
    {first : Char} (figure : isFigure first) (rest : Text) :
    negated? (first :: rest) = none := by
  have notLetter : 'n' ≠ first := (ne_of_isFigure figure (by decide)).symm
  have notMark : first ≠ '!' := ne_of_isFigure figure (by decide)
  have noWord : dropStart? "not".toList (first :: rest) = none :=
    if_neg notLetter
  rw [negated?.eq_def, noWord]
  simp [notMark]

/-- The decimal text of an integer is none of the other forms of an
expression. -/
theorem read_integer (number : Int64) :
    read (Decimal.integer number.toInt) = .integer number := by
  have solid := solid_integer number.toInt
  have found := readInteger?_integer number
  have figures :
      ∀ character ∈ Decimal.integer number.toInt, isFigure character :=
    fun character member => isFigure_of_mem_integer member
  obtain ⟨first, rest, whole⟩ := List.exists_cons_of_ne_nil solid.nonempty
  rw [read, solid.trimmed]
  rw [whole] at found figures ⊢
  have figure := figures first List.mem_cons_self
  have noString : stringLiteral? (first :: rest) = none :=
    stringLiteral?_cons_of_ne (ne_of_isFigure figure (by decide)) rest
  have noChar : charLiteral? (first :: rest) = none :=
    charLiteral?_cons_of_ne (ne_of_isFigure figure (by decide)) rest
  have noStart := not_isNameStart_of_isFigure figure
  have noCall : splitCall? (first :: rest) = none := by
    simp [splitCall?, spanName, noStart]
  have noName : isName (first :: rest) = false := by
    simp [isName, noStart]
  have notNegated := negated?_cons_of_figure figure rest
  have notConditional := splitConditional?_of_figures figures
  rw [readTrimmed]
  simp only [List.isEmpty_cons, Bool.false_eq_true, if_false, noString, noChar,
    noCall, noName]
  split
  · next negated => cases notNegated.symm.trans negated
  · split
    · next split => cases notConditional.symm.trans split
    · rw [found]

/-- A name that stands alone is read as that name. -/
theorem read_name {name : Text} (named : isName name) :
    read name = .name name := by
  obtain ⟨first, rest, whole, starts, _⟩ := exists_cons_of_isName named
  have nameChar := isNameChar_of_isNameStart starts
  have noString : stringLiteral? name = none := by
    rw [whole]
    exact stringLiteral?_cons_of_ne (ne_of_isNameChar nameChar (by decide)) rest
  have noChar : charLiteral? name = none := by
    rw [whole]
    exact charLiteral?_cons_of_ne (ne_of_isNameChar nameChar (by decide)) rest
  have noCall : splitCall? name = none := by
    apply Option.eq_none_iff_forall_ne_some.mpr
    intro parts isCall
    rw [splitCall?] at isCall
    split at isCall
    · cases isCall
    · obtain ⟨inner, isInner, _⟩ := Option.map_eq_some_iff.mp isCall
      have inName : '(' ∈ name := by
        rw [(callInner?_eq_some_iff.mp isInner).2]
        exact List.mem_append_right _ List.mem_cons_self
      exact not_mem_name named (by decide) inName
  have nonempty : name.isEmpty = false := by simpa using name_ne_nil named
  rw [read, trim_name named, readTrimmed]
  simp only [nonempty, Bool.false_eq_true, if_false, noString, noChar, noCall,
    named, if_true]

end Expression

/-- A name can be the only argument of a call. -/
theorem Text.listable_name {name : Text} (named : isName name) :
    Listable [name] := by
  have plain : ∀ character ∈ name, Nesting.isPlain character :=
    fun character member =>
    Nesting.isPlain_of_isNameChar
      (isNameChar_of_mem_name named character member)
  have atRoundBracket : roundScan.run ⟨.outside, 1⟩ name = some ⟨.outside, 1⟩ :=
    Scan.run_of_ignored fun character member =>
      roundStep_of_isPlain rfl (plain character member)
  have atComma : Separator.comma.scan.run .start name = some .start := by
    apply Scan.run_of_ignored
    intro character member
    have nameChar := isNameChar_of_mem_name named character member
    exact Separator.step_of_isPlain rfl (plain character member)
      (ne_of_isNameChar nameChar (by decide))
  have trimmed := trim_name named
  have notBlank : trim name ≠ [] := by
    rw [trimmed]
    exact name_ne_nil named
  constructor
  · rw [commaList_singleton]
    exact ⟨⟨.outside, 1⟩, atRoundBracket, rfl⟩
  · have single : topLevelPieces ',' .start name = [name] :=
      Separator.pieces_of_run atComma
    rw [commaList_singleton, splitTopLevel_of_trim_ne_nil notBlank, single,
      List.map_singleton, trimmed]

theorem TypeTag.read_text (tag : TypeTag) :
    TypeTag.read tag.text = .ok tag := by
  cases tag <;> rfl

namespace Statement

/-- The declaration of a variable with an integer for its value. -/
theorem wellFormed_declareInteger
    {name : Text} (named : isName name) (tag : TypeTag) (number : Int) :
    (declare name tag.text (Decimal.integer number)).WellFormed := by
  have word := isNameChar_of_mem_returns (.value tag)
  have trimmed : trim tag.text = tag.text := by cases tag <;> rfl
  have noEquals : '=' ∉ tag.text :=
    fun member => absurd (word '=' member) (by decide)
  apply WellFormed.declare named trimmed noEquals (Decimal.solid_integer number)
  intro isBar
  obtain ⟨rest, whole⟩ := List.head?_eq_some_iff.mp isBar
  have figure : Decimal.isFigure '|' := by
    apply Decimal.isFigure_of_mem_integer
    rw [whole]
    exact List.mem_cons_self
  exact absurd figure (by decide)

end Statement

namespace Conformance

theorem check_int64 (number : Int64) :
    check .int64 (.integer number) = .ok (.integer number) := by
  have low : int64Min ≤ number.toInt := number.minValue_le_toInt
  have high : number.toInt ≤ int64Max := number.toInt_le
  show bounded .int64 int64Min int64Max number.toInt = .ok (.integer number)
  rw [bounded, if_pos ⟨low, high⟩, Int64.ofInt_toInt]

/-- The integers that fit into 32 bits. -/
def FitsInt32 (number : Int) : Prop :=
  -2147483648 ≤ number ∧ number ≤ 2147483647

theorem check_int32_of_fits {number : Int64} (fits : FitsInt32 number.toInt) :
    check .int32 (.integer number) = .ok (.integer number) := by
  have inRange : int32Min ≤ number.toInt ∧ number.toInt ≤ int32Max := fits
  show bounded .int32 int32Min int32Max number.toInt = .ok (.integer number)
  rw [bounded, if_pos inRange, Int64.ofInt_toInt]

theorem check_int32_of_not_fits
    {number : Int64} (unfit : ¬ FitsInt32 number.toInt) :
    check .int32 (.integer number) =
      .error (.typeMismatch (.tag .int32) (.outOfRange number.toInt)) :=
  if_neg unfit

end Conformance

def Step.difference : Step → Int
  | .increment => 1
  | .decrement => -1

namespace Evaluation

/-- A step adds its difference unless it leaves the range, which is a fault. -/
theorem stepped_integer (direction : Step) (number : Int64) :
    stepped direction (.integer number) =
      match Decimal.int64? (number.toInt + direction.difference) with
      | some next => .ok (.integer next)
      | none =>
          .error (.typeMismatch (.tag .int64)
            (.stepOverflow number.toInt)) := by
  cases direction with
  | increment => rfl
  | decrement => rfl

variable (invoke : Invoker Action) (scope : ScopeId) {machine : Machine}

theorem run_evaluateText_integer (number : Int64) :
    (evaluateText invoke scope (Decimal.integer number.toInt)).run machine =
      (.ok (.integer number), machine) := by
  rw [evaluateText, Expression.read_integer]
  rfl

theorem run_evaluateText_name
    {name : Text} (named : isName name) {value : Value}
    (bound : machine.forest.value? scope name = some value) :
    (evaluateText invoke scope name).run machine = (.ok value, machine) := by
  rw [evaluateText, Expression.read_name named, evaluate]
  show (nameValue machine scope name, machine) = _
  rw [nameValue, bound]

end Evaluation

/-! ## Sessions -/

namespace Session

variable (session : Session) {scope : ScopeId} {name : Text}
    (named : isName name)
  (number : Int64)

include named

section Declaring

variable {tag : TypeTag}

/-- Declaring a variable with a decimal text checks the integer and binds it. -/
theorem tryExecute_declareInteger :
    session.tryExecute scope
        (Statement.declare name tag.text (Decimal.integer number.toInt)).text =
      session.perform (do
        let stored ← Action.ofExcept (Conformance.check tag (.integer number))
        Action.modifyForest fun forest =>
          forest.setVariable scope name stored) := by
  have reads :=
    (Statement.wellFormed_declareInteger named tag number.toInt).read_text
  have comes :
      (Evaluation.outcome (Evaluation.evaluateText session.invoker scope)
          session.settings.commands (session.invoker scope) scope
          (.declare name tag.text (Decimal.integer number.toInt))).run
          session.machine =
        ((Conformance.check tag (.integer number)).map some,
          session.machine) := by
    rw [Evaluation.outcome, TypeTag.read_text]
    show ((Evaluation.evaluateText session.invoker scope
      (Decimal.integer number.toInt) >>= _).run session.machine) = _
    rw [Action.run_bind, Evaluation.run_evaluateText_integer]
    show (liftM (Action.ofExcept (Conformance.check tag (.integer number))) >>=
      _ : Action (Option Value)).run session.machine = _
    cases Conformance.check tag (.integer number) with
    | error fault => rfl
    | ok stored => rfl
  rw [tryExecute_of_read session scope reads, perform, Evaluation.runStatement,
    Evaluation.effect, Action.run_bind, comes]
  cases Conformance.check tag (.integer number) with
  | error fault => rfl
  | ok stored => rfl

variable {number}

theorem tryExecute_declareInteger_of_ok
    (fits : Conformance.check tag (.integer number) = .ok (.integer number)) :
    session.tryExecute scope
        (Statement.declare name tag.text (Decimal.integer number.toInt)).text =
      (.ok (), session.modifyForest fun forest =>
        forest.setVariable scope name (.integer number)) := by
  rw [session.tryExecute_declareInteger named, fits]
  rfl

theorem tryExecute_declareInteger_of_error
    {fault : Fault}
    (refused : Conformance.check tag (.integer number) = .error fault) :
    session.tryExecute scope
        (Statement.declare name tag.text (Decimal.integer number.toInt)).text =
      (.error fault, session) := by
  rw [session.tryExecute_declareInteger named, refused]
  rfl

end Declaring

/-- A variable is printed as the text of its value. -/
theorem tryExecute_write_name
    {value : Value} (bound : session.forest.value? scope name = some value) :
    session.tryExecute scope (Statement.write name [] true).text =
      (.ok (), session.printed (value.text ++ ['\n'])) := by
  have reads :=
    (Statement.WellFormed.write true (listable_name named)).read_text
  have evaluated :=
    Evaluation.run_evaluateText_name session.invoker scope named bound
  have rendered :
      (Evaluation.render (Evaluation.evaluateText session.invoker scope) name
        []).run session.machine = (.ok value, session.machine) := by
    rw [Evaluation.render, Action.run_bind, evaluated]
    rfl
  rw [tryExecute_of_read session scope reads, perform,
    Evaluation.run_runStatement_write rendered]
  rfl

section Stepping

variable {number} {direction : Step}
  (bound : session.forest.value? scope name = some (.integer number))

include bound

theorem tryExecute_step :
    session.tryExecute scope (Statement.step name direction).text =
      session.perform (do
        let moved ← Action.ofExcept
          (Evaluation.stepped direction (.integer number))
        Action.modifyForest fun forest =>
          (Statement.step name direction).store session.settings.assignment
            scope moved forest) := by
  have reads := (Statement.WellFormed.step direction named).read_text
  have isBound :
      session.machine.forest.value? scope name = some (.integer number) := bound
  have found :
      (liftM (Action.inspect fun machine =>
        machine.lookup scope name) : Action Value).run session.machine =
        (.ok (.integer number), session.machine) := by
    show (session.machine.lookup scope name, session.machine) = _
    rw [Machine.lookup, isBound]
  rw [tryExecute_of_read session scope reads, perform, Evaluation.runStatement,
    Evaluation.effect, Evaluation.outcome, bind_assoc, Action.run_bind, found]
  cases moves : Evaluation.stepped direction (.integer number) with
  | error fault => simp only [moves]; rfl
  | ok moved => simp only [moves]; rfl

/-- A step to another integer of 64 bits binds that integer, whichever scope it
is written to. -/
theorem tryExecute_step_of_next
    (known : scope < session.forest.size) {next : Int64}
    (isNext : next.toInt = number.toInt + direction.difference) :
    ∃ after, session.tryExecute scope (Statement.step name direction).text =
      (.ok (), after) ∧
      after.forest.value? scope name = some (.integer next) := by
  have moved :
      Evaluation.stepped direction (.integer number) = .ok (.integer next) := by
    rw [Evaluation.stepped_integer, Decimal.int64?_eq_some_iff.mpr isNext]
  rw [session.tryExecute_step named bound, moved]
  refine ⟨_, rfl, ?_⟩
  cases mode : session.settings.assignment with
  | shadow =>
      exact Forest.value?_setVariable_of_reaches known name (.integer next)
        (Forest.reaches_self session.forest scope name)
  | enclosing => exact Forest.value?_assignEnclosing known name (.integer next)

/-- A step out of the range of 64 bits is refused and leaves the session as it
was. -/
theorem tryExecute_step_of_overflow
    (overflows : ∀ next : Int64, next.toInt ≠ number.toInt + direction.difference) :
    session.tryExecute scope (Statement.step name direction).text =
      (.error (.typeMismatch (.tag .int64) (.stepOverflow number.toInt)),
        session) := by
  have refused : Evaluation.stepped direction (.integer number) =
      .error (.typeMismatch (.tag .int64) (.stepOverflow number.toInt)) := by
    rw [Evaluation.stepped_integer, Decimal.int64?_eq_none_iff.mpr overflows]
  rw [session.tryExecute_step named bound, refused]
  rfl

end Stepping

/-- Integers survive declaration and printing.  A declaration with the decimal
text of an integer of 64 bits binds exactly that integer, and the variable is
printed as the same text.  Under the annotation of 32 bits it fails for the
other integers and changes nothing.  A step binds the next integer, or fails and
changes nothing where there is none of 64 bits. -/
theorem integers_survive_declaration_and_printing
    (known : scope < session.forest.size) :
    (∀ tag : TypeTag,
      tag = .int64 ∨ (tag = .int32 ∧ Conformance.FitsInt32 number.toInt) →
        ∃ after,
          session.tryExecute scope
              (Statement.declare name tag.text
                (Decimal.integer number.toInt)).text =
            (.ok (), after) ∧
          after = (session.modifyForest fun forest =>
            forest.setVariable scope name (.integer number)) ∧
          after.forest.value? scope name = some (.integer number) ∧
          after.tryExecute scope (Statement.write name [] true).text =
            (.ok (), after.printed (Decimal.integer number.toInt ++ ['\n']))) ∧
    (¬ Conformance.FitsInt32 number.toInt →
      session.tryExecute scope
          (Statement.declare name TypeTag.int32.text
            (Decimal.integer number.toInt)).text =
        (.error (.typeMismatch (.tag .int32) (.outOfRange number.toInt)),
          session)) ∧
    (session.forest.value? scope name = some (.integer number) →
      ∀ direction : Step,
      (∀ next : Int64, next.toInt = number.toInt + direction.difference →
        ∃ after, session.tryExecute scope (Statement.step name direction).text =
          (.ok (), after) ∧
          after.forest.value? scope name = some (.integer next)) ∧
      ((∀ next : Int64, next.toInt ≠ number.toInt + direction.difference) →
        session.tryExecute scope (Statement.step name direction).text =
          (.error (.typeMismatch (.tag .int64) (.stepOverflow number.toInt)),
            session))) := by
  refine ⟨?_, ?_, ?_⟩
  · intro tag fits
    have checked :
        Conformance.check tag (.integer number) = .ok (.integer number) := by
      rcases fits with wide | ⟨narrow, inRange⟩
      · rw [wide]
        exact Conformance.check_int64 number
      · rw [narrow]
        exact Conformance.check_int32_of_fits inRange
    have bound : (session.modifyForest fun forest =>
        forest.setVariable scope name (.integer number)).forest.value?
          scope name =
          some (.integer number) :=
      Forest.value?_setVariable_of_reaches known name
        _ (Forest.reaches_self _ scope name)
    exact ⟨_, session.tryExecute_declareInteger_of_ok named checked, rfl, bound,
      tryExecute_write_name _ named bound⟩
  · intro unfit
    exact session.tryExecute_declareInteger_of_error named
      (Conformance.check_int32_of_not_fits unfit)
  · intro bound direction
    exact ⟨fun next isNext =>
      session.tryExecute_step_of_next named bound known isNext,
      session.tryExecute_step_of_overflow named bound⟩

omit named

/-- A session in which `x` is the greatest integer of 64 bits. -/
def brimming : Session :=
  let settings : Settings :=
    { assignment := .enclosing
      callLimit := 1
      commands := fun _ _ => { lines := [], failure := none } }
  (start settings).modifyForest fun forest =>
    forest.setVariable 0 ['x'] (.integer Int64.maxValue)

theorem text_declare_least :
    (Statement.declare ['x'] TypeTag.int64.text
      (Decimal.integer Int64.minValue.toInt)).text =
        "var x: Int64 = -9223372036854775808;".toList ∧
      (Statement.declare ['x'] TypeTag.int32.text
        (Decimal.integer Int64.minValue.toInt)).text =
        "var x: Int32 = -9223372036854775808;".toList ∧
      (Statement.write ['x'] [] true).text = "console.write(x);".toList ∧
      Decimal.integer Int64.minValue.toInt ++ ['\n'] =
        "-9223372036854775808\n".toList := by
  decide +kernel

theorem text_step_x :
    (Statement.step ['x'] .increment).text = "x++;".toList ∧
      (Statement.step ['x'] .decrement).text = "x--;".toList := by
  decide +kernel

/-- The least integer is declared and printed, does not fit into 32 bits, and
the greatest one cannot be stepped up but down. -/
theorem integers_survive_declaration_and_printing_of_brimming :
    0 < brimming.forest.size ∧ isName ['x'] ∧
      (∃ after,
        brimming.tryExecute 0 "var x: Int64 = -9223372036854775808;".toList =
          (.ok (), after) ∧
        after.forest.value? 0 ['x'] = some (.integer Int64.minValue) ∧
        after.tryExecute 0 "console.write(x);".toList =
          (.ok (), after.printed "-9223372036854775808\n".toList)) ∧
      brimming.tryExecute 0 "var x: Int32 = -9223372036854775808;".toList =
        (.error (.typeMismatch (.tag .int32) (.outOfRange (-9223372036854775808))), brimming) ∧
      brimming.forest.value? 0 ['x'] = some (.integer Int64.maxValue) ∧
      brimming.tryExecute 0 "x++;".toList =
        (.error (.typeMismatch (.tag .int64) (.stepOverflow 9223372036854775807)), brimming) ∧
      ∃ after, brimming.tryExecute 0 "x--;".toList = (.ok (), after) ∧
        after.forest.value? 0 ['x'] = some (.integer 9223372036854775806) := by
  have known : 0 < brimming.forest.size := by decide
  have named : isName ['x'] := rfl
  have bound :
      brimming.forest.value? 0 ['x'] = some (.integer Int64.maxValue) :=
    Forest.value?_setVariable_of_reaches
      (by decide) _ _ (Forest.reaches_self _ _ _)
  have unfit : ¬ Conformance.FitsInt32 Int64.minValue.toInt := fun fits =>
    absurd fits.1 (by decide)
  have overflows : ∀ next : Int64,
      next.toInt ≠ Int64.maxValue.toInt + Step.increment.difference := by
    intro next isNext
    have high := next.toInt_le
    rw [isNext] at high
    exact absurd high (by decide)
  obtain ⟨declares, refuses, _⟩ :=
    brimming.integers_survive_declaration_and_printing named
      Int64.minValue known
  obtain ⟨_, _, steps⟩ :=
    brimming.integers_survive_declaration_and_printing named
      Int64.maxValue known
  obtain ⟨wideText, narrowText, writeText, leastText⟩ := text_declare_least
  obtain ⟨upText, downText⟩ := text_step_x
  obtain ⟨after, declared, _, holds, printed⟩ := declares .int64 (.inl rfl)
  rw [wideText] at declared
  rw [writeText, leastText] at printed
  have refused := refuses unfit
  rw [narrowText] at refused
  have stuck := (steps bound .increment).2 overflows
  rw [upText] at stuck
  obtain ⟨lower, stepped, isLower⟩ :=
    (steps bound .decrement).1 9223372036854775806 (by decide)
  rw [downText] at stepped
  exact ⟨known, named, ⟨after, declared, holds, printed⟩, refused, bound, stuck,
    lower, stepped,
    isLower⟩

end Session
end LineScript
