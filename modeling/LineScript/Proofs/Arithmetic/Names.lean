import LineScript.Proofs.Arithmetic.Acceptance
import LineScript.Proofs.Text.Cutting

/-!
The names that an evaluation of arithmetic asks for.

Reading goes on as long as the tokens may be the start of an expression.  Up to
there each name that stands alone is looked up, and the first one without a
number ends the evaluation with the fault of the look-up.  Every other failure
is that of a malformed text.
-/

namespace LineScript
namespace Arithmetic

variable {lookup : Text → Except Fault Float} {source : Text}

/-- The names that are looked up, in order, up to the first token that no
expression goes on with.  `depth` brackets are open, and `operand` says whether
an operand was read last. -/
def namesRead : (depth : Nat) → (operand : Bool) → List Token → List Text
  | _, _, [] => []
  | depth, false, .number first rest :: later =>
      if (Decimal.readDouble? (first :: rest)).isSome then
        namesRead depth true later
      else
        []
  | depth, false, .name _ _ :: .symbol '(' :: later =>
      namesRead (depth + 1) false later
  | depth, false, .name first rest :: later =>
      (first :: rest) :: namesRead depth true later
  | depth, false, .symbol character :: later =>
      if character = '+' ∨ character = '-' then namesRead depth false later
      else if character = '(' then namesRead (depth + 1) false later
      else []
  | depth, true, .symbol character :: later =>
      if character = ')' then
        if depth = 0 then [] else namesRead (depth - 1) true later
      else if character = '^' ∨ (Operator.ofProduct? character).isSome ∨
          (Operator.ofSum? character).isSome then
        namesRead depth false later
      else
        []
  | _, true, _ :: _ => []

def bareNames (source : Text) : List Text :=
  namesRead 0 false (tokens source)

/-- Looks up one name after the other.  The first one without a number gives the
fault. -/
def lookUpAll (lookup : Text → Except Fault Float) :
    List Text → Except Fault Unit
  | [] => .ok ()
  | name :: later =>
      match lookup name with
      | .error fault => .error fault
      | .ok _ => lookUpAll lookup later

/-- The result is the fault of the first name without a number, if there is one,
and at worst that of a malformed text otherwise. -/
def DecidedBy (lookup : Text → Except Fault Float) (names : List Text)
    (result : Except Fault Float) : Prop :=
  match lookUpAll lookup names with
  | .error fault => result = .error fault
  | .ok _ => ∀ fault, result = .error fault → fault.isMalformed

theorem decidedBy_malformed (cause : Malformation) :
    DecidedBy lookup [] (.error (.malformed cause)) := by
  intro fault same
  cases same
  rfl

def groups (frames : List Frame) : Nat :=
  frames.countP fun frame =>
    match frame with
    | .group => true
    | _ => false

section Groups

variable (frames : List Frame) (value : Float)

theorem groups_group : groups (.group :: frames) = groups frames + 1 :=
  List.countP_cons_of_pos rfl

theorem groups_closeAtom :
    groups (closeAtom frames value).1 = groups frames := by
  fun_induction closeAtom frames value with
  | case1 frames value inductionHypothesis => rw [inductionHypothesis]; rfl
  | case2 => rfl
  | case3 => rfl

theorem groups_openSign : groups (openSign frames) = groups frames := by
  fun_cases openSign frames with
  | case1 => rfl
  | case2 => rfl
  | case3 => rfl

theorem groups_closeFactor :
    groups (closeFactor frames value).1 = groups frames := by
  fun_induction closeFactor frames value with
  | case1 frames value inductionHypothesis => rw [inductionHypothesis]; rfl
  | case2 => rfl

theorem groups_closeTerm :
    groups (closeTerm frames value).1 = groups frames := by
  rw [← groups_closeFactor frames value, closeTerm]
  split
  · next shape => rw [shape]; rfl
  · rfl

theorem groups_closeSum : groups (closeSum frames value).1 = groups frames := by
  rw [← groups_closeTerm frames value, closeSum]
  split
  · next shape => rw [shape]; rfl
  · rfl

end Groups

/-! ## What decides an evaluation -/

theorem mem_of_lookUpAll
    {names : List Text} {fault : Fault}
    (failed : lookUpAll lookup names = .error fault) :
    ∃ name ∈ names, lookup name = .error fault := by
  induction names with
  | nil => cases failed
  | cons name later inductionHypothesis =>
      rw [lookUpAll] at failed
      cases found : lookup name with
      | error other =>
          rw [found] at failed
          cases failed
          exact ⟨name, List.mem_cons_self, found⟩
      | ok value =>
          rw [found] at failed
          obtain ⟨other, member, isFault⟩ := inductionHypothesis failed
          exact ⟨other, List.mem_cons_of_mem name member, isFault⟩

theorem decidedBy_cons
    {name : Text} {value : Float} {names : List Text}
    {result : Except Fault Float}
    (known : lookup name = .ok value)
    (decided : DecidedBy lookup names result) :
    DecidedBy lookup (name :: names) result := by
  rw [DecidedBy, lookUpAll, known]
  exact decided

theorem decidedBy_cons_of_error
    {name : Text} {fault : Fault} (unknown : lookup name = .error fault)
    (names : List Text) :
    DecidedBy lookup (name :: names) (.error fault) := by
  rw [DecidedBy, lookUpAll, unknown]

theorem toOption_eq_some_iff (name : Text) (value : Float) :
    (lookup name).toOption = some value ↔ lookup name = .ok value := by
  cases lookup name with
  | error fault => simp [Except.toOption]
  | ok found => simp [Except.toOption]

/-- An operand that was read closes up to a bracket or to the start. -/
theorem Ends.holdsExpression
    {numbers : Text → Option Float} {frames : List Frame} {value : Float}
    {read : List Token}
    (ends : Ends numbers .power (¬ AwaitsExponent ·) (frames, value) read) :
    HoldsExpression (closeSum frames value).1 := by
  obtain ⟨before, part, rfl, opens, free, power⟩ := ends
  obtain ⟨_, _, _, _, holds, _⟩ := opens.ends_expression free (.power power)
  exact holds

/-- Where no bracket can be closed, none is open. -/
theorem Ends.groups_eq_zero
    {numbers : Text → Option Float} {frames : List Frame} {value : Float}
    {read : List Token}
    (ends : Ends numbers .power (¬ AwaitsExponent ·) (frames, value) read)
    (noGroup : ∀ outer total, closeSum frames value = (.group :: outer, total) → False) :
    groups frames = 0 := by
  have holds := ends.holdsExpression
  rw [← groups_closeSum frames value]
  unfold HoldsExpression at holds
  split at holds
  · next atStart => rw [atStart]; rfl
  · next outer inGroup => exact (noGroup outer _ (Prod.ext inGroup rfl)).elim
  · cases holds

theorem decidedBy_stray (frames : List Frame) (token : Token) :
    DecidedBy lookup [] (.error (stray source frames token)) := by
  unfold stray
  split
  · exact decidedBy_malformed _
  · exact decidedBy_malformed _

/-- The induction follows the evaluation, with the description of what was read
so far. -/
theorem run_decidedBy
    {frames : List Frame} {state : Option Float} {later read : List Token}
    (describes : Describes (fun name => (lookup name).toOption) frames state read) :
    DecidedBy lookup (namesRead (groups frames) state.isSome later)
      (run lookup source frames state later) := by
  have agrees :
      ∀ name value, (lookup name).toOption = some value ↔
        lookup name = .ok value :=
    toOption_eq_some_iff
  fun_induction run lookup source frames state later generalizing read with
  | case1 => exact decidedBy_malformed _
  | case2 frames first rest later refused =>
      simp only [Option.isSome_none, namesRead, refused, Bool.false_eq_true,
        if_false]
      exact decidedBy_malformed _
  | case3 frames first rest later number reads pending value closes inner =>
      have ends := Opens.ends_atom describes (.number reads)
      have opened := groups_closeAtom frames number
      rw [closes] at ends opened
      simp only [Option.isSome_none, namesRead, reads, Option.isSome_some,
        if_true, ← opened]
      exact inner ends
  | case4 frames first rest later inner =>
      have decided := inner (Opens.group describes)
      rw [groups_group] at decided
      exact decided
  | case5 frames first rest later bare fault unknown =>
      rw [Option.isSome_none, namesRead]
      · exact decidedBy_cons_of_error unknown _
      · exact bare
  | case6 frames first rest later bare number known pending value closes
      inner =>
      have ends := Opens.ends_atom describes (.name ((agrees _ _).mpr known))
      have opened := groups_closeAtom frames number
      rw [closes] at ends opened
      rw [Option.isSome_none, namesRead, ← opened]
      · exact decidedBy_cons known (inner ends)
      · exact bare
  | case7 frames later inner => exact inner (Opens.plus describes)
  | case8 frames later _ inner =>
      have decided := inner (Opens.sign describes)
      rw [groups_openSign] at decided
      exact decided
  | case9 frames later _ _ inner =>
      have decided := inner (Opens.group describes)
      rw [groups_group] at decided
      exact decided
  | case10 frames character later notPlus notMinus notGroup =>
      simp only [Option.isSome_none, namesRead, notPlus, notMinus, or_self,
        if_false, notGroup]
      exact decidedBy_malformed _
  | case11 frames value total closes =>
      intro fault same
      cases same
  | case12 => exact decidedBy_malformed _
  | case13 frames value later inner => exact inner (Ends.raise describes)
  | case14 frames value later outer total closes pending closed closesAtom
      _ inner =>
      have ends := Ends.close describes closes
      have openBefore := groups_closeSum frames value
      have openAfter := groups_closeAtom outer total
      rw [closes, groups_group] at openBefore
      rw [closesAtom] at ends openAfter
      have decided := inner ends
      rw [openAfter] at decided
      rw [← openBefore]
      exact decided
  | case15 frames value later noGroup _ =>
      rw [Ends.groups_eq_zero describes noGroup]
      exact decidedBy_malformed _
  | case16 frames value character later notRaise notClose operator isProduct
      pending closed closes
      inner =>
      have decided := inner (Ends.product describes closes isProduct)
      have opened := groups_closeTerm frames value
      rw [closes] at opened
      simp only [Option.isSome_some, namesRead, notClose, if_false, isProduct,
        true_or, or_true, if_true, ← opened]
      exact decided
  | case17 frames value character later notRaise notClose notProduct operator
      isSum pending closed
      closes inner =>
      have decided := inner (Ends.sum describes closes isSum)
      have opened := groups_closeSum frames value
      rw [closes] at opened
      simp only [Option.isSome_some, namesRead, notClose, if_false, isSum,
        or_true, if_true, ← opened]
      exact decided
  | case18 frames value character later notRaise notClose notProduct notSum =>
      simp only [Option.isSome_some, namesRead, notClose, notRaise, notProduct,
        notSum, if_false, Option.isSome_none, Bool.false_eq_true, or_self]
      exact decidedBy_stray frames _
  | case19 frames value token later notSymbol =>
      rw [Option.isSome_some, namesRead]
      · exact decidedBy_stray frames _
      · exact notSymbol

/-- An evaluation fails with the fault of the first name without a number, among
those it looks up, or else at worst because the text is malformed. -/
theorem evaluate_decidedBy
    (lookup : Text → Except Fault Float) (source : Text) :
    DecidedBy lookup (bareNames source) (evaluate lookup source) := by
  have nothingRead :
      Describes (fun name => (lookup name).toOption) [] none [] := .start
  exact run_decidedBy nothingRead

section Brace

open Text

/-- A character that is a token of its own ends the token before it. -/
theorem Spells.append_symbol
    {character : Char} (notBlank : ¬ isBlank character)
    (notNumeric : ¬ isNumeric character)
    (notNamed : ¬ isNameChar character) {before after : Text}
    {read later : List Token}
    (spelling : Spells before read) (laterSpelling : Spells after later) :
    Spells (before ++ character :: after)
      (read ++ .symbol character :: later) := by
  have boundary : ∀ (holds : Char → Bool) (text : Text), ¬ holds character →
      (∀ next ∈ text.head?, ¬ holds next) →
        ∀ next ∈ (text ++ character :: after).head?, ¬ holds next := by
    intro holds text refused ends
    cases text with
    | nil => simpa using refused
    | cons first rest => exact ends
  induction spelling with
  | nil =>
      have notStart : ¬ isNameStart character := fun starts =>
        notNamed (isNameChar_of_isNameStart starts)
      exact .symbol notBlank notNumeric notStart laterSpelling
  | blank blank _ inductionHypothesis => exact .blank blank inductionHypothesis
  | number numeric inside ends _ inductionHypothesis =>
      rw [List.append_assoc]
      exact .number numeric inside
        (boundary isNumeric _ notNumeric ends) inductionHypothesis
  | name starts inside ends _ inductionHypothesis =>
      rw [List.append_assoc]
      exact .name starts inside
        (boundary isNameChar _ notNamed ends) inductionHypothesis
  | symbol otherBlank otherNumeric otherStart _ inductionHypothesis =>
      exact .symbol otherBlank otherNumeric otherStart inductionHypothesis

theorem tokens_brace (before after : Text) :
    tokens (before ++ '{' :: after) =
      tokens before ++ .symbol '{' :: tokens after := by
  apply spells_iff.mp
  exact Spells.append_symbol (by decide) (by decide) (by decide)
    (spells_iff.mpr rfl)
    (spells_iff.mpr rfl)

/-- No expression goes on with a brace, so nothing behind it is read. -/
theorem namesRead_brace
    (depth : Nat) (operand : Bool) (before after : List Token) :
    namesRead depth operand (before ++ .symbol '{' :: after) =
      namesRead depth operand (before ++ [.symbol '{']) := by
  fun_induction namesRead depth operand before with
  | case1 depth operand => cases operand <;> rfl
  | case2 depth first rest later reads inductionHypothesis =>
      simp only [List.cons_append, namesRead, reads, if_true]
      exact inductionHypothesis
  | case3 depth first rest later refused =>
      simp only [List.cons_append, namesRead, refused, if_false,
        Bool.false_eq_true]
  | case4 depth first rest later inductionHypothesis =>
      exact inductionHypothesis
  | case5 depth first rest later bare inductionHypothesis =>
      have stillBare : ∀ rest more,
          later ++ .symbol '{' :: rest = .symbol '(' :: more → False := by
        intro rest more same
        cases later with
        | nil => cases List.head_eq_of_cons_eq same
        | cons token later =>
            exact bare later (by rw [List.head_eq_of_cons_eq same])
      rw [List.cons_append, List.cons_append, namesRead, namesRead,
        inductionHypothesis]
      · exact stillBare []
      · exact stillBare after
  | case6 depth character later isSign inductionHypothesis =>
      simp only [List.cons_append, namesRead, isSign, if_true]
      exact inductionHypothesis
  | case7 depth later _ inductionHypothesis => exact inductionHypothesis
  | case8 depth character later notSign notGroup =>
      simp only [List.cons_append, namesRead, notSign, notGroup, if_false]
  | case9 later => rfl
  | case10 depth later isOpen inductionHypothesis =>
      simp only [List.cons_append, namesRead, isOpen, if_true, if_false]
      exact inductionHypothesis
  | case11 depth character later notClose isOperator inductionHypothesis =>
      simp only [List.cons_append, namesRead, notClose, isOperator, if_true,
        if_false]
      exact inductionHypothesis
  | case12 depth character later notClose notOperator =>
      simp only [List.cons_append, namesRead, notClose, notOperator, if_false]
  | case13 depth token later notSymbol =>
      rw [List.cons_append, List.cons_append, namesRead, namesRead]
      · exact notSymbol
      · exact notSymbol

/-- What stands behind a brace is not looked up. -/
theorem bareNames_brace (before after : Text) :
    bareNames (before ++ '{' :: after) = bareNames (before ++ ['{']) := by
  rw [bareNames, bareNames, tokens_brace, tokens_brace, namesRead_brace]
  exact (namesRead_brace 0 false (tokens before) (tokens [])).symm

/-- No derivation reads a brace. -/
theorem Derives.brace_not_mem
    {numbers : Text → Option Float} {category : Category} {read : List Token}
    {value : Float}
    (derivation : Derives numbers category read value) :
    .symbol '{' ∉ read := by
  induction derivation with
  | add _ _ leftHypothesis rightHypothesis
  | subtract _ _ leftHypothesis rightHypothesis
  | multiply _ _ leftHypothesis rightHypothesis
  | divide _ _ leftHypothesis rightHypothesis
  | modulo _ _ leftHypothesis rightHypothesis
  | raise _ _ leftHypothesis rightHypothesis =>
      simp [leftHypothesis, rightHypothesis]
  | number _ => simp
  | name _ => simp
  | _ _ inductionHypothesis => simp [inductionHypothesis]

/-- A text with a brace has no value. -/
theorem evaluate_ne_ok_of_brace
    {source : Text} (held : '{' ∈ source) (value : Float) :
    evaluate lookup source ≠ .ok value := by
  intro accepted
  obtain ⟨before, after, rfl⟩ := List.append_of_mem held
  have derivation :=
    (evaluate_eq_ok_iff_derives toOption_eq_some_iff).mp accepted
  apply derivation.brace_not_mem
  rw [tokens_brace]
  exact List.mem_append_right _ List.mem_cons_self

end Brace

end Arithmetic
end LineScript
