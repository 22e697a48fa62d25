import LineScript.Machine
import LineScript.Proofs.Arithmetic.Grammar

/-!
The evaluation of arithmetic accepts exactly what the grammar derives, with the
value of the derivation.

In one direction, reading the tokens of a derivation on top of open frames ends
with frames that close to the value of the derivation.  In the other direction,
the tokens read so far are described by the frames: each frame stands for a
finished left operand or an open sign or bracket, and reading one more token
keeps that description true.
-/

namespace LineScript
namespace Arithmetic

variable {numbers : Text → Option Float} {lookup : Text → Except Fault Float}
    {source : Text}

section Steps

variable {frames outer : List Frame} {value total : Float} {later : List Token}

theorem run_number
    {first : Char} {digits : Text}
    (reads : Decimal.readDouble? (first :: digits) = some value) :
    run lookup source frames none (.number first digits :: later) =
      run lookup source (closeAtom frames value).1
        (some (closeAtom frames value).2) later := by
  rw [run, reads]

theorem run_name
    {first : Char} {letters : Text}
    (known : lookup (first :: letters) = .ok value)
    (bare : later.head? ≠ some (.symbol '(')) :
    run lookup source frames none (.name first letters :: later) =
      run lookup source (closeAtom frames value).1
        (some (closeAtom frames value).2) later := by
  rw [run, known]
  rintro rest rfl
  exact bare rfl

-- Where the token alone decides the step, the equation holds by computation.
theorem run_namedGroup {first : Char} {letters : Text} :
    run lookup source frames none
      (.name first letters :: .symbol '(' :: later) =
      run lookup source (.group :: frames) none later :=
  rfl

theorem run_group :
    run lookup source frames none (.symbol '(' :: later) =
      run lookup source (.group :: frames) none later :=
  rfl

theorem run_plus :
    run lookup source frames none (.symbol '+' :: later) =
      run lookup source frames none later :=
  rfl

theorem run_minus :
    run lookup source frames none (.symbol '-' :: later) =
      run lookup source (openSign frames) none later :=
  rfl

theorem run_raise :
    run lookup source frames (some value) (.symbol '^' :: later) =
      run lookup source (.power value :: frames) none later :=
  rfl

theorem run_close (closes : closeSum frames value = (.group :: outer, total)) :
    run lookup source frames (some value) (.symbol ')' :: later) =
      run lookup source (closeAtom outer total).1
        (some (closeAtom outer total).2) later := by
  rw [run, if_neg (by decide), if_pos rfl, closes]

theorem Operator.ofProduct?_eq_some
    {character : Char} {operator : Operator}
    (isProduct : Operator.ofProduct? character = some operator) :
    character ≠ '^' ∧ character ≠ ')' ∧ character ≠ '(' := by
  unfold Operator.ofProduct? at isProduct
  split at isProduct
  · decide
  · decide
  · decide
  · cases isProduct

theorem Operator.ofSum?_eq_some
    {character : Char} {operator : Operator}
    (isSum : Operator.ofSum? character = some operator) :
    character ≠ '^' ∧ character ≠ ')' ∧ character ≠ '(' ∧
      Operator.ofProduct? character = none := by
  unfold Operator.ofSum? at isSum
  split at isSum
  · decide
  · decide
  · cases isSum

theorem run_product
    {character : Char} {operator : Operator}
    (isProduct : Operator.ofProduct? character = some operator) :
    run lookup source frames (some value) (.symbol character :: later) =
      run lookup source
        (.product (closeTerm frames value).2 operator ::
          (closeTerm frames value).1)
        none later := by
  obtain ⟨notRaise, notClose, _⟩ := Operator.ofProduct?_eq_some isProduct
  rw [run, if_neg notRaise, if_neg notClose, isProduct]

theorem run_sum
    {character : Char} {operator : Operator}
    (isSum : Operator.ofSum? character = some operator) :
    run lookup source frames (some value) (.symbol character :: later) =
      run lookup source
        (.sum (closeSum frames value).2 operator :: (closeSum frames value).1)
        none later := by
  obtain ⟨notRaise, notClose, _, notProduct⟩ := Operator.ofSum?_eq_some isSum
  rw [run, if_neg notRaise, if_neg notClose, notProduct, isSum]

end Steps

/-- The frames end with an exponent, so that a sign binds to the next atom. -/
def AwaitsExponent : List Frame → Prop
  | .power _ :: _ => True
  | .negativeExponent :: _ => True
  | _ => False

/-- The frames end where a term may stand. -/
def HoldsTerm : List Frame → Prop
  | [] => True
  | .group :: _ => True
  | .sum _ _ :: _ => True
  | _ => False

def HoldsExpression : List Frame → Prop
  | [] => True
  | .group :: _ => True
  | _ => False

section Frames

variable {frames rest : List Frame} {value closed : Float}

theorem HoldsExpression.holdsTerm (holds : HoldsExpression frames) :
    HoldsTerm frames := by
  unfold HoldsExpression at holds
  split at holds
  · trivial
  · trivial
  · cases holds

theorem HoldsTerm.not_awaitsExponent (holds : HoldsTerm frames) :
    ¬ AwaitsExponent frames := by
  unfold HoldsTerm at holds
  split at holds
  · exact id
  · exact id
  · exact id
  · cases holds

theorem closeAtom_of_not_awaitsExponent (free : ¬ AwaitsExponent frames) :
    closeAtom frames value = (frames, value) := by
  unfold closeAtom
  split
  · exact absurd trivial free
  · exact absurd trivial free
  · rfl

theorem openSign_of_not_awaitsExponent (free : ¬ AwaitsExponent frames) :
    openSign frames = .negative :: frames := by
  unfold openSign
  split
  · exact absurd trivial free
  · exact absurd trivial free
  · rfl

theorem openSign_of_awaitsExponent (awaits : AwaitsExponent frames) :
    openSign frames = .negativeExponent :: frames := by
  unfold AwaitsExponent at awaits
  split at awaits
  · rfl
  · rfl
  · cases awaits

theorem closeFactor_of_holdsTerm (holds : HoldsTerm frames) :
    closeFactor frames value = (frames, value) := by
  unfold closeFactor
  split
  · cases holds
  · rfl

theorem closeTerm_of_holdsTerm
    (closes : closeFactor frames value = (rest, closed))
    (holds : HoldsTerm rest) :
    closeTerm frames value = (rest, closed) := by
  unfold closeTerm
  rw [closes]
  split
  · next shape =>
      cases shape
      cases holds
  · rfl

theorem closeTerm_of_product
    {left : Float} {operator : Operator}
    (closes : closeFactor frames value = (.product left operator :: rest, closed)) :
    closeTerm frames value = (rest, operator.apply left closed) := by
  unfold closeTerm
  rw [closes]

theorem closeSum_of_holdsExpression
    (closes : closeTerm frames value = (rest, closed))
    (holds : HoldsExpression rest) :
    closeSum frames value = (rest, closed) := by
  unfold closeSum
  rw [closes]
  split
  · next shape =>
      cases shape
      cases holds
  · rfl

theorem closeSum_of_sum
    {left : Float} {operator : Operator}
    (closes : closeTerm frames value = (.sum left operator :: rest, closed)) :
    closeSum frames value = (rest, operator.apply left closed) := by
  unfold closeSum
  rw [closes]

end Frames

/-! ## From derivations to evaluations -/

/-- Reading the tokens on top of frames that await their category has the effect
of their value.  An atom and an exponent close at once; the signs before a
power, the factors before a factor and the terms before a term stay open until
something follows. -/
def Reads
    (lookup : Text → Except Fault Float) (source : Text)
    (category : Category) (tokens : List Token) (value : Float) : Prop :=
  ∀ frames later, later.head? ≠ some (.symbol '(') →
    match category with
    | .atom =>
        run lookup source frames none (tokens ++ later) =
          run lookup source (closeAtom frames value).1
            (some (closeAtom frames value).2) later
    | .signed =>
        AwaitsExponent frames →
        run lookup source frames none (tokens ++ later) =
          run lookup source (closeAtom frames value).1
            (some (closeAtom frames value).2) later
    | .power =>
        ¬ AwaitsExponent frames →
        run lookup source frames none (tokens ++ later) =
          run lookup source frames (some value) later
    | .factor =>
        ¬ AwaitsExponent frames →
        ∃ pending operand,
          run lookup source frames none (tokens ++ later) =
            run lookup source pending (some operand) later ∧
          closeFactor pending operand = closeFactor frames value
    | .term =>
        HoldsTerm frames →
        ∃ pending operand,
          run lookup source frames none (tokens ++ later) =
            run lookup source pending (some operand) later ∧
          closeTerm pending operand = (frames, value)
    | .expression =>
        HoldsExpression frames →
        ∃ pending operand,
          run lookup source frames none (tokens ++ later) =
            run lookup source pending (some operand) later ∧
          closeSum pending operand = (frames, value)

/-- A bracketed expression is read like an atom, whatever opened the bracket. -/
theorem Reads.closed
    {tokens : List Token} {value : Float}
    (reads : Reads lookup source .expression tokens value)
    (frames : List Frame) (later : List Token) :
    run lookup source (.group :: frames) none
      (tokens ++ [.symbol ')'] ++ later) =
      run lookup source (closeAtom frames value).1
        (some (closeAtom frames value).2) later := by
  obtain ⟨pending, operand, runs, closes⟩ :=
    reads (.group :: frames) (.symbol ')' :: later) (by simp) trivial
  rw [List.append_assoc, List.singleton_append, runs, run_close closes]

theorem Reads.sum
    {left right : List Token} {character : Char} {operator : Operator}
    {first second : Float}
    (expression : Reads lookup source .expression left first)
    (isSum : Operator.ofSum? character = some operator)
    (term : Reads lookup source .term right second) :
    Reads lookup source .expression (left ++ .symbol character :: right)
      (operator.apply first second) := by
  intro frames later bare holds
  have notBracket := (Operator.ofSum?_eq_some isSum).2.2.1
  obtain ⟨pending, operand, runs, closes⟩ :=
    expression frames (.symbol character :: right ++ later)
      (by simpa using notBracket) holds
  obtain ⟨inner, last, continues, closesTerm⟩ :=
    term (.sum first operator :: frames) later bare trivial
  refine ⟨inner, last, ?_, closeSum_of_sum closesTerm⟩
  rw [List.append_assoc, runs, List.cons_append, run_sum isSum, closes,
    continues]

theorem Reads.product
    {left right : List Token} {character : Char} {operator : Operator}
    {first second : Float}
    (term : Reads lookup source .term left first)
    (isProduct : Operator.ofProduct? character = some operator)
    (factor : Reads lookup source .factor right second) :
    Reads lookup source .term (left ++ .symbol character :: right)
      (operator.apply first second) := by
  intro frames later bare holds
  have notBracket := (Operator.ofProduct?_eq_some isProduct).2.2
  obtain ⟨pending, operand, runs, closes⟩ :=
    term frames (.symbol character :: right ++ later)
      (by simpa using notBracket) holds
  obtain ⟨inner, last, continues, closesFactor⟩ :=
    factor (.product first operator :: frames) later bare id
  refine ⟨inner, last, ?_, closeTerm_of_product closesFactor⟩
  rw [List.append_assoc, runs, List.cons_append, run_product isProduct, closes,
    continues]

/-- The induction is on the derivation; what each category leaves open is what
the next constructor closes. -/
theorem Derives.reads
    (agrees : ∀ name value, numbers name = some value ↔ lookup name = .ok value)
    {category : Category} {tokens : List Token} {value : Float}
    (derivation : Derives numbers category tokens value) :
    Reads lookup source category tokens value := by
  induction derivation with
  | term _ term =>
      intro frames later bare holds
      obtain ⟨pending, operand, runs, closes⟩ :=
        term frames later bare holds.holdsTerm
      exact ⟨pending, operand, runs, closeSum_of_holdsExpression closes holds⟩
  | add _ _ expression term =>
      have isSum : Operator.ofSum? '+' = some .add := rfl
      exact expression.sum isSum term
  | subtract _ _ expression term =>
      have isSum : Operator.ofSum? '-' = some .subtract := rfl
      exact expression.sum isSum term
  | factor _ factor =>
      intro frames later bare holds
      obtain ⟨pending, operand, runs, closes⟩ :=
        factor frames later bare holds.not_awaitsExponent
      rw [closeFactor_of_holdsTerm holds] at closes
      exact ⟨pending, operand, runs, closeTerm_of_holdsTerm closes holds⟩
  | multiply _ _ term factor =>
      have isProduct : Operator.ofProduct? '*' = some .multiply := rfl
      exact term.product isProduct factor
  | divide _ _ term factor =>
      have isProduct : Operator.ofProduct? '/' = some .divide := rfl
      exact term.product isProduct factor
  | modulo _ _ term factor =>
      have isProduct : Operator.ofProduct? '%' = some .modulo := rfl
      exact term.product isProduct factor
  | plus _ factor =>
      intro frames later bare free
      obtain ⟨pending, operand, runs, closes⟩ := factor frames later bare free
      refine ⟨pending, operand, ?_, closes⟩
      rw [List.cons_append, run_plus, runs]
  | minus _ factor =>
      intro frames later bare free
      obtain ⟨pending, operand, runs, closes⟩ :=
        factor (.negative :: frames) later bare id
      refine ⟨pending, operand, ?_, closes⟩
      rw [List.cons_append, run_minus, openSign_of_not_awaitsExponent free,
        runs]
  | @power tokens value _ power =>
      intro frames later bare free
      exact ⟨frames, value, power frames later bare free, rfl⟩
  | @base tokens value _ atom =>
      intro frames later bare free
      have runs :
          run lookup source frames none (tokens ++ later) =
            run lookup source (closeAtom frames value).1
              (some (closeAtom frames value).2)
              later :=
        atom frames later bare
      rwa [closeAtom_of_not_awaitsExponent free] at runs
  | @raise left right base exponent _ _ power signed =>
      intro frames later bare free
      have runs := power frames (.symbol '^' :: right ++ later) (by simp) free
      have continues := signed (.power base :: frames) later bare trivial
      rw [List.append_assoc, runs, List.cons_append, run_raise, continues]
      rfl
  | signedPlus _ signed =>
      intro frames later bare awaits
      rw [List.cons_append, run_plus]
      exact signed frames later bare awaits
  | signedMinus _ signed =>
      intro frames later bare awaits
      rw [List.cons_append, run_minus, openSign_of_awaitsExponent awaits]
      exact signed (.negativeExponent :: frames) later bare trivial
  | unsigned _ atom =>
      intro frames later bare _
      exact atom frames later bare
  | group _ expression =>
      intro frames later _
      exact run_group.trans (expression.closed frames later)
  | number reads =>
      intro frames later _
      exact run_number reads
  | @name first letters value known =>
      intro frames later bare
      exact run_name ((agrees _ _).mp known) bare
  | namedGroup _ expression =>
      intro frames later _
      exact run_namedGroup.trans (expression.closed frames later)

/-! ## From evaluations to derivations -/

/-- The frames describe the tokens read so far, when an operand is awaited. -/
inductive Opens (numbers : Text → Option Float) : List Frame → List Token → Prop
  | start : Opens numbers [] []
  | plus {frames : List Frame} {read : List Token} :
      Opens numbers frames read →
      Opens numbers frames (read ++ [.symbol '+'])
  | minus {frames : List Frame} {read : List Token} :
      Opens numbers frames read →
      ¬ AwaitsExponent frames →
      Opens numbers (.negative :: frames) (read ++ [.symbol '-'])
  | signedMinus {frames : List Frame} {read : List Token} :
      Opens numbers frames read →
      AwaitsExponent frames →
      Opens numbers (.negativeExponent :: frames) (read ++ [.symbol '-'])
  | group {frames : List Frame} {read : List Token} :
      Opens numbers frames read →
      Opens numbers (.group :: frames) (read ++ [.symbol '('])
  | namedGroup {frames : List Frame} {read : List Token} {first : Char}
      {letters : Text} :
      Opens numbers frames read →
      Opens numbers (.group :: frames)
        (read ++ [.name first letters, .symbol '('])
  | raise {frames : List Frame} {read left : List Token} {base : Float} :
      Opens numbers frames read →
      ¬ AwaitsExponent frames →
      Derives numbers .power left base →
      Opens numbers (.power base :: frames) (read ++ left ++ [.symbol '^'])
  | product {frames : List Frame} {read left : List Token} {first : Float}
      {character : Char} {operator : Operator} :
      Opens numbers frames read →
      HoldsTerm frames →
      Derives numbers .term left first →
      Operator.ofProduct? character = some operator →
      Opens numbers (.product first operator :: frames)
        (read ++ left ++ [.symbol character])
  | sum {frames : List Frame} {read left : List Token} {first : Float}
      {character : Char} {operator : Operator} :
      Opens numbers frames read →
      HoldsExpression frames →
      Derives numbers .expression left first →
      Operator.ofSum? character = some operator →
      Opens numbers (.sum first operator :: frames)
        (read ++ left ++ [.symbol character])

/-- The tokens read so far end with a part of the category that has the value;
the frames describe the tokens before it and end as `holds` says. -/
def Ends
    (numbers : Text → Option Float) (category : Category)
    (holds : List Frame → Prop)
    (state : List Frame × Float) (read : List Token) : Prop :=
  ∃ before part, read = before ++ part ∧ Opens numbers state.1 before ∧
    holds state.1 ∧
    Derives numbers category part state.2

/-- The rule of the operator that a character of a sum stands for. -/
theorem Derives.sum
    {left right : List Token} {character : Char} {operator : Operator}
    {first second : Float}
    (expression : Derives numbers .expression left first)
    (isSum : Operator.ofSum? character = some operator)
    (term : Derives numbers .term right second) :
    Derives numbers .expression (left ++ .symbol character :: right)
      (operator.apply first second) := by
  unfold Operator.ofSum? at isSum
  split at isSum
  · cases isSum
    exact .add expression term
  · cases isSum
    exact .subtract expression term
  · cases isSum

/-- The rule of the operator that a character of a product stands for. -/
theorem Derives.product
    {left right : List Token} {character : Char} {operator : Operator}
    {first second : Float}
    (term : Derives numbers .term left first)
    (isProduct : Operator.ofProduct? character = some operator)
    (factor : Derives numbers .factor right second) :
    Derives numbers .term (left ++ .symbol character :: right)
      (operator.apply first second) := by
  unfold Operator.ofProduct? at isProduct
  split at isProduct
  · cases isProduct
    exact .multiply term factor
  · cases isProduct
    exact .divide term factor
  · cases isProduct
    exact .modulo term factor
  · cases isProduct

theorem Derives.plus_term
    {tokens : List Token} {value : Float}
    (term : Derives numbers .term tokens value) :
    Derives numbers .term (.symbol '+' :: tokens) value := by
  generalize shape : Category.term = category at term
  induction term with
  | factor operand _ => exact .factor (.plus operand)
  | multiply _ right signed _ => exact .multiply (signed shape) right
  | divide _ right signed _ => exact .divide (signed shape) right
  | modulo _ right signed _ => exact .modulo (signed shape) right
  | _ => cases shape

theorem Derives.plus_expression
    {tokens : List Token} {value : Float}
    (expression : Derives numbers .expression tokens value) :
    Derives numbers .expression (.symbol '+' :: tokens) value := by
  generalize shape : Category.expression = category at expression
  induction expression with
  | term operand _ => exact .term operand.plus_term
  | add _ right signed _ => exact .add (signed shape) right
  | subtract _ right signed _ => exact .subtract (signed shape) right
  | _ => cases shape

namespace Opens

variable {frames : List Frame} {read tokens : List Token} {value : Float}

theorem ends_signed
    (opens : Opens numbers frames read) (awaits : AwaitsExponent frames)
    (signed : Derives numbers .signed tokens value) :
    Ends numbers .power (¬ AwaitsExponent ·) (closeAtom frames value)
      (read ++ tokens) := by
  induction opens generalizing tokens value with
  | plus _ inner =>
      rw [List.append_assoc]
      exact inner awaits (.signedPlus signed)
  | signedMinus _ awaitsInner inner =>
      rw [List.append_assoc]
      exact inner awaitsInner (.signedMinus signed)
  | @raise frames read left base opens free power _ =>
      refine ⟨read, left ++ .symbol '^' :: tokens, ?_, opens, free,
        .raise power signed⟩
      simp only [List.append_assoc, List.singleton_append]
  | _ => cases awaits

/-- An atom behind the tokens read so far ends a power. -/
theorem ends_atom
    (opens : Opens numbers frames read)
    (atom : Derives numbers .atom tokens value) :
    Ends numbers .power (¬ AwaitsExponent ·) (closeAtom frames value)
      (read ++ tokens) := by
  by_cases awaits : AwaitsExponent frames
  · exact opens.ends_signed awaits (.unsigned atom)
  · rw [closeAtom_of_not_awaitsExponent awaits]
    exact ⟨read, tokens, rfl, opens, awaits, .base atom⟩

theorem ends_term_of_holdsTerm
    (opens : Opens numbers frames read) (holds : HoldsTerm frames)
    (factor : Derives numbers .factor tokens value) :
    Ends numbers .term HoldsTerm (closeTerm frames value) (read ++ tokens) := by
  rw [closeTerm_of_holdsTerm (closeFactor_of_holdsTerm holds) holds]
  exact ⟨read, tokens, rfl, opens, holds, .factor factor⟩

/-- A factor closes the products before it. -/
theorem ends_term
    (opens : Opens numbers frames read) (free : ¬ AwaitsExponent frames)
    (factor : Derives numbers .factor tokens value) :
    Ends numbers .term HoldsTerm (closeTerm frames value) (read ++ tokens) := by
  induction opens generalizing tokens value with
  | start => exact Opens.start.ends_term_of_holdsTerm trivial factor
  | group opens _ => exact opens.group.ends_term_of_holdsTerm trivial factor
  | namedGroup opens _ =>
      exact opens.namedGroup.ends_term_of_holdsTerm trivial factor
  | sum opens holds left isSum _ =>
      exact (opens.sum holds left isSum).ends_term_of_holdsTerm trivial factor
  | @product frames read left first character operator opens holds term
      isProduct _ =>
      refine ⟨read, left ++ .symbol character :: tokens, ?_, opens, holds,
        .product term isProduct factor⟩
      simp only [List.append_assoc, List.singleton_append]
  | plus _ inner =>
      rw [List.append_assoc]
      exact inner free (.plus factor)
  | minus _ freeInner inner =>
      rw [List.append_assoc]
      exact inner freeInner (.minus factor)
  | signedMinus => exact absurd trivial free
  | raise => exact absurd trivial free

theorem ends_expression_of_holdsExpression
    {pending : List Frame} {closed : Float}
    (opens : Opens numbers pending read) (holds : HoldsExpression pending)
    (term : Derives numbers .term tokens closed)
    (closes : closeTerm frames value = (pending, closed)) :
    Ends numbers .expression HoldsExpression (closeSum frames value)
      (read ++ tokens) := by
  rw [closeSum_of_holdsExpression closes holds]
  exact ⟨read, tokens, rfl, opens, holds, .term term⟩

theorem ends_expression_of_term
    {pending : List Frame} {closed : Float}
    (opens : Opens numbers pending read) (holds : HoldsTerm pending)
    (term : Derives numbers .term tokens closed)
    (closes : closeTerm frames value = (pending, closed)) :
    Ends numbers .expression HoldsExpression (closeSum frames value)
      (read ++ tokens) := by
  induction opens generalizing tokens with
  | start =>
      exact Opens.start.ends_expression_of_holdsExpression trivial term closes
  | group opens _ =>
      exact opens.group.ends_expression_of_holdsExpression trivial term closes
  | namedGroup opens _ =>
      exact opens.namedGroup.ends_expression_of_holdsExpression trivial
        term closes
  | @sum outer read left first character operator opens holdsOuter expression
      isSum _ =>
      rw [closeSum_of_sum closes]
      refine ⟨read, left ++ .symbol character :: tokens, ?_, opens, holdsOuter,
        .sum expression isSum term⟩
      simp only [List.append_assoc, List.singleton_append]
  | plus _ inner =>
      rw [List.append_assoc]
      exact inner holds term.plus_term closes
  | _ => cases holds

/-- A factor closes the products and then the sums before it. -/
theorem ends_expression
    (opens : Opens numbers frames read) (free : ¬ AwaitsExponent frames)
    (factor : Derives numbers .factor tokens value) :
    Ends numbers .expression HoldsExpression (closeSum frames value)
      (read ++ tokens) := by
  obtain ⟨before, part, split, opensBefore, holds, term⟩ :=
    opens.ends_term free factor
  rw [split]
  exact opensBefore.ends_expression_of_term holds term rfl

/-- A bracket that closes makes an atom of what was read since it opened. -/
theorem closes_group
    {outer : List Frame} (opens : Opens numbers (.group :: outer) read)
    (expression : Derives numbers .expression tokens value) :
    ∃ before part, read ++ tokens ++ [.symbol ')'] = before ++ part ∧
      Opens numbers outer before ∧ Derives numbers .atom part value := by
  generalize shape : Frame.group :: outer = frames at opens
  induction opens generalizing tokens with
  | @group frames read opens _ =>
      cases shape
      refine ⟨read, .symbol '(' :: tokens ++ [.symbol ')'], ?_, opens,
        .group expression⟩
      simp only [List.append_assoc, List.cons_append, List.nil_append]
  | @namedGroup frames read first letters opens _ =>
      cases shape
      refine ⟨read, .name first letters :: .symbol '(' :: tokens ++
        [.symbol ')'], ?_, opens,
        .namedGroup expression⟩
      simp only [List.append_assoc, List.cons_append, List.nil_append]
  | plus _ inner =>
      rw [List.append_assoc _ _ tokens]
      exact inner expression.plus_expression shape
  | _ => cases shape

/-- With nothing open but signs, everything read is one expression. -/
theorem derives_whole
    (opens : Opens numbers [] read)
    (expression : Derives numbers .expression tokens value) :
    Derives numbers .expression (read ++ tokens) value := by
  generalize shape : ([] : List Frame) = frames at opens
  induction opens generalizing tokens with
  | start => exact expression
  | plus _ inner =>
      rw [List.append_assoc]
      exact inner expression.plus_expression shape
  | _ => cases shape

end Opens

namespace Opens

/-- A sign leaves the evaluation awaiting an operand. -/
theorem sign
    {frames : List Frame} {read : List Token}
    (opens : Opens numbers frames read) :
    Opens numbers (openSign frames) (read ++ [.symbol '-']) := by
  by_cases awaits : AwaitsExponent frames
  · rw [openSign_of_awaitsExponent awaits]
    exact opens.signedMinus awaits
  · rw [openSign_of_not_awaitsExponent awaits]
    exact opens.minus awaits

end Opens

namespace Ends

variable {frames pending outer : List Frame} {read : List Token}
    {value closed : Float}
  {character : Char} {operator : Operator}

/-- So does the operator of a power, which waits for its exponent. -/
theorem raise
    (ends : Ends numbers .power (¬ AwaitsExponent ·) (frames, value) read) :
    Opens numbers (.power value :: frames) (read ++ [.symbol '^']) := by
  obtain ⟨before, part, rfl, opens, free, power⟩ := ends
  exact opens.raise free power

/-- So does the operator of a product, once the products before it are
closed. -/
theorem product
    (ends : Ends numbers .power (¬ AwaitsExponent ·) (frames, value) read)
    (closes : closeTerm frames value = (pending, closed))
    (isProduct : Operator.ofProduct? character = some operator) :
    Opens numbers (.product closed operator :: pending)
      (read ++ [.symbol character]) := by
  obtain ⟨before, part, rfl, opens, free, power⟩ := ends
  obtain ⟨outside, inside, split, opensOutside, holds, term⟩ :=
    opens.ends_term free (.power power)
  simp only [closes] at opensOutside holds term
  rw [split]
  exact opensOutside.product holds term isProduct

/-- So does the operator of a sum, once the sums before it are closed. -/
theorem sum
    (ends : Ends numbers .power (¬ AwaitsExponent ·) (frames, value) read)
    (closes : closeSum frames value = (pending, closed))
    (isSum : Operator.ofSum? character = some operator) :
    Opens numbers (.sum closed operator :: pending)
      (read ++ [.symbol character]) := by
  obtain ⟨before, part, rfl, opens, free, power⟩ := ends
  obtain ⟨outside, inside, split, opensOutside, holds, expression⟩ :=
    opens.ends_expression free (.power power)
  simp only [closes] at opensOutside holds expression
  rw [split]
  exact opensOutside.sum holds expression isSum

/-- A closing bracket makes an atom of all since the opening one. -/
theorem close
    (ends : Ends numbers .power (¬ AwaitsExponent ·) (frames, value) read)
    (closes : closeSum frames value = (.group :: outer, closed)) :
    Ends numbers .power (¬ AwaitsExponent ·) (closeAtom outer closed)
      (read ++ [.symbol ')']) := by
  obtain ⟨before, part, rfl, opens, free, power⟩ := ends
  obtain ⟨outside, inside, split, opensOutside, _, expression⟩ :=
    opens.ends_expression free (.power power)
  simp only [closes] at opensOutside expression
  obtain ⟨around, atomTokens, splitAtom, opensAround, atom⟩ :=
    opensOutside.closes_group expression
  rw [split, splitAtom]
  exact opensAround.ends_atom atom

/-- With no frame left the tokens read are an expression of that value. -/
theorem derives
    (ends : Ends numbers .power (¬ AwaitsExponent ·) (frames, value) read)
    (closes : closeSum frames value = ([], closed)) :
    Derives numbers .expression read closed := by
  obtain ⟨before, part, rfl, opens, free, power⟩ := ends
  obtain ⟨outside, inside, split, opensOutside, _, expression⟩ :=
    opens.ends_expression free (.power power)
  simp only [closes] at opensOutside expression
  rw [split]
  exact opensOutside.derives_whole expression

end Ends

/-- The frames and the value, if there is one, describe the tokens read so
far. -/
def Describes
    (numbers : Text → Option Float) (frames : List Frame) :
    Option Float → List Token → Prop
  | none, read => Opens numbers frames read
  | some value, read =>
      Ends numbers .power (¬ AwaitsExponent ·) (frames, value) read

/-- The induction follows the evaluation: each token that is read extends the
description, and at the end the description is a derivation. -/
theorem derives_of_run
    (agrees : ∀ name value, numbers name = some value ↔ lookup name = .ok value)
    {frames : List Frame} {state : Option Float} {later read : List Token}
    {total : Float} (describes : Describes numbers frames state read)
    (accepts : run lookup source frames state later = .ok total) :
    Derives numbers .expression (read ++ later) total := by
  fun_induction run lookup source frames state later generalizing read with
  | case3 frames first rest later number reads pending value closes inner =>
      have ends := Opens.ends_atom describes (.number reads)
      rw [closes] at ends
      rw [List.append_cons]
      exact inner ends accepts
  | case4 frames first rest later inner =>
      rw [List.append_cons, List.append_cons, List.append_assoc read]
      exact inner (Opens.namedGroup describes) accepts
  | case6 frames first rest later _ number known pending value closes inner =>
      have ends := Opens.ends_atom describes (.name ((agrees _ _).mpr known))
      rw [closes] at ends
      rw [List.append_cons]
      exact inner ends accepts
  | case7 frames later inner =>
      rw [List.append_cons]
      exact inner (Opens.plus describes) accepts
  | case8 frames later _ inner =>
      rw [List.append_cons]
      exact inner (Opens.sign describes) accepts
  | case9 frames later _ _ inner =>
      rw [List.append_cons]
      exact inner (Opens.group describes) accepts
  | case11 frames value total closes =>
      cases accepts
      rw [List.append_nil]
      exact Ends.derives describes closes
  | case13 frames value later inner =>
      rw [List.append_cons]
      exact inner (Ends.raise describes) accepts
  | case14 frames value later outer total closes pending closed closesAtom
      _ inner =>
      have ends := Ends.close describes closes
      rw [closesAtom] at ends
      rw [List.append_cons]
      exact inner ends accepts
  | case16 frames value character later _ _ operator isProduct pending closed
      closes inner =>
      rw [List.append_cons]
      exact inner (Ends.product describes closes isProduct) accepts
  | case17 frames value character later _ _ _ operator isSum pending closed
      closes inner =>
      rw [List.append_cons]
      exact inner (Ends.sum describes closes isSum) accepts
  | _ => cases accepts

/-! ## The two directions together -/

/-- An evaluation succeeds with a value exactly if the grammar derives the
value. -/
theorem evaluate_eq_ok_iff_derives
    (agrees : ∀ name value, numbers name = some value ↔ lookup name = .ok value)
    {value : Float} :
    evaluate lookup source = .ok value ↔
      Derives numbers .expression (tokens source) value := by
  constructor
  · intro accepts
    have nothingRead : Describes numbers [] none [] := .start
    exact derives_of_run agrees nothingRead accepts
  · intro derivation
    have reads : Reads lookup source .expression (tokens source) value :=
      derivation.reads agrees
    obtain ⟨pending, operand, runs, closes⟩ := reads [] [] (by simp) trivial
    rw [List.append_nil] at runs
    rw [evaluate, runs, run, closes]

theorem lookupNumber_eq_ok_iff
    (machine : Machine) (scope : ScopeId) (name : Text) (value : Float) :
    (machine.forest.value? scope name).bind Value.number? = some value ↔
      machine.lookupNumber scope name = .ok value := by
  rw [Machine.lookupNumber, Machine.lookup]
  cases machine.forest.value? scope name with
  | none => simp
  | some bound =>
      cases number : bound.number? with
      | none => simp [number]
      | some found => simp [number]

/-- Arithmetic in a scope has a value exactly if the text spells tokens that the
grammar derives with that value, where a name that stands alone means the number
it is bound to. -/
theorem evaluate_accepts_exactly_the_grammar
    (machine : Machine) (scope : ScopeId) (source : Text) (value : Float) :
    evaluate (machine.lookupNumber scope) source = .ok value ↔
      ∃ read, Spells source read ∧
        Derives (fun name =>
          (machine.forest.value? scope name).bind Value.number?)
          .expression read value := by
  rw [evaluate_eq_ok_iff_derives (lookupNumber_eq_ok_iff machine scope)]
  constructor
  · intro derivation
    exact ⟨tokens source, spells_iff.mpr rfl, derivation⟩
  · rintro ⟨read, spelling, derivation⟩
    rwa [spells_iff.mp spelling]

def everyOperator : Text :=
  "-x ^ 2 ^ -3 - 4 - 5 * 6 / 7 % f(8 + 9)".toList

def everyOperatorTokens : List Token :=
  [.symbol '-', .name 'x' [], .symbol '^', .number '2' [], .symbol '^',
    .symbol '-', .number '3' [], .symbol '-', .number '4' [], .symbol '-',
    .number '5' [], .symbol '*', .number '6' [], .symbol '/', .number '7' [],
    .symbol '%', .name 'f' [], .symbol '(', .number '8' [], .symbol '+',
    .number '9' [], .symbol ')']

def digit (value : Nat) : Float :=
  Float.ofScientific value true 0

theorem derives_everyOperator
    {number : Float} (known : numbers ['x'] = some number) :
    Derives numbers .expression everyOperatorTokens
      (-((number.pow (digit 2)).pow (-digit 3)) - digit 4 -
        remainder (digit 5 * digit 6 / digit 7) (digit 8 + digit 9)) := by
  have two : Derives numbers .atom [.number '2' []] (digit 2) := .number rfl
  have three : Derives numbers .atom [.number '3' []] (digit 3) := .number rfl
  have four : Derives numbers .atom [.number '4' []] (digit 4) := .number rfl
  have five : Derives numbers .atom [.number '5' []] (digit 5) := .number rfl
  have six : Derives numbers .atom [.number '6' []] (digit 6) := .number rfl
  have seven : Derives numbers .atom [.number '7' []] (digit 7) := .number rfl
  have eight : Derives numbers .atom [.number '8' []] (digit 8) := .number rfl
  have nine : Derives numbers .atom [.number '9' []] (digit 9) := .number rfl
  have square := Derives.raise (.base (.name known)) (.unsigned two)
  have power := Derives.raise square (.signedMinus (.unsigned three))
  have sum :=
    Derives.add (.term (.factor (.power (.base eight))))
      (.factor (.power (.base nine)))
  have group :
      Derives numbers .atom
        [.name 'f' [], .symbol '(', .number '8' [], .symbol '+', .number '9' [],
          .symbol ')']
        (digit 8 + digit 9) :=
    .namedGroup sum
  have product :=
    Derives.multiply (.factor (.power (.base five))) (.power (.base six))
  have quotient := Derives.divide product (.power (.base seven))
  have rest := Derives.modulo quotient (.power (.base group))
  have difference :=
    Derives.subtract (.term (.factor (.minus (.power power))))
      (.factor (.power (.base four)))
  exact .subtract difference rest

def bindingOne : Machine :=
  { Machine.start with
    forest := Machine.start.forest.setVariable 0 ['x'] (.integer 1) }

theorem number_bindingOne :
    (bindingOne.forest.value? 0 ['x']).bind Value.number? =
      some (Float.ofInt 1) := by
  have alone : bindingOne.forest.chain 0 = [0] := by
    rw [Forest.chain]
    rfl
  rw [Forest.value?, alone]
  rfl

/-- The value of a text with every operator: powers and differences bind to the
left, and a sign before a power takes all of it. -/
theorem evaluate_accepts_exactly_the_grammar_of_everyOperator :
    evaluate (bindingOne.lookupNumber 0) everyOperator =
      .ok (-(((Float.ofInt 1).pow (digit 2)).pow (-digit 3)) - digit 4 -
        remainder (digit 5 * digit 6 / digit 7) (digit 8 + digit 9)) := by
  have spelled : Spells everyOperator everyOperatorTokens := by
    apply spells_iff.mpr
    decide +kernel
  apply (evaluate_accepts_exactly_the_grammar _ _ _ _).mpr
  exact ⟨everyOperatorTokens, spelled, derives_everyOperator number_bindingOne⟩

end Arithmetic
end LineScript
