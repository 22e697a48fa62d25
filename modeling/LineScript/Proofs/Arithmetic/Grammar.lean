import LineScript.Arithmetic
import LineScript.Proofs.Text.Cutting

/-!
The grammar of arithmetic expressions.

`Spells` says which tokens a text spells, and `Derives` which values the grammar

    expression := term (('+' | '-') term)*
    term       := factor (('*' | '/' | '%') factor)*
    factor     := ('+' | '-') factor | power
    power      := atom ('^' signed)*
    signed     := ('+' | '-') signed | atom
    atom       := '(' expression ')' | number | name ['(' expression ')']

gives to a list of tokens.  A repetition groups to the left: all of it but the
last operand is the left operand of the last operator.
-/

namespace LineScript
namespace Arithmetic

open Text

/-- The text spells the tokens: numbers and names are runs that cannot be
longer, any other character that is not blank stands for itself, and blanks may
stand between all of them. -/
inductive Spells : Text → List Token → Prop
  | nil : Spells [] []
  | blank {character : Char} {rest : Text} {read : List Token} :
      isBlank character →
      Spells rest read →
      Spells (character :: rest) read
  | number {first : Char} {digits rest : Text} {read : List Token} :
      isNumeric first →
      (∀ character ∈ digits, isNumeric character) →
      (∀ character ∈ rest.head?, ¬ isNumeric character) →
      Spells rest read →
      Spells (first :: digits ++ rest) (.number first digits :: read)
  | name {first : Char} {letters rest : Text} {read : List Token} :
      isNameStart first →
      (∀ character ∈ letters, isNameChar character) →
      (∀ character ∈ rest.head?, ¬ isNameChar character) →
      Spells rest read →
      Spells (first :: letters ++ rest) (.name first letters :: read)
  | symbol {character : Char} {rest : Text} {read : List Token} :
      ¬ isBlank character →
      ¬ isNumeric character →
      ¬ isNameStart character →
      Spells rest read →
      Spells (character :: rest) (.symbol character :: read)

private theorem not_isBlank_of_isNumeric {character : Char}
    (numeric : isNumeric character) :
    ¬ isBlank character := by
  intro blank
  have code :
      (48 ≤ character.toNat ∧ character.toNat ≤ 57) ∨ character.toNat = 46 := by
    simp only [isNumeric, isDigit, Bool.or_eq_true, Bool.and_eq_true,
      decide_eq_true_eq, beq_iff_eq] at numeric
    rcases numeric with digit | point
    · exact .inl digit
    · exact .inr (congrArg Char.toNat point)
  simp only [isBlank, Bool.or_eq_true, Bool.and_eq_true, decide_eq_true_eq,
    beq_iff_eq] at blank
  omega

private theorem code_of_isNameStart {character : Char}
    (start : isNameStart character) :
    (65 ≤ character.toNat ∧ character.toNat ≤ 90) ∨
      (97 ≤ character.toNat ∧ character.toNat ≤ 122) ∨
        character.toNat = 95 := by
  simp only [isNameStart, isLetter, Bool.or_eq_true, Bool.and_eq_true,
    decide_eq_true_eq, beq_iff_eq] at start
  rcases start with (upper | lower) | underscore
  · exact .inl upper
  · exact .inr (.inl lower)
  · exact .inr (.inr (congrArg Char.toNat underscore))

private theorem not_isBlank_of_isNameStart
    {character : Char} (start : isNameStart character) :
    ¬ isBlank character := by
  intro blank
  have code := code_of_isNameStart start
  simp only [isBlank, Bool.or_eq_true, Bool.and_eq_true, decide_eq_true_eq,
    beq_iff_eq] at blank
  omega

private theorem not_isNumeric_of_isNameStart
    {character : Char} (start : isNameStart character) :
    ¬ isNumeric character := by
  intro numeric
  have code := code_of_isNameStart start
  simp only [isNumeric, isDigit, Bool.or_eq_true, Bool.and_eq_true,
    decide_eq_true_eq, beq_iff_eq] at numeric
  rcases numeric with digit | point
  · omega
  · have pointCode : character.toNat = 46 := congrArg Char.toNat point
    omega

/-- A text spells exactly its tokens. -/
theorem spells_iff {source : Text} {read : List Token} :
    Spells source read ↔ tokens source = read := by
  constructor
  · intro spelling
    induction spelling with
    | nil => rw [tokens.eq_def]
    | blank blank _ later =>
        rw [tokens.eq_def]
        simp only [blank, ↓reduceIte]
        exact later
    | number numeric inside boundary _ later =>
        obtain ⟨taken, dropped⟩ := span_of_maximal inside boundary
        rw [List.cons_append, tokens.eq_def]
        simp only [not_isBlank_of_isNumeric numeric, numeric,
          Bool.false_eq_true, ↓reduceIte]
        rw [taken, dropped, later]
    | name start inside boundary _ later =>
        obtain ⟨taken, dropped⟩ := span_of_maximal inside boundary
        rw [List.cons_append, tokens.eq_def]
        simp only [not_isBlank_of_isNameStart start,
          not_isNumeric_of_isNameStart start, start, Bool.false_eq_true,
          ↓reduceIte]
        rw [taken, dropped, later]
    | symbol notBlank notNumeric notStart _ later =>
        rw [tokens.eq_def]
        simp only [notBlank, notNumeric, notStart, Bool.false_eq_true,
          ↓reduceIte]
        rw [later]
  · rintro rfl
    fun_induction tokens source with
    | case1 => exact .nil
    | case2 character rest blank later => exact .blank blank later
    | case3 character rest _ numeric later =>
        have inside : ∀ digit ∈ rest.takeWhile isNumeric, isNumeric digit :=
          fun _ => List.mem_takeWhile_imp
        have spelled := Spells.number numeric inside
          (maximal_dropWhile isNumeric rest) later
        rwa [List.cons_append, List.takeWhile_append_dropWhile] at spelled
    | case4 character rest _ _ start later =>
        have inside : ∀ letter ∈ rest.takeWhile isNameChar, isNameChar letter :=
          fun _ => List.mem_takeWhile_imp
        have spelled := Spells.name start inside
          (maximal_dropWhile isNameChar rest) later
        rwa [List.cons_append, List.takeWhile_append_dropWhile] at spelled
    | case5 character rest notBlank notNumeric notStart later =>
        exact .symbol notBlank notNumeric notStart later

/-- The parts of speech of the grammar. -/
inductive Category
  | expression
  | term
  | factor
  | power
  | signed
  | atom
deriving DecidableEq

/-- The tokens are of the category and have the value, where names that stand
alone mean what `numbers` says.  Each operator has a rule of its own, with the
operation on doubles that it stands for. -/
inductive Derives (numbers : Text → Option Float) : Category → List Token →
    Float → Prop
  | term {tokens : List Token} {value : Float} :
      Derives numbers .term tokens value →
      Derives numbers .expression tokens value
  | add {left right : List Token} {first second : Float} :
      Derives numbers .expression left first →
      Derives numbers .term right second →
      Derives numbers .expression (left ++ .symbol '+' :: right)
        (first + second)
  | subtract {left right : List Token} {first second : Float} :
      Derives numbers .expression left first →
      Derives numbers .term right second →
      Derives numbers .expression (left ++ .symbol '-' :: right)
        (first - second)
  | factor {tokens : List Token} {value : Float} :
      Derives numbers .factor tokens value →
      Derives numbers .term tokens value
  | multiply {left right : List Token} {first second : Float} :
      Derives numbers .term left first →
      Derives numbers .factor right second →
      Derives numbers .term (left ++ .symbol '*' :: right) (first * second)
  | divide {left right : List Token} {first second : Float} :
      Derives numbers .term left first →
      Derives numbers .factor right second →
      Derives numbers .term (left ++ .symbol '/' :: right) (first / second)
  | modulo {left right : List Token} {first second : Float} :
      Derives numbers .term left first →
      Derives numbers .factor right second →
      Derives numbers .term (left ++ .symbol '%' :: right)
        (remainder first second)
  | plus {tokens : List Token} {value : Float} :
      Derives numbers .factor tokens value →
      Derives numbers .factor (.symbol '+' :: tokens) value
  | minus {tokens : List Token} {value : Float} :
      Derives numbers .factor tokens value →
      Derives numbers .factor (.symbol '-' :: tokens) (-value)
  | power {tokens : List Token} {value : Float} :
      Derives numbers .power tokens value →
      Derives numbers .factor tokens value
  | base {tokens : List Token} {value : Float} :
      Derives numbers .atom tokens value →
      Derives numbers .power tokens value
  | raise {left right : List Token} {base exponent : Float} :
      Derives numbers .power left base →
      Derives numbers .signed right exponent →
      Derives numbers .power (left ++ .symbol '^' :: right) (base.pow exponent)
  | signedPlus {tokens : List Token} {value : Float} :
      Derives numbers .signed tokens value →
      Derives numbers .signed (.symbol '+' :: tokens) value
  | signedMinus {tokens : List Token} {value : Float} :
      Derives numbers .signed tokens value →
      Derives numbers .signed (.symbol '-' :: tokens) (-value)
  | unsigned {tokens : List Token} {value : Float} :
      Derives numbers .atom tokens value →
      Derives numbers .signed tokens value
  | group {tokens : List Token} {value : Float} :
      Derives numbers .expression tokens value →
      Derives numbers .atom (.symbol '(' :: tokens ++ [.symbol ')']) value
  | number {first : Char} {digits : Text} {value : Float} :
      Decimal.readDouble? (first :: digits) = some value →
      Derives numbers .atom [.number first digits] value
  | name {first : Char} {letters : Text} {value : Float} :
      numbers (first :: letters) = some value →
      Derives numbers .atom [.name first letters] value
  | namedGroup {first : Char} {letters : Text} {tokens : List Token}
      {value : Float} :
      Derives numbers .expression tokens value →
      Derives numbers .atom
        (.name first letters :: .symbol '(' :: tokens ++ [.symbol ')']) value

end Arithmetic
end LineScript
