import LineScript.Macro.Directive
import LineScript.Proofs.Text.Literal
import Mathlib.Data.List.Forall2

/-!
What macro expansion makes of the lines of a source.

Each line of a source becomes one line.  Its characters come from the lines of
the source, so that no line falls apart, and without macros a line stays as it
is.
-/

namespace LineScript
namespace Macro

open Text

theorem spanLiteral_whole (quote : Char) (rest : Text) :
    (spanLiteral quote rest).1 ++ (spanLiteral quote rest).2 =
      quote :: rest := by
  rw [spanLiteral]
  split
  · next inner after closed =>
      have whole := (literalBody_of_closeLiteral closed).2
      rw [whole]
      simp
  · simp

/-- A line is its first part followed by the rest. -/
theorem Lexeme.text_next (numbers : Bool) (character : Char) (rest : Text) :
    (next numbers character rest).1.text ++ (next numbers character rest).2 =
      character :: rest := by
  rw [next]
  split
  · exact spanLiteral_whole character rest
  · split
    · simp [text]
    · split
      · simp [text]
      · rfl

/-- The parts of a line make up the line. -/
theorem flatMap_lexemes (numbers : Bool) (line : Text) :
    (lexemes numbers line).flatMap Lexeme.text = line := by
  fun_induction lexemes numbers line with
  | case1 => rfl
  | case2 character rest inductionHypothesis =>
      rw [List.flatMap_cons, inductionHypothesis, Lexeme.text_next]

theorem expansion?_empty (name after : Text) :
    expansion? .empty name after = none := by
  rw [expansion?]
  split
  · next defined _ => cases defined
  · rfl

theorem expandOnce_empty (line : Text) : expandOnce .empty line = line := by
  fun_induction expandOnce .empty line with
  | case1 => rfl
  | case2 character rest name after scanned expansion remaining found =>
      rw [expansion?_empty] at found
      cases found
  | case3 character rest name after scanned _ inductionHypothesis =>
      have whole := Lexeme.text_next true character rest
      rw [scanned] at whole
      rw [inductionHypothesis]
      exact whole
  | case4 character rest lexeme after _ scanned inductionHypothesis =>
      have whole := Lexeme.text_next true character rest
      rw [scanned] at whole
      rw [inductionHypothesis]
      exact whole

theorem expand_empty (line : Text) : expand .empty line = line := by
  rw [expand, maxPasses, expandPasses, if_pos (expandOnce_empty line)]

/-- The macros put nothing but allowed characters into a line. -/
structure Macros.Writes (macros : Macros) (allowed : Char → Prop) : Prop where
  objects : ∀ name value, macros.objects.get? name = some value →
    ∀ character ∈ value, allowed character
  functions : ∀ name definition, macros.functions.get? name = some definition →
    ∀ character ∈ definition.body, allowed character

section Allowed

variable {allowed : Char → Prop}

theorem forall_mem_next
    {numbers : Bool} {character : Char} {rest after : Text} {lexeme : Lexeme}
    (scanned : Lexeme.next numbers character rest = (lexeme, after))
    (line : ∀ found ∈ character :: rest, allowed found) :
    (∀ found ∈ lexeme.text, allowed found) ∧
      ∀ found ∈ after, allowed found := by
  have whole := Lexeme.text_next numbers character rest
  rw [scanned] at whole
  rw [← whole] at line
  exact List.forall_mem_append.mp line

theorem mem_of_argument?
    {name argument : Text} {parameters arguments : List Text}
    (found : argument? name parameters arguments = some argument) :
    argument ∈ arguments := by
  fun_induction argument? name parameters arguments with
  | case1 parameters first arguments =>
      cases found
      exact List.mem_cons_self
  | case2 parameter parameters first arguments _ inductionHypothesis =>
      exact List.mem_cons_of_mem first (inductionHypothesis found)
  | case3 => cases found

theorem forall_mem_substitute
    {body : Text} (parameters : List Text) {arguments : List Text}
    (bodyAllowed : ∀ character ∈ body, allowed character)
    (argumentsAllowed : ∀ argument ∈ arguments, ∀ character ∈ argument, allowed character) :
    ∀ character ∈ substitute body parameters arguments, allowed character := by
  intro character member
  obtain ⟨lexeme, isPart, written⟩ := List.mem_flatMap.mp member
  have partAllowed : ∀ found ∈ lexeme.text, allowed found := by
    intro found inPart
    apply bodyAllowed found
    rw [← flatMap_lexemes false body]
    exact List.mem_flatMap.mpr ⟨lexeme, isPart, inPart⟩
  cases lexeme with
  | word name =>
      rw [substituteLexeme] at written
      cases replaced : argument? name parameters arguments with
      | none =>
          rw [replaced] at written
          exact partAllowed character written
      | some argument =>
          rw [replaced] at written
          exact argumentsAllowed argument
            (mem_of_argument? replaced) character written
  | literal content => exact partAllowed character written
  | number content => exact partAllowed character written
  | other single => exact partAllowed character written

theorem forall_mem_callExpansion?
    {definition : FunctionMacro} {fromParen expansion rest : Text}
    (found : callExpansion? definition fromParen = some (expansion, rest))
    (bodyAllowed : ∀ character ∈ definition.body, allowed character)
    (line : ∀ character ∈ fromParen, allowed character) :
    (∀ character ∈ expansion, allowed character) ∧
      ∀ character ∈ rest, allowed character := by
  rw [callExpansion?] at found
  split at found
  · cases found
  · next opened after closed =>
      rw [eq_append_of_closeParen closed] at line
      obtain ⟨openedAllowed, afterAllowed⟩ := List.forall_mem_append.mp line
      dsimp only at found
      split at found
      · cases found
        refine ⟨?_, fun character member =>
          afterAllowed character (List.mem_cons_of_mem _ member)⟩
        apply forall_mem_substitute _ bodyAllowed
        intro argument isArgument character member
        have inOpened := mem_of_mem_splitTopLevel isArgument member
        exact openedAllowed character (List.mem_of_mem_drop inOpened)
      · cases found

variable {macros : Macros} (writes : macros.Writes allowed)

include writes

theorem forall_mem_expansion?
    {name after expansion rest : Text}
    (found : expansion? macros name after = some (expansion, rest))
    (line : ∀ character ∈ after, allowed character) :
    (∀ character ∈ expansion, allowed character) ∧
      ∀ character ∈ rest, allowed character := by
  rw [expansion?] at found
  split at found
  · next definition inner defined trimmed =>
      apply forall_mem_callExpansion? found
        (writes.functions name definition defined)
      rw [← trimmed]
      intro character member
      exact line character ((List.dropWhile_sublist isBlank).subset member)
  · obtain ⟨value, defined, same⟩ := Option.map_eq_some_iff.mp found
    obtain ⟨rfl, rfl⟩ := Prod.mk.inj same
    exact ⟨writes.objects name value defined, line⟩

/-- A pass brings in no characters but those that the macros write. -/
theorem forall_mem_expandOnce
    {line : Text} (lineAllowed : ∀ character ∈ line, allowed character) :
    ∀ character ∈ expandOnce macros line, allowed character := by
  fun_induction expandOnce macros line with
  | case1 => exact lineAllowed
  | case2 character rest name after scanned expansion remaining found
      inductionHypothesis =>
      obtain ⟨_, afterAllowed⟩ := forall_mem_next scanned lineAllowed
      obtain ⟨expanded, remainingAllowed⟩ :=
        forall_mem_expansion? writes found afterAllowed
      exact List.forall_mem_append.mpr
        ⟨expanded, inductionHypothesis remainingAllowed⟩
  | case3 character rest name after scanned _ inductionHypothesis =>
      obtain ⟨nameAllowed, afterAllowed⟩ := forall_mem_next scanned lineAllowed
      exact List.forall_mem_append.mpr
        ⟨nameAllowed, inductionHypothesis afterAllowed⟩
  | case4 character rest lexeme after _ scanned inductionHypothesis =>
      obtain ⟨partAllowed, afterAllowed⟩ := forall_mem_next scanned lineAllowed
      exact List.forall_mem_append.mpr
        ⟨partAllowed, inductionHypothesis afterAllowed⟩

/-- Nor does the whole expansion of a line. -/
theorem forall_mem_expand
    {line : Text} (lineAllowed : ∀ character ∈ line, allowed character) :
    ∀ character ∈ expand macros line, allowed character := by
  have passes : ∀ count {line : Text}, (∀ character ∈ line, allowed character) →
      ∀ character ∈ expandPasses macros count line, allowed character := by
    intro count
    induction count with
    | zero => exact id
    | succ count inductionHypothesis =>
        intro line lineAllowed
        rw [expandPasses]
        split
        · exact lineAllowed
        · exact inductionHypothesis (forall_mem_expandOnce writes lineAllowed)
  exact passes maxPasses lineAllowed

end Allowed

namespace Directive

def Writes (allowed : Char → Prop) : Directive → Prop
  | defineObject _ value => ∀ character ∈ value, allowed character
  | defineFunction _ definition =>
      ∀ character ∈ definition.body, allowed character
  | undefine _ => True

variable {allowed : Char → Prop}

theorem writes_of_readDefine?
    {rest : Text} {directive : Directive}
    (found : readDefine? rest = some directive)
    (restAllowed : ∀ character ∈ rest, allowed character) :
    directive.Writes allowed := by
  -- What follows the name of the macro is a part of the line.
  have afterAllowed :
      ∀ character ∈ (trimStart rest).dropWhile isNameChar,
        allowed character := by
    intro character member
    have inTrimmed := (List.dropWhile_sublist isNameChar).subset member
    exact restAllowed character
      ((List.dropWhile_sublist isBlank).subset inTrimmed)
  rw [readDefine?] at found
  split at found
  · dsimp only at found
    split at found
    · split at found
      · next afterParen isAfter =>
          obtain ⟨⟨list, body⟩, isCut, isFunction⟩ :=
            Option.bind_eq_some_iff.mp found
          dsimp only at isFunction
          split at isFunction
          · cases isFunction
            rw [isAfter, (eq_append_of_cut isCut).1] at afterAllowed
            intro character member
            apply afterAllowed character
            have inBody := mem_of_mem_trim member
            simp [inBody]
          · cases isFunction
      · split at found
        · cases found
          exact fun character member =>
            afterAllowed character (mem_of_mem_trim member)
        · cases found
    · cases found
  · cases found

theorem writes_of_read?
    {line : Text} {directive : Directive}
    (found : read? line = some (some directive))
    (lineAllowed : ∀ character ∈ line, allowed character) :
    directive.Writes allowed := by
  rw [read?] at found
  split at found
  · next rest dropped =>
      rw [eq_append_of_dropStart? dropped] at lineAllowed
      apply writes_of_readDefine? (Option.some.inj found)
      exact (List.forall_mem_append.mp lineAllowed).2
  · obtain ⟨rest, _, isUndefine⟩ := Option.map_eq_some_iff.mp found
    rw [readUndefine?] at isUndefine
    split at isUndefine
    · cases isUndefine
      trivial
    · cases isUndefine

theorem Writes.apply
    {directive : Directive} (directiveWrites : directive.Writes allowed)
    {macros : Macros} (writes : macros.Writes allowed) :
    (directive.apply macros).Writes allowed := by
  cases directive with
  | defineObject name value =>
      refine ⟨?_, writes.functions⟩
      intro other found isFound
      rw [Directive.apply, Macros.defineObject, Table.get?_set] at isFound
      split at isFound
      · cases isFound
        exact directiveWrites
      · exact writes.objects other found isFound
  | defineFunction name definition =>
      refine ⟨writes.objects, ?_⟩
      intro other found isFound
      rw [Directive.apply, Macros.defineFunction, Table.get?_set] at isFound
      split at isFound
      · cases isFound
        exact directiveWrites
      · exact writes.functions other found isFound
  | undefine name =>
      constructor
      · intro other found isFound
        rw [Directive.apply, Macros.undefine, Table.get?_erase] at isFound
        split at isFound
        · cases isFound
        · exact writes.objects other found isFound
      · intro other found isFound
        rw [Directive.apply, Macros.undefine, Table.get?_erase] at isFound
        split at isFound
        · cases isFound
        · exact writes.functions other found isFound

end Directive

/-! ## Whole sources -/

/-- What a line of a source becomes: nothing if it is a directive, and otherwise
its expansion. -/
inductive Becomes (line : Text) : Text → Prop
  | directive {directive : Directive}
      (read : Directive.read? (trim line) = some (some directive)) :
      Becomes line []
  | expanded (macros : Macros)
      (noDirective : Directive.read? (trim line) = none) :
      Becomes line (expand macros line)

/-- A line that is processed becomes empty or its expansion, and the macros go
on writing nothing but allowed characters. -/
theorem processLine_cases
    {macros changed : Macros} {number : Nat} {line output : Text}
    {allowed : Char → Prop}
    (processed : processLine macros number line = .ok (output, changed))
    (writes : macros.Writes allowed)
    (lineAllowed : ∀ character ∈ line, allowed character) :
    Becomes line output ∧ (∀ character ∈ output, allowed character) ∧
      changed.Writes allowed := by
  rw [processLine] at processed
  split at processed
  · next noDirective =>
      cases processed
      exact ⟨.expanded macros noDirective, forall_mem_expand writes lineAllowed,
        writes⟩
  · cases processed
  · next directive read =>
      cases processed
      have directiveWrites := Directive.writes_of_read? read
        fun character member => lineAllowed character (mem_of_mem_trim member)
      exact ⟨.directive read, by simp, directiveWrites.apply writes⟩

/-- Each line of a source becomes one line, with the macros of the lines before
it. -/
theorem processLines_forall₂
    {macros : Macros} {number : Nat} {lines outputs : List Text}
    {allowed : Char → Prop}
    (processed : processLines macros number lines = .ok outputs)
    (writes : macros.Writes allowed)
    (allAllowed : ∀ line ∈ lines, ∀ character ∈ line, allowed character) :
    List.Forall₂
      (fun line output =>
        Becomes line output ∧ ∀ character ∈ output, allowed character)
      lines outputs := by
  induction lines generalizing macros number outputs with
  | nil =>
      cases processed
      exact .nil
  | cons line later inductionHypothesis =>
      obtain ⟨lineAllowed, laterAllowed⟩ := List.forall_mem_cons.mp allAllowed
      rw [processLines] at processed
      split at processed
      · cases processed
      · next output changed isProcessed =>
          obtain ⟨others, processedLater, same⟩ := exists_ok_of_map processed
          cases same
          obtain ⟨becomes, outputAllowed, changedWrites⟩ :=
            processLine_cases isProcessed writes lineAllowed
          exact .cons ⟨becomes, outputAllowed⟩
            (inductionHypothesis processedLater changedWrites laterAllowed)

/-- Each line of a source becomes one line, and none of these lines has a line
feed. -/
theorem preprocess_forall₂
    {source : Text} {outputs : List Text}
    (processed : preprocess source = .ok outputs) :
    List.Forall₂ (fun line output => Becomes line output ∧ '\n' ∉ output)
      (lines source) outputs := by
  have noMacros : Macros.empty.Writes (· ≠ '\n') := by
    constructor
    · intro name value found
      cases found
    · intro name definition found
      cases found
  have linesAllowed :
      ∀ line ∈ lines source, ∀ character ∈ line, character ≠ '\n' := by
    intro line isLine character member feed
    rw [feed] at member
    exact not_mem_of_mem_lines isLine member
  apply (processLines_forall₂ processed noMacros linesAllowed).imp
  rintro line output ⟨becomes, outputAllowed⟩
  exact ⟨becomes, fun member => outputAllowed '\n' member rfl⟩

end Macro
end LineScript
