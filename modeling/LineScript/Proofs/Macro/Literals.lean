import LineScript.Proofs.Macro.Lexing

/-!
Macro expansion and literals.

Whatever is put in place of a macro leaves no literal open, so what stands
behind it is read outside of literals as before.  Hence expansion makes no
literal of its own: each literal of the result is one of the line or of a macro.
Only a call can lose a literal, with an argument that its macro does not use.
-/

namespace LineScript
namespace Text

/-- The string and character literals of a text from left to right, with their
quotes.  A literal that is never closed runs to the end of the text. -/
def literals : Text → List Text
  | [] => []
  | character :: rest =>
      if Quotes.isQuote character then
        (spanLiteral character rest).1 ::
          literals (spanLiteral character rest).2
      else
        literals rest
termination_by text => text.length
decreasing_by
  · have shorter := length_spanLiteral_le character rest
    simp only [List.length_cons]
    omega
  · exact Nat.lt_succ_self _

theorem literals_append
    {before : Text} (closed : LiteralsClose before) (after : Text) :
    literals (before ++ after) = literals before ++ literals after := by
  fun_induction literals before with
  | case1 => rfl
  | case2 character rest isQuote inductionHypothesis =>
      cases found : closeLiteral character false rest with
      | none =>
          exact absurd closed (not_literalsClose_of_stillOpen isQuote found)
      | some parts =>
          obtain ⟨inner, beyond⟩ := parts
          obtain ⟨isBody, whole⟩ := literalBody_of_closeLiteral found
          have spanned :
              spanLiteral character rest =
                (character :: inner ++ [character], beyond) :=
            by rw [spanLiteral, found]
          have spannedToo : spanLiteral character (rest ++ after) =
              (character :: inner ++ [character], beyond ++ after) := by
            rw [spanLiteral, closeLiteral_append isQuote found]
          have closedBeyond : LiteralsClose beyond := by
            apply (literalsClose_literal isQuote isBody).append_iff.mp
            rw [whole] at closed
            simpa using closed
          rw [spanned] at inductionHypothesis ⊢
          rw [List.cons_append, literals, if_pos isQuote, spannedToo,
            inductionHypothesis closedBeyond]
          rfl
  | case3 character rest notQuote inductionHypothesis =>
      have closedRest : LiteralsClose rest := by
        have single : LiteralsClose [character] := if_neg notQuote
        exact single.append_iff.mp closed
      rw [List.cons_append, literals, if_neg notQuote,
        inductionHypothesis closedRest]

theorem literals_of_noQuotes
    {text : Text} (noQuotes : ∀ character ∈ text, ¬ Quotes.isQuote character) :
    literals text = [] := by
  induction text with
  | nil => rw [literals]
  | cons character rest inductionHypothesis =>
      obtain ⟨notQuote, later⟩ := List.forall_mem_cons.mp noQuotes
      rw [literals, if_neg notQuote, inductionHypothesis later]

theorem literals_append_of_noQuotes
    {before : Text}
    (noQuotes : ∀ character ∈ before, ¬ Quotes.isQuote character)
    (after : Text) : literals (before ++ after) = literals after := by
  rw [literals_append (literalsClose_of_noQuotes noQuotes),
    literals_of_noQuotes noQuotes, List.nil_append]

theorem not_isQuote_of_mem_blanks
    {blanks : Text} (allBlank : ∀ character ∈ blanks, isBlank character) :
    ∀ character ∈ blanks, ¬ Quotes.isQuote character := by
  intro character member
  rw [Quotes.isQuote_ne_of_blank (allBlank character member)]
  exact Bool.false_ne_true

/-- Trimming does not touch literals. -/
theorem literals_trim {text : Text} (closed : LiteralsClose text) :
    LiteralsClose (trim text) ∧ literals (trim text) = literals text := by
  obtain ⟨before, after, whole, blanksBefore, blanksAfter⟩ :=
    exists_blanks_around text
  have plainBefore := not_isQuote_of_mem_blanks blanksBefore
  have plainAfter := not_isQuote_of_mem_blanks blanksAfter
  have closedTrim : LiteralsClose (trim text) := by
    rw [whole, List.append_assoc] at closed
    have reached := (literalsClose_of_noQuotes plainBefore).append_iff.mp closed
    rw [LiteralsClose, Quotes.after_append] at reached
    exact (Quotes.proper_outside.after _).outside_of_after_blanks blanksAfter
      reached
  refine ⟨closedTrim, ?_⟩
  calc
    literals (trim text) = literals (trim text ++ after) := by
      rw [literals_append closedTrim, literals_of_noQuotes plainAfter,
        List.append_nil]
    _ = literals (before ++ (trim text ++ after)) :=
      (literals_append_of_noQuotes plainBefore _).symm
    _ = literals text := by rw [← List.append_assoc, ← whole]

/-- A piece between commas has only literals of the whole text. -/
theorem literals_of_mem_cuts
    {nesting : Nesting} {text piece : Text} {pieces : List Text}
    (cuts : Cuts ',' nesting text pieces) (outside : nesting.quotes = .outside)
    (closed : LiteralsClose text) (isPiece : piece ∈ pieces) :
    LiteralsClose piece ∧ literals piece ⊆ literals text := by
  induction cuts with
  | last _ =>
      rw [List.mem_singleton.mp isPiece]
      exact ⟨closed, List.Subset.refl _⟩
  | @more nesting first rest pieces none exposed later inductionHypothesis =>
      have closedFirst : LiteralsClose first := by
        have read := Separator.comma.run_eq_start_iff.mpr ⟨none, exposed⟩
        have reached := Scan.quotes_of_run read
        rw [outside] at reached
        exact reached.symm
      have comma : LiteralsClose [','] := rfl
      have closedRest : LiteralsClose rest :=
        comma.append_iff.mp (closedFirst.append_iff.mp closed)
      have whole :
          literals (first ++ ',' :: rest) =
            literals first ++ literals rest := by
        rw [literals_append closedFirst, literals, if_neg (by decide)]
      show LiteralsClose piece ∧
          literals piece ⊆ literals (first ++ ',' :: rest)
      rw [whole]
      rcases List.mem_cons.mp isPiece with rfl | isLater
      · exact ⟨closedFirst, List.subset_append_left _ _⟩
      · obtain ⟨closedPiece, fromRest⟩ :=
          inductionHypothesis rfl closedRest isLater
        exact ⟨closedPiece,
          List.Subset.trans fromRest (List.subset_append_right _ _)⟩

/-- An argument holds whole literals of the list it stands in. -/
theorem literals_of_mem_splitTopLevel
    {text piece : Text} (closed : LiteralsClose text)
    (isPiece : piece ∈ splitTopLevel ',' text) :
    LiteralsClose piece ∧ literals piece ⊆ literals text := by
  by_cases blank : trim text = []
  · rw [splitTopLevel, if_pos (by rw [blank]; rfl)] at isPiece
    cases isPiece
  · rw [splitTopLevel_of_trim_ne_nil blank] at isPiece
    obtain ⟨untrimmed, isUntrimmed, rfl⟩ := List.mem_map.mp isPiece
    have cuts := cuts_topLevelPieces ',' .start text
    obtain ⟨closedPiece, fromText⟩ :=
      literals_of_mem_cuts cuts rfl closed isUntrimmed
    obtain ⟨closedTrim, same⟩ := literals_trim closedPiece
    rw [same]
    exact ⟨closedTrim, fromText⟩

/-- The text of a call from its bracket on: no literal is open where the call
ends. -/
theorem literals_of_closeParen
    {rest opened after : Text}
    (found : closeParen ('(' :: rest) = some (opened, after)) :
    LiteralsClose (opened.drop 1) ∧
      literals ('(' :: rest) = literals (opened.drop 1) ++ literals after := by
  rw [closeParen, closeParenFrom_eq_stop] at found
  obtain ⟨reached, character, whole, read, stops⟩ := Scan.exists_of_stop found
  obtain ⟨rfl, outside, _⟩ := roundStep_eq_none_iff.mp stops
  have closedOpened : LiteralsClose opened :=
    (Scan.quotes_of_run read).symm.trans outside
  cases opened with
  | nil => cases whole
  | cons first inner =>
      cases List.head_eq_of_cons_eq whole
      have paren : LiteralsClose ['('] := rfl
      refine ⟨paren.append_iff.mp closedOpened, ?_⟩
      rw [whole, literals_append closedOpened, literals, if_neg (by decide),
        literals.eq_2 ')', if_neg (by decide)]
      rfl

end Text

namespace Macro

open Text

namespace Lexeme.Fits

variable {numbers : Bool} {lexeme : Lexeme} {after : Text}

theorem literals_append (fits : lexeme.Fits numbers after) :
    literals (lexeme.text ++ after) =
      literals lexeme.text ++ literals after := by
  rcases fits.literalsClose_or_last with closed | rfl
  · exact Text.literals_append closed after
  · rw [literals, List.append_nil, List.append_nil]

end Lexeme.Fits

theorem Lexed.literalsClose
    {numbers : Bool} {parts : List Lexeme} {line : Text}
    (lexed : Lexed numbers parts line)
    (closed : LiteralsClose line) :
    ∀ part ∈ parts, LiteralsClose part.text := by
  induction lexed with
  | nil => simp
  | @cons lexeme parts after fits _ inductionHypothesis =>
      have closedHere : LiteralsClose lexeme.text := by
        rcases fits.literalsClose_or_last with closedHere | rfl
        · exact closedHere
        · rwa [List.append_nil] at closed
      exact List.forall_mem_cons.mpr
        ⟨closedHere, inductionHypothesis (closedHere.append_iff.mp closed)⟩

/-- If no part leaves a literal open, the literals are those of the parts in
order. -/
theorem literals_flatMap
    {write : Lexeme → Text} {parts : List Lexeme}
    (closed : ∀ part ∈ parts, LiteralsClose (write part)) :
    LiteralsClose (parts.flatMap write) ∧
      literals (parts.flatMap write) = parts.flatMap (literals ∘ write) := by
  induction parts with
  | nil => exact ⟨rfl, by rw [List.flatMap_nil, literals, List.flatMap_nil]⟩
  | cons part parts inductionHypothesis =>
      obtain ⟨closedHere, closedLater⟩ := List.forall_mem_cons.mp closed
      obtain ⟨closedRest, same⟩ := inductionHypothesis closedLater
      rw [List.flatMap_cons, List.flatMap_cons, literals_append closedHere,
        same]
      exact ⟨closedHere.append_iff.mpr closedRest, rfl⟩

/-! ## One pass -/

/-- The literals of a line are those of its first part and those of the rest.
So it is when the rest is expanded. -/
theorem literals_of_next
    {character : Char} {rest after : Text} {lexeme : Lexeme}
    (scanned : Lexeme.next true character rest = (lexeme, after)) :
    literals (character :: rest) = literals lexeme.text ++ literals after ∧
      ∀ macros, literals (lexeme.text ++ expandOnce macros after) =
        literals lexeme.text ++ literals (expandOnce macros after) := by
  have fits := Lexeme.fits_next true character rest
  have whole := Lexeme.text_next true character rest
  rw [scanned] at fits whole
  refine ⟨?_, ?_⟩
  · rw [← whole]
    exact fits.literals_append
  · intro macros
    rcases fits.literalsClose_or_last with closed | rfl
    · exact literals_append closed _
    · rw [expandOnce, literals, List.append_nil, List.append_nil]

/-- The macros leave no literal open and write no literals but allowed ones. -/
structure Macros.WritesLiterals (macros : Macros) (allowed : Text → Prop) :
    Prop where
  objects : ∀ name value, macros.objects.get? name = some value →
    LiteralsClose value ∧ ∀ literal ∈ literals value, allowed literal
  functions : ∀ name definition, macros.functions.get? name = some definition →
    LiteralsClose definition.body ∧
      ∀ literal ∈ literals definition.body, allowed literal

section Allowed

variable {allowed : Text → Prop}

/-- A substitution has only literals of the body and of the arguments. -/
theorem literals_substitute
    {body : Text} (parameters : List Text) {arguments : List Text}
    (closedBody : LiteralsClose body)
    (closedArguments : ∀ argument ∈ arguments, LiteralsClose argument)
    (bodyAllowed : ∀ literal ∈ literals body, allowed literal)
    (argumentsAllowed : ∀ argument ∈ arguments, ∀ literal ∈ literals argument, allowed literal) :
    LiteralsClose (substitute body parameters arguments) ∧
      ∀ literal ∈ literals (substitute body parameters arguments),
        allowed literal := by
  have closedParts := (lexed_lexemes false body).literalsClose closedBody
  have partsAllowed :
      ∀ part ∈ lexemes false body, ∀ literal ∈ literals part.text,
      allowed literal := by
    intro part isPart literal member
    apply bodyAllowed
    rw [← flatMap_lexemes false body, (literals_flatMap closedParts).2]
    exact List.mem_flatMap.mpr ⟨part, isPart, member⟩
  -- A part is written as it is, or as one of the arguments.
  have written : ∀ part ∈ lexemes false body,
      LiteralsClose (substituteLexeme parameters arguments part) ∧
        ∀ literal ∈ literals (substituteLexeme parameters arguments part),
          allowed literal := by
    intro part isPart
    have asItIs :=
      And.intro (closedParts part isPart) (partsAllowed part isPart)
    cases part with
    | word name =>
        rw [substituteLexeme]
        cases found : argument? name parameters arguments with
        | none => exact asItIs
        | some argument =>
            have isArgument := mem_of_argument? found
            exact ⟨closedArguments argument isArgument,
              argumentsAllowed argument isArgument⟩
    | literal content => exact asItIs
    | number content => exact asItIs
    | other character => exact asItIs
  obtain ⟨closed, same⟩ :=
    literals_flatMap fun part isPart => (written part isPart).1
  refine ⟨closed, ?_⟩
  intro literal member
  rw [substitute, same] at member
  obtain ⟨part, isPart, inPart⟩ := List.mem_flatMap.mp member
  exact (written part isPart).2 literal inPart

variable {macros : Macros} (writes : macros.WritesLiterals allowed)

include writes

/-- The expansion of a name leaves no literal open, and its literals are those
of the macro and of the text that it takes from the line. -/
theorem literals_expansion?
    {name after expansion rest : Text}
    (found : expansion? macros name after = some (expansion, rest))
    (afterAllowed : ∀ literal ∈ literals after, allowed literal) :
    LiteralsClose expansion ∧
      (∀ literal ∈ literals expansion, allowed literal) ∧
      ∀ literal ∈ literals rest, allowed literal := by
  rw [expansion?] at found
  split at found
  · next definition inner defined trimmed =>
      rw [callExpansion?] at found
      split at found
      · cases found
      · next opened beyond isClosed =>
          dsimp only at found
          split at found
          · cases found
            obtain ⟨closedInner, whole⟩ := literals_of_closeParen isClosed
            obtain ⟨blanks, front, allBlank⟩ := exists_blanks_before after
            have fromLine :
                literals after = literals (opened.drop 1) ++ literals rest := by
              rw [← whole, ← trimmed, front]
              rw [literals_append_of_noQuotes (not_isQuote_of_mem_blanks allBlank), ← front]
            rw [fromLine] at afterAllowed
            obtain ⟨innerAllowed, restAllowed⟩ :=
              List.forall_mem_append.mp afterAllowed
            obtain ⟨closedBody, bodyAllowed⟩ :=
              writes.functions name definition defined
            have ofArgument : ∀ argument ∈ splitTopLevel ',' (opened.drop 1),
                LiteralsClose argument ∧
                  literals argument ⊆ literals (opened.drop 1) :=
              fun _ isArgument =>
                literals_of_mem_splitTopLevel closedInner isArgument
            obtain ⟨closed, allAllowed⟩ :=
              literals_substitute definition.parameters closedBody
              (fun argument isArgument => (ofArgument argument isArgument).1)
                bodyAllowed
              (fun argument isArgument literal member =>
                innerAllowed literal
                  ((ofArgument argument isArgument).2 member))
            exact ⟨closed, allAllowed, restAllowed⟩
          · cases found
  · obtain ⟨value, defined, same⟩ := Option.map_eq_some_iff.mp found
    obtain ⟨rfl, rfl⟩ := Prod.mk.inj same
    obtain ⟨closed, valueAllowed⟩ := writes.objects name value defined
    exact ⟨closed, valueAllowed, afterAllowed⟩

/-- A pass brings in no literals but those that the macros write. -/
theorem forall_literals_expandOnce
    {line : Text} (lineAllowed : ∀ literal ∈ literals line, allowed literal) :
    ∀ literal ∈ literals (expandOnce macros line), allowed literal := by
  fun_induction expandOnce macros line with
  | case1 => exact lineAllowed
  | case2 character rest name after scanned expansion remaining found
      inductionHypothesis =>
      rw [(literals_of_next scanned).1] at lineAllowed
      obtain ⟨_, afterAllowed⟩ := List.forall_mem_append.mp lineAllowed
      obtain ⟨closed, expansionAllowed, remainingAllowed⟩ :=
        literals_expansion? writes found afterAllowed
      rw [literals_append closed]
      exact List.forall_mem_append.mpr
        ⟨expansionAllowed, inductionHypothesis remainingAllowed⟩
  | case3 character rest name after scanned _ inductionHypothesis =>
      obtain ⟨whole, copied⟩ := literals_of_next scanned
      rw [whole] at lineAllowed
      obtain ⟨nameAllowed, afterAllowed⟩ :=
        List.forall_mem_append.mp lineAllowed
      show ∀ literal ∈ literals
          ((Lexeme.word name).text ++ expandOnce macros after), allowed literal
      rw [copied macros]
      exact List.forall_mem_append.mpr
        ⟨nameAllowed, inductionHypothesis afterAllowed⟩
  | case4 character rest lexeme after _ scanned inductionHypothesis =>
      obtain ⟨whole, copied⟩ := literals_of_next scanned
      rw [whole] at lineAllowed
      obtain ⟨partAllowed, afterAllowed⟩ :=
        List.forall_mem_append.mp lineAllowed
      rw [copied macros]
      exact List.forall_mem_append.mpr
        ⟨partAllowed, inductionHypothesis afterAllowed⟩

end Allowed

/-- Macros without parameters keep the literals of a line in their order. -/
theorem literals_sublist_expandOnce
    {macros : Macros} (noFunctions : macros.functions = [])
    (closed : ∀ name value, macros.objects.get? name = some value → LiteralsClose value)
    (line : Text) :
    (literals line).Sublist (literals (expandOnce macros line)) := by
  fun_induction expandOnce macros line with
  | case1 => exact List.Sublist.refl _
  | case2 character rest name after scanned expansion remaining found
      inductionHypothesis =>
      rw [expansion?_of_noFunctions noFunctions] at found
      obtain ⟨value, defined, same⟩ := Option.map_eq_some_iff.mp found
      obtain ⟨rfl, rfl⟩ := Prod.mk.inj same
      have fits := Lexeme.fits_next true character rest
      rw [scanned] at fits
      have noLiterals : literals name = [] := by
        cases fits with
        | word named _ =>
            apply literals_of_noQuotes
            intro character member
            exact not_isQuote_of_isNameChar
              (isNameChar_of_mem_name named character member)
      rw [(literals_of_next scanned).1, Lexeme.text, noLiterals,
        List.nil_append, literals_append (closed name value defined)]
      exact inductionHypothesis.trans (List.sublist_append_right _ _)
  | case3 character rest name after scanned _ inductionHypothesis =>
      obtain ⟨whole, copied⟩ := literals_of_next scanned
      show (literals (character :: rest)).Sublist
        (literals ((Lexeme.word name).text ++ expandOnce macros after))
      rw [whole, copied macros]
      exact (List.Sublist.refl _).append inductionHypothesis
  | case4 character rest lexeme after _ scanned inductionHypothesis =>
      obtain ⟨whole, copied⟩ := literals_of_next scanned
      rw [whole, copied macros]
      exact (List.Sublist.refl _).append inductionHypothesis

/-- If the macros leave no literal open, each literal of an expanded line is a
literal of the line or of a macro, and macros without parameters keep all
literals of the line in order. -/
theorem literals_are_never_expanded
    (macros : Macros) (line : Text)
    (values : ∀ name value, macros.objects.get? name = some value → LiteralsClose value)
    (bodies : ∀ name definition, macros.functions.get? name = some definition →
      LiteralsClose definition.body) :
    (∀ literal ∈ literals (expand macros line),
      literal ∈ literals line ∨
        (∃ name value, macros.objects.get? name = some value ∧
          literal ∈ literals value) ∨
        ∃ name definition, macros.functions.get? name = some definition ∧
          literal ∈ literals definition.body) ∧
      (macros.functions = [] →
        (literals line).Sublist (literals (expand macros line))) := by
  constructor
  · let known : Text → Prop := fun literal =>
      literal ∈ literals line ∨
        (∃ name value, macros.objects.get? name = some value ∧
          literal ∈ literals value) ∨
        ∃ name definition, macros.functions.get? name = some definition ∧
          literal ∈ literals definition.body
    have writes : macros.WritesLiterals known := by
      constructor
      · intro name value defined
        refine ⟨values name value defined, ?_⟩
        exact fun literal member => .inr (.inl ⟨name, value, defined, member⟩)
      · intro name definition defined
        refine ⟨bodies name definition defined, ?_⟩
        exact fun literal member =>
          .inr (.inr ⟨name, definition, defined, member⟩)
    exact expandPasses_induction
      (motive := fun passed => ∀ literal ∈ literals passed, known literal)
      (fun _ => forall_literals_expandOnce writes) maxPasses fun literal
        member => .inl member
  · intro noFunctions
    exact expandPasses_induction
      (motive := fun passed => (literals line).Sublist (literals passed))
      (fun passed kept =>
        kept.trans (literals_sublist_expandOnce noFunctions values passed))
      maxPasses (List.Sublist.refl _)

/-- A macro of each kind, both with a literal in it. -/
def talking : Macros where
  objects := [("NAME".toList, "\"bob\"".toList)]
  functions := [("SAY".toList,
    { parameters := ["x".toList, "y".toList], body := "x + 'y' + y".toList })]

/-- Literals with a comma, brackets, an escaped quote and the names of macros
and parameters. -/
def talkingLine : Text :=
  "SAY(\"NAME, (\\\"x)\", 'a') + NAME + \"NAME".toList

/-- The names in the literals of `talkingLine` stay, the open literal at its end
included. -/
theorem literals_are_never_expanded_of_talking :
    expand talking talkingLine =
        "\"NAME, (\\\"x)\" + 'y' + 'a' + \"bob\" + \"NAME".toList ∧
      (∀ literal ∈ literals (expand talking talkingLine),
        literal ∈ literals talkingLine ∨
          (∃ name value, talking.objects.get? name = some value ∧
            literal ∈ literals value) ∨
          ∃ name definition, talking.functions.get? name = some definition ∧
            literal ∈ literals definition.body) ∧
      (literals talkingLine).Sublist
        (literals (expand { talking with functions := [] } talkingLine)) := by
  have values :
      ∀ name value, talking.objects.get? name = some value →
      LiteralsClose value := by
    intro name value found
    cases List.mem_singleton.mp (Table.mem_of_get? found)
    rfl
  have bodies :
      ∀ name definition, talking.functions.get? name = some definition →
      LiteralsClose definition.body := by
    intro name definition found
    cases List.mem_singleton.mp (Table.mem_of_get? found)
    rfl
  refine ⟨by decide +kernel,
    (literals_are_never_expanded _ _ values bodies).1, ?_⟩
  apply (literals_are_never_expanded
    { talking with functions := [] } _ values _).2 rfl
  intro name definition found
  cases found

end Macro
end LineScript
