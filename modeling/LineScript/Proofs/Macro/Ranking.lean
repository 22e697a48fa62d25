import LineScript.Proofs.Macro.Lexing

/-!
Macros whose values use lower macros only.

A pass puts values next to what stands around a name.  Two words never run
together there, since no word stands next to a name; at most a number in front
takes words into it.  So each word of the result is a word of the line or of a
value, and the highest macro that a line mentions sinks with every pass.
-/

namespace LineScript
namespace Macro

open Text
open Lexeme (isNumberChar)

/-- The name stands in the line as a word, outside literals and numbers. -/
def Mentions (line name : Text) : Prop :=
  Lexeme.word name ∈ lexemes true line

/-- No word can run over from the first text into the second. -/
def Separate (before after : Text) : Prop :=
  ∀ last ∈ before.getLast?, ∀ first ∈ after.head?, isNameChar last →
    ¬ isNameChar first

namespace Lexeme.Fits

variable {numbers : Bool} {lexeme : Lexeme} {after : Text}

theorem lexemes_text (fits : lexeme.Fits numbers after) :
    lexemes numbers lexeme.text = [lexeme] := by
  have alone : lexeme.Fits numbers [] := fits.of_append
  have single := lexemes_cons_of_fits alone
  rwa [List.append_nil, lexemes] at single

/-- What follows a part does not run together with it, even if it is
expanded. -/
theorem separate
    (fits : lexeme.Fits true after) {next : Text}
    (starts : (∀ character ∈ after.head?, ¬ isNameChar character) →
      ∀ character ∈ next.head?, ¬ isNameChar character)
    (ends : after = [] → next = []) : Separate lexeme.text next := by
  intro last isLast first isFirst named
  cases fits with
  | @closed quote body _ isQuote _ =>
      rw [Lexeme.text, List.getLast?_concat] at isLast
      cases isLast
      exact absurd isQuote (not_isQuote_of_isNameChar named)
  | unclosed _ _ =>
      rw [ends rfl] at isFirst
      cases isFirst
  | number _ _ _ stops =>
      apply starts _ first isFirst
      intro character isNext isName
      exact stops character isNext (Bool.or_eq_true_iff.mpr (.inl isName))
  | word _ stops => exact starts stops first isFirst
  | @other character _ _ notNumber notName =>
      cases isLast
      simp only [isNameChar, Bool.or_eq_true] at named
      simp only [isNameStart, Bool.or_eq_true, not_or] at notName
      rcases named with (letter | digit) | underscore
      · exact absurd letter notName.1
      · exact absurd digit notNumber
      · exact absurd underscore notName.2

/-- A part that stands in front of more text still has its form, unless it is a
number at the end: that may go on. -/
theorem append_or_number
    (fits : lexeme.Fits true after) {next : Text}
    (closed : LiteralsClose (lexeme.text ++ after))
    (separate : Separate (lexeme.text ++ after) next) :
    lexeme.Fits true (after ++ next) ∨
      after = [] ∧ ∃ first digits, lexeme = .number (first :: digits) ∧
        isDigit first ∧
        ∀ character ∈ digits, isNumberChar character := by
  cases fits with
  | closed isQuote isBody => exact .inl (.closed isQuote isBody)
  | unclosed isQuote stillOpen =>
      rw [List.append_nil] at closed
      exact absurd closed (not_literalsClose_of_stillOpen isQuote stillOpen)
  | @number first digits _ counts digit inside ends =>
      cases after with
      | nil => exact .inr ⟨rfl, first, digits, rfl, digit, inside⟩
      | cons character after => exact .inl (.number counts digit inside ends)
  | @word name _ named ends =>
      left
      cases after with
      | nil =>
          refine .word named ?_
          rw [List.nil_append]
          rw [List.append_nil] at separate
          intro first isFirst
          have isLast := List.getLast?_eq_some_getLast (name_ne_nil named)
          apply separate _ isLast first isFirst
          exact isNameChar_of_mem_name named _ (List.getLast_mem _)
      | cons character after => exact .word named ends
  | other notQuote notNumber notName =>
      exact .inl (.other notQuote notNumber notName)

/-- The characters of a part can all stand in a number, or it starts with one
that cannot. -/
theorem numeric_or_starts (fits : lexeme.Fits true after) :
    (∀ character ∈ lexeme.text, isNumberChar character) ∨
      ∃ first rest, lexeme.text = first :: rest ∧ ¬ isNumberChar first := by
  have ofQuote :
      ∀ {quote : Char}, Quotes.isQuote quote → ¬ isNumberChar quote := by
    intro quote isQuote numeric
    rcases Bool.or_eq_true_iff.mp numeric with named | point
    · exact not_isQuote_of_isNameChar named isQuote
    · rw [beq_iff_eq.mp point] at isQuote
      cases isQuote
  cases fits with
  | @closed quote body _ isQuote _ =>
      exact .inr ⟨quote, body ++ [quote], rfl, ofQuote isQuote⟩
  | @unclosed quote rest isQuote _ =>
      exact .inr ⟨quote, rest, rfl, ofQuote isQuote⟩
  | number _ digit inside _ =>
      left
      apply List.forall_mem_cons.mpr ⟨_, inside⟩
      exact Bool.or_eq_true_iff.mpr (.inl (isNameChar_of_isDigit digit))
  | word named _ =>
      left
      intro character member
      exact Bool.or_eq_true_iff.mpr
        (.inl (isNameChar_of_mem_name named character member))
  | @other character _ _ _ _ =>
      by_cases numeric : isNumberChar character
      · left
        intro found member
        rw [List.mem_singleton.mp member]
        exact numeric
      · exact .inr ⟨character, [], rfl, numeric⟩

end Lexeme.Fits

/-- What is left of a line when a number in front has taken its part still has
the same parts. -/
theorem Lexed.suffix_of_dropWhile
    {parts : List Lexeme} {line : Text} (lexed : Lexed true parts line) :
    lexemes true (line.dropWhile isNumberChar) <:+ parts := by
  induction lexed with
  | nil =>
      have none : lexemes true (List.dropWhile isNumberChar []) = [] := by
        rw [List.dropWhile_nil, lexemes]
      exact ⟨[], none⟩
  | @cons lexeme parts after fits later inductionHypothesis =>
      rcases fits.numeric_or_starts
        with numeric | ⟨first, rest, isText, notNumeric⟩
      · rw [List.dropWhile_append_of_pos numeric]
        exact inductionHypothesis.trans (List.suffix_cons _ _)
      · have stays :
            (lexeme.text ++ after).dropWhile isNumberChar =
              lexeme.text ++ after := by
          rw [isText, List.cons_append, List.dropWhile_cons_of_neg notNumeric]
        have same :
            lexemes true ((lexeme.text ++ after).dropWhile isNumberChar) =
            lexeme :: parts := by
          rw [stays, (Lexed.cons fits later).lexemes_eq]
        exact ⟨[], same⟩

theorem mentions_number_append
    {first : Char} {digits after name : Text} (digit : isDigit first)
    (inside : ∀ character ∈ digits, isNumberChar character)
    (found : Mentions (first :: digits ++ after) name) :
    Mentions after name := by
  have longer :
      ∀ character ∈ digits ++ after.takeWhile isNumberChar,
        isNumberChar character :=
    List.forall_mem_append.mpr ⟨inside, fun _ => List.mem_takeWhile_imp⟩
  have fits :
      (Lexeme.number (first :: (digits ++ after.takeWhile isNumberChar))).Fits
        true
      (after.dropWhile isNumberChar) :=
        .number rfl digit longer (maximal_dropWhile _ _)
  have whole : first :: digits ++ after =
      (Lexeme.number
        (first :: (digits ++ after.takeWhile isNumberChar))).text ++
        after.dropWhile isNumberChar := by
    simp [Lexeme.text]
  rw [Mentions, whole, lexemes_cons_of_fits fits] at found
  rcases List.mem_cons.mp found with isNumber | later
  · cases isNumber
  · exact (lexed_lexemes true after).suffix_of_dropWhile.subset later

theorem Lexed.mentions_append
    {parts : List Lexeme} {before after name : Text}
    (lexed : Lexed true parts before)
    (closed : LiteralsClose before) (separate : Separate before after)
    (found : Mentions (before ++ after) name) :
    .word name ∈ parts ∨ Mentions after name := by
  induction lexed with
  | nil => exact .inr found
  | @cons lexeme parts middle fits later inductionHypothesis =>
      rcases fits.append_or_number closed separate with
        fitsToo | ⟨rfl, first, digits, rfl, digit, inside⟩
      · rw [Mentions, List.append_assoc, lexemes_cons_of_fits fitsToo] at found
        rcases List.mem_cons.mp found with same | inLater
        · rw [same]
          exact .inl List.mem_cons_self
        · have closedMiddle : LiteralsClose middle := by
            rcases fits.literalsClose_or_last with closedHere | rfl
            · exact closedHere.append_iff.mp closed
            · rfl
          have separateMiddle : Separate middle after := by
            intro last isLast
            apply separate last
            rw [List.getLast?_append, Option.mem_def.mp isLast]
            rfl
          rcases inductionHypothesis closedMiddle separateMiddle inLater
            with inParts | inAfter
          · exact .inl (List.mem_cons_of_mem _ inParts)
          · exact .inr inAfter
      · rw [List.append_nil] at found
        exact .inr (mentions_number_append digit inside found)

/-- A word of two texts together is a word of one of them, if none runs over from
the first into the second. -/
theorem mentions_append
    {before after name : Text} (closed : LiteralsClose before)
    (separate : Separate before after)
    (found : Mentions (before ++ after) name) :
    Mentions before name ∨ Mentions after name :=
  (lexed_lexemes true before).mentions_append closed separate found

theorem mentions_cons
    {character : Char} {rest name after : Text} {lexeme : Lexeme}
    (scanned : Lexeme.next true character rest = (lexeme, after)) :
    Mentions (character :: rest) name ↔ lexeme = .word name ∨
      Mentions after name := by
  rw [Mentions, lexemes, scanned, List.mem_cons, eq_comm, Mentions]

/-- Where no word goes on, none goes on after the expansion of the rest of the
line. -/
theorem starts_expandOnce
    (macros : Macros) {after : Text}
    (starts : ∀ character ∈ after.head?, ¬ isNameChar character) :
    ∀ character ∈ (expandOnce macros after).head?, ¬ isNameChar character := by
  cases after with
  | nil => rwa [expandOnce]
  | cons first rest =>
      have notName : ¬ isNameChar first := starts first rfl
      have fits := Lexeme.fits_next true first rest
      have whole := Lexeme.text_next true first rest
      cases scanned : Lexeme.next true first rest with
      | mk lexeme beyond =>
          rw [scanned] at fits whole
          obtain ⟨character, letters, isText⟩ := fits.exists_cons
          rw [isText] at whole
          cases List.head_eq_of_cons_eq whole
          have notWord : ∀ name, lexeme ≠ .word name := by
            rintro name rfl
            cases fits with
            | word named _ =>
                apply notName
                apply isNameChar_of_mem_name named
                rw [show name = first :: letters from isText]
                exact List.mem_cons_self
          rw [expandOnce_of_other scanned notWord, isText]
          exact starts

/-- A part that is copied in front of the expanded rest stays a part of its
own. -/
theorem mentions_part
    {macros : Macros} {character : Char} {rest after name : Text}
    {lexeme : Lexeme}
    (scanned : Lexeme.next true character rest = (lexeme, after))
    (found : Mentions (lexeme.text ++ expandOnce macros after) name) :
    lexeme = .word name ∨ Mentions (expandOnce macros after) name := by
  have fits := Lexeme.fits_next true character rest
  rw [scanned] at fits
  have ofText : Mentions lexeme.text name → lexeme = .word name := by
    intro inText
    rw [Mentions, fits.lexemes_text] at inText
    exact (List.mem_singleton.mp inText).symm
  rcases fits.literalsClose_or_last with closed | rfl
  · have separate := fits.separate (starts_expandOnce macros)
      (by rintro rfl; rw [expandOnce])
    exact (mentions_append closed separate found).imp_left ofText
  · rw [expandOnce, List.append_nil] at found
    exact .inl (ofText found)

/-- Where a word of a line after a pass comes from: it is a word of the line and
no macro, or it is a word in the value of a macro on the line. -/
inductive WordOrigin (macros : Macros) (line name : Text) : Prop
  | line (mentioned : Mentions line name)
      (undefined : macros.objects.get? name = none)
  | value {origin value : Text} (mentioned : Mentions line origin)
      (defined : macros.objects.get? origin = some value)
        (inValue : Mentions value name)

/-- A word that comes from the rest of a line comes from the line. -/
theorem WordOrigin.of_next
    {macros : Macros} {character : Char} {rest after name : Text}
    {lexeme : Lexeme}
    (scanned : Lexeme.next true character rest = (lexeme, after))
    (origin : WordOrigin macros after name) :
    WordOrigin macros (character :: rest) name := by
  cases origin with
  | line mentioned undefined =>
      exact .line ((mentions_cons scanned).mpr (.inr mentioned)) undefined
  | value mentioned defined inValue =>
      exact .value
        ((mentions_cons scanned).mpr (.inr mentioned)) defined inValue

section Objects

variable {macros : Macros} (noFunctions : macros.functions = [])

include noFunctions

/-- Without macros in it a line stays as it is. -/
theorem expandOnce_of_unmentioned
    {line : Text}
    (unmentioned : ∀ name, Mentions line name → macros.objects.get? name = none) :
    expandOnce macros line = line := by
  fun_induction expandOnce macros line with
  | case1 => rfl
  | case2 character rest name after scanned expansion remaining found =>
      have undefined :=
        unmentioned name ((mentions_cons scanned).mpr (.inl rfl))
      rw [expansion?_of_noFunctions noFunctions, undefined] at found
      cases found
  | case3 character rest name after scanned _ inductionHypothesis =>
      have whole := Lexeme.text_next true character rest
      rw [scanned] at whole
      rw [inductionHypothesis fun other inAfter =>
        unmentioned other ((mentions_cons scanned).mpr (.inr inAfter))]
      exact whole
  | case4 character rest lexeme after _ scanned inductionHypothesis =>
      have whole := Lexeme.text_next true character rest
      rw [scanned] at whole
      rw [inductionHypothesis fun other inAfter =>
        unmentioned other ((mentions_cons scanned).mpr (.inr inAfter))]
      exact whole

variable (closed : ∀ name value, macros.objects.get? name = some value →
    LiteralsClose value)

include closed

/-- Every word of a line after a pass comes from the line or from a value. -/
theorem mentions_expandOnce
    {line name : Text} (found : Mentions (expandOnce macros line) name) :
    WordOrigin macros line name := by
  fun_induction expandOnce macros line with
  | case1 =>
      rw [Mentions, lexemes] at found
      cases found
  | case2 character rest origin after scanned expansion remaining isFound
      inductionHypothesis =>
      rw [expansion?_of_noFunctions noFunctions] at isFound
      obtain ⟨value, defined, same⟩ := Option.map_eq_some_iff.mp isFound
      obtain ⟨rfl, rfl⟩ := Prod.mk.inj same
      have fits := Lexeme.fits_next true character rest
      rw [scanned] at fits
      have separate : Separate value (expandOnce macros after) := by
        intro last _ first isFirst _
        cases fits with
        | word _ stops => exact starts_expandOnce macros stops first isFirst
      rcases mentions_append
        (closed origin value defined) separate found with inValue | inRest
      · exact .value ((mentions_cons scanned).mpr (.inl rfl)) defined inValue
      · exact (inductionHypothesis inRest).of_next scanned
  | case3 character rest word after scanned refused inductionHypothesis =>
      rcases mentions_part scanned found with isWord | inRest
      · cases isWord
        rw [expansion?_of_noFunctions noFunctions,
          Option.map_eq_none_iff] at refused
        exact .line ((mentions_cons scanned).mpr (.inl rfl)) refused
      · exact (inductionHypothesis inRest).of_next scanned
  | case4 character rest lexeme after notWord scanned inductionHypothesis =>
      rcases mentions_part scanned found with isWord | inRest
      · exact absurd isWord (notWord name)
      · exact (inductionHypothesis inRest).of_next scanned

end Objects

/-! ## Ranks -/

/-- Every macro has a rank from one to ten, and each macro that its value
mentions has a lower one. -/
structure Macros.Ranked (macros : Macros) (rank : Text → Nat) : Prop where
  bounds : ∀ name value, macros.objects.get? name = some value →
    1 ≤ rank name ∧ rank name ≤ 10
  falls : ∀ name value other inner, macros.objects.get? name = some value →
    macros.objects.get? other = some inner → Mentions value other →
      rank other < rank name

section Ranked

variable {macros : Macros} (noFunctions : macros.functions = [])
  (closed :
    ∀ name value, macros.objects.get? name = some value → LiteralsClose value)
  {rank : Text → Nat} (ranked : macros.Ranked rank)

include noFunctions closed ranked

/-- Each pass brings the highest rank on the line down by one. -/
theorem rank_le_of_expandOnce
    {line : Text} {highest : Nat}
    (below : ∀ name value, macros.objects.get? name = some value →
      Mentions line name →
      rank name ≤ highest + 1) :
    ∀ name value, macros.objects.get? name = some value →
      Mentions (expandOnce macros line) name → rank name ≤ highest := by
  intro name inner defined found
  cases mentions_expandOnce noFunctions closed found with
  | line _ undefined =>
      rw [defined] at undefined
      cases undefined
  | @value origin value mentioned originDefined inValue =>
      have falls :=
        ranked.falls origin value name inner originDefined defined inValue
      have highestOrigin := below origin value originDefined mentioned
      omega

/-- After as many passes as the greatest rank no macro is mentioned.  The
induction is on the passes: each lowers the ranks of what is mentioned. -/
theorem unmentioned_expandPasses
    (passes : Nat) {line : Text}
    (below : ∀ name value, macros.objects.get? name = some value →
      Mentions line name →
      rank name ≤ passes) :
    ∀ name, Mentions (expandPasses macros passes line) name →
      macros.objects.get? name = none := by
  induction passes generalizing line with
  | zero =>
      intro name found
      cases defined : macros.objects.get? name with
      | none => rfl
      | some value =>
          have atLeast := (ranked.bounds name value defined).1
          have atMost := below name value defined found
          omega
  | succ passes inductionHypothesis =>
      rw [expandPasses_succ]
      exact inductionHypothesis
        (rank_le_of_expandOnce noFunctions closed ranked below)

end Ranked

/-- Macros without parameters that have ranks from one to ten are fully
expanded: another pass changes nothing, no macro is left on the line, and with
more passes nothing else would come out. -/
theorem ranked_macros_are_fully_expanded
    (macros : Macros) (line : Text) (rank : Text → Nat)
    (noFunctions : macros.functions = [])
    (closed : ∀ name value, macros.objects.get? name = some value → LiteralsClose value)
    (ranked : macros.Ranked rank) :
    expandOnce macros (expand macros line) = expand macros line ∧
      (∀ name, Mentions (expand macros line) name →
        macros.objects.get? name = none) ∧
      ∀ more, expandPasses macros (maxPasses + more) line =
        expand macros line := by
  have unmentioned : ∀ name, Mentions (expand macros line) name →
      macros.objects.get? name = none :=
    unmentioned_expandPasses noFunctions closed ranked maxPasses
      fun name value defined _ => (ranked.bounds name value defined).2
  have fixed := expandOnce_of_unmentioned noFunctions unmentioned
  refine ⟨fixed, unmentioned, ?_⟩
  intro more
  rw [expandPasses_add]
  exact expandPasses_of_fixed fixed more

/-- Ten macros, each but the lowest with the next lower one in brackets.  The
rank of a macro is one less than the length of its name. -/
def tower : Macros where
  objects := (List.range 10).map fun height =>
    (List.replicate (height + 2) 'A',
      if height = 0 then
        ['1']
      else
        '(' :: List.replicate (height + 1) 'A' ++ [')'])
  functions := []

/-- The highest macro of `tower` takes all ten passes, and an eleventh would
change nothing. -/
theorem ranked_macros_are_fully_expanded_of_tower :
    expand tower (List.replicate 11 'A' ++ ".AA + \"AA\" 2AA".toList) =
        "(((((((((1))))))))).1 + \"AA\" 2AA".toList ∧
      expandOnce tower (expand tower (List.replicate 11 'A')) =
        expand tower (List.replicate 11 'A') ∧
      (∀ name, Mentions (expand tower (List.replicate 11 'A')) name →
        tower.objects.get? name = none) ∧
      ∀ more, expandPasses tower (maxPasses + more) (List.replicate 11 'A') =
        expand tower (List.replicate 11 'A') := by
  have closed :
      ∀ name value, tower.objects.get? name = some value →
      LiteralsClose value := by
    intro name value found
    have values :
        ∀ entry ∈ tower.objects, Quotes.outside.after entry.2 = .outside := by
      decide +kernel
    exact values _ (Table.mem_of_get? found)
  have sizes :
      ∀ entry ∈ tower.objects, 2 ≤ entry.1.length ∧ entry.1.length ≤ 11 ∧
      ∀ part ∈ lexemes true entry.2, part.text.length < entry.1.length := by
    decide +kernel
  have ranked : tower.Ranked fun name => name.length - 1 := by
    constructor
    · intro name value found
      have size := sizes _ (Table.mem_of_get? found)
      dsimp only at size
      omega
    · intro name value other inner found _ mentioned
      obtain ⟨atLeast, _, parts⟩ := sizes _ (Table.mem_of_get? found)
      have shorter : other.length < name.length := parts _ mentioned
      dsimp only at atLeast
      omega
  exact ⟨by decide +kernel,
    ranked_macros_are_fully_expanded tower _ _ rfl closed ranked⟩

end Macro
end LineScript
