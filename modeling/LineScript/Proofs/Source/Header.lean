import LineScript.Proofs.Statement.Canonical
import LineScript.Source.Header
import LineScript.Text.Braces

/-!
The header of a function opens one block: the curly bracket at its end is the
only one in it, and it has no literals.
-/

namespace LineScript

namespace Text

def isQuiet (character : Char) : Bool :=
  !Quotes.isQuote character && character != '{' && character != '}'

/-- No character of the text is a quote or a curly bracket. -/
def Quiet (text : Text) : Prop :=
  ∀ character ∈ text, isQuiet character

theorem isQuiet_of_isPlain
    {character : Char} (plain : Nesting.isPlain character) :
    isQuiet character := by
  have notOpening : character ≠ '{' := by
    rintro rfl
    exact absurd plain (by decide)
  have notClosing : character ≠ '}' := by
    rintro rfl
    exact absurd plain (by decide)
  simp only [Nesting.isPlain, Bool.and_eq_true] at plain
  simp only [isQuiet, plain.1.1, Bool.true_and, Bool.and_eq_true, bne_iff_ne]
  exact ⟨notOpening, notClosing⟩

theorem quiet_of_blanks
    {text : Text} (blanks : ∀ character ∈ text, isBlank character) :
    Quiet text :=
  fun character member =>
    isQuiet_of_isPlain (Nesting.isPlain_of_blank (blanks character member))

theorem quiet_of_word
    {text : Text} (word : ∀ character ∈ text, isNameChar character) :
    Quiet text :=
  fun character member =>
    isQuiet_of_isPlain (Nesting.isPlain_of_isNameChar (word character member))

theorem Quiet.append
    {before after : Text} (first : Quiet before) (second : Quiet after) :
    Quiet (before ++ after) :=
  List.forall_mem_append.mpr ⟨first, second⟩

theorem Quiet.cons {character : Char} (first : isQuiet character) {rest : Text}
    (later : Quiet rest) : Quiet (character :: rest) :=
  List.forall_mem_cons.mpr ⟨first, later⟩

theorem quiet_of_trim {text : Text} (quiet : Quiet (trim text)) :
    Quiet text := by
  obtain ⟨before, after, whole, blanksBefore, blanksAfter⟩ :=
    exists_blanks_around text
  rw [whole]
  exact ((quiet_of_blanks blanksBefore).append quiet).append
    (quiet_of_blanks blanksAfter)

theorem quiet_of_splitTopLevel
    {text : Text} (pieces : ∀ piece ∈ splitTopLevel ',' text, Quiet piece) :
    Quiet text := by
  by_cases blank : trim text = []
  · apply quiet_of_trim
    rw [blank]
    exact List.forall_mem_nil _
  · rw [splitTopLevel_of_trim_ne_nil blank] at pieces
    have cuts := cuts_topLevelPieces ',' .start text
    apply cuts.forall_mem_text (fun character => isQuiet character) (by decide)
    intro piece isPiece
    exact quiet_of_trim (pieces (trim piece) (List.mem_map_of_mem isPiece))

theorem braceBalanceFrom_append
    {before : Text} (quiet : Quiet before) (after : Text) :
    braceBalanceFrom .outside (before ++ after) =
      braceBalanceFrom .outside after := by
  induction before with
  | nil => rfl
  | cons character before inductionHypothesis =>
      obtain ⟨first, later⟩ := List.forall_mem_cons.mp quiet
      simp only [isQuiet, Bool.and_eq_true, Bool.not_eq_true',
        bne_iff_ne] at first
      obtain ⟨⟨notQuote, notOpening⟩, notClosing⟩ := first
      rw [List.cons_append, braceBalanceFrom]
      simp only [Quotes.covers, Quotes.next, notQuote, Bool.false_eq_true,
        if_false, if_neg notOpening, if_neg notClosing,
        inductionHypothesis later]

end Text

open Text

theorem TypeTag.text_of_ofText?
    {word : Text} {tag : TypeTag} (found : ofText? word = some tag) :
    word = tag.text := by
  have same := List.find?_some found
  exact (beq_iff_eq.mp same).symm

theorem TypeTag.quiet_text (tag : TypeTag) : Quiet tag.text :=
  quiet_of_word (Statement.isNameChar_of_mem_returns (.value tag))

theorem TypeTag.quiet_of_read
    {written : Text} {tag : TypeTag} (found : read written = .ok tag) :
    Quiet written := by
  rw [read] at found
  split at found
  · next known =>
      apply quiet_of_trim
      rw [text_of_ofText? known]
      exact quiet_text _
  · cases found

theorem ReturnType.quiet_of_read
    {written : Text} {returns : ReturnType}
    (found : read written = .ok returns) :
    Quiet written := by
  rw [read] at found
  split at found
  · next known =>
      apply quiet_of_trim
      rw [ofText?] at known
      split at known
      · next isVoid =>
          rw [isVoid]
          exact quiet_of_word (Statement.isNameChar_of_mem_returns .void)
      · obtain ⟨tag, isTag, _⟩ := Option.map_eq_some_iff.mp known
        rw [TypeTag.text_of_ofText? isTag]
        exact tag.quiet_text
  · cases found

namespace Header

variable {number : Nat}

theorem Opening.quiet_of_ofWord? {word : Text} {opening : Opening}
    (found : ofWord? word = some opening) : Quiet word := by
  rw [ofWord?] at found
  split at found
  · next isFn =>
      rw [isFn]
      exact quiet_of_word (List.all_eq_true.mp rfl)
  · split at found
    · next isFunction =>
        rw [isFunction]
        exact quiet_of_word (List.all_eq_true.mp rfl)
    · obtain ⟨tag, isTag, _⟩ := Option.map_eq_some_iff.mp found
      rw [TypeTag.text_of_ofText? isTag]
      exact tag.quiet_text

theorem quiet_of_readParameter
    {source : Text} {parameter : Parameter}
    (found : readParameter number source = .ok parameter) :
    Quiet source := by
  rw [readParameter] at found
  split at found
  · cases found
  · next before typeText isCut =>
      dsimp only at found
      split at found
      · next named =>
          split at found
          · next isType =>
              rw [(eq_append_of_cut isCut).1]
              have quietName :=
                quiet_of_trim (quiet_of_word (isNameChar_of_mem_name named))
              exact quietName.append
                ((TypeTag.quiet_of_read isType).cons (by decide))
          · cases found
      · cases found

theorem quiet_of_readParameters
    {source : Text} {parameters : List Parameter}
    (found : readParameters number source = .ok parameters) :
    Quiet source := by
  apply quiet_of_splitTopLevel
  intro piece isPiece
  obtain ⟨parameter, isParameter⟩ := exists_ok_of_mapM found isPiece
  exact quiet_of_readParameter isParameter

theorem quiet_of_readReturns
    {header tail : Text} {opening : Opening} {returns : ReturnType}
    (found : readReturns number header opening tail = .ok returns) :
    Quiet tail := by
  have quietEmpty : tail.isEmpty → Quiet tail := by
    intro empty
    rw [List.isEmpty_iff.mp empty]
    exact List.forall_mem_nil _
  rw [readReturns.eq_def] at found
  split at found
  · split at found
    · next empty => exact quietEmpty empty
    · cases found
  · split at found
    · next empty => exact quietEmpty empty
    · split at found
      · cases found
      · next typeText dropped =>
          split at found
          · next isType =>
              rw [eq_append_of_dropStart? dropped]
              have quietArrow : Quiet "->".toList := List.all_eq_true.mp rfl
              exact quietArrow.append (ReturnType.quiet_of_read isType)
          · cases found

/-- A text in which one curly bracket opens and nothing else counts. -/
def OpensBlock (text : Text) : Prop :=
  ∃ before after, text = before ++ '{' :: after ∧ Quiet before ∧ Quiet after

theorem OpensBlock.after
    {text before : Text} (opens : OpensBlock text) (quiet : Quiet before) :
    OpensBlock (before ++ text) := by
  obtain ⟨inner, rest, rfl, quietInner, quietRest⟩ := opens
  exact ⟨before ++ inner, rest, (List.append_assoc _ _ _).symm,
    quiet.append quietInner, quietRest⟩

theorem OpensBlock.braceBalance_eq {line : Text} (opens : OpensBlock line) :
    braceBalance line = 1 := by
  obtain ⟨before, after, rfl, quietBefore, quietAfter⟩ := opens
  have nothing := braceBalanceFrom_append quietAfter []
  rw [List.append_nil] at nothing
  rw [braceBalance, braceBalanceFrom_append quietBefore]
  show braceBalanceFrom .outside after + 1 = 1
  rw [nothing]
  rfl

theorem opensBlock_of_readFrom
    {line name inner : Text} {opening : Opening} {header : Header}
    (found : readFrom number line opening name ('(' :: inner) = .ok header) :
    OpensBlock ('(' :: inner) := by
  rw [readFrom] at found
  split at found
  · cases found
  · next opened after closed =>
      split at found
      · cases found
      · next tail dropped =>
          split at found
          · cases found
          · next returns isReturns =>
              obtain ⟨parameters, areParameters, _⟩ := exists_ok_of_map found
              -- Between the brackets stand the parameters, and before the brace the type.
              obtain ⟨before, blanks, whole, quietBefore, quietBlanks⟩ :=
                exists_blanks_around after
              have quietOpened : Quiet opened := by
                have quietParameters := quiet_of_readParameters areParameters
                cases opened with
                | nil => exact List.forall_mem_nil _
                | cons first rest =>
                    have bracket : '(' = first :=
                      List.head_eq_of_cons_eq (eq_append_of_closeParen closed)
                    rw [← bracket]
                    exact quietParameters.cons (by decide)
              have quietTail : Quiet tail :=
                quiet_of_trim (quiet_of_readReturns isReturns)
              rw [eq_append_of_dropEnd? dropped] at whole
              rw [eq_append_of_closeParen closed]
              refine ⟨opened ++ ')' :: (before ++ tail), blanks, ?_, ?_,
                quiet_of_blanks quietBlanks⟩
              · rw [whole]
                simp
              · exact quietOpened.append
                  (((quiet_of_blanks quietBefore).append quietTail).cons
                    (by decide))

/-- A header is a word, a name and a bracket, with blanks between them. -/
theorem exists_of_read?
    {line : Text} {header : Header}
    (found : read? number line = .ok (some header)) :
    ∃ word opening gap name space inner,
      line = word ++ (gap ++ (name ++ (space ++ '(' :: inner))) ∧
      Opening.ofWord? word = some opening ∧ isName name ∧
      (∀ character ∈ gap, isBlank character) ∧
        (∀ character ∈ space, isBlank character) ∧
      readFrom number line opening name ('(' :: inner) = .ok header := by
  rw [read?] at found
  split at found
  · cases found
  · next opening isOpening =>
      dsimp only at found
      split at found
      · next inner named trimmed =>
          obtain ⟨read, isRead, same⟩ := exists_ok_of_map found
          cases same
          have wholeLine := List.takeWhile_append_dropWhile
            (p := fun character => !isBlank character) (l := line)
          obtain ⟨gap, wholeGap, blanksGap⟩ :=
            exists_blanks_before
              (line.dropWhile fun character => !isBlank character)
          have wholeRest := spanName_whole
            (trimStart (line.dropWhile fun character => !isBlank character))
          obtain ⟨space, wholeSpace, blanksSpace⟩ := exists_blanks_before
            (spanName
              (trimStart
                (line.dropWhile fun character => !isBlank character))).2
          refine ⟨_, opening, gap, _, space, inner, ?_, isOpening, ?_,
            blanksGap, blanksSpace,
            isRead⟩
          · rw [← trimmed, ← wholeSpace, ← wholeRest, ← wholeGap, wholeLine]
          · exact isName_spanName (by simpa using named)
      · split at found
        · cases found
        · cases found

/-- A header opens a block, so that the body starts behind it. -/
theorem opensBlock_of_read?
    {line : Text} {header : Header}
    (found : read? number line = .ok (some header)) :
    OpensBlock line := by
  obtain ⟨word, opening, gap, name, space, inner, whole, isOpening, named,
    blanksGap, blanksSpace,
    isRead⟩ := exists_of_read? found
  have fromParen := opensBlock_of_readFrom isRead
  have fromName := (fromParen.after (quiet_of_blanks blanksSpace)).after
    (quiet_of_word (isNameChar_of_mem_name named))
  rw [whole]
  exact (fromName.after (quiet_of_blanks blanksGap)).after
    (Opening.quiet_of_ofWord? isOpening)

/-- A header opens exactly one block. -/
theorem braceBalance_of_read?
    {line : Text} {header : Header}
    (found : read? number line = .ok (some header)) :
    braceBalance line = 1 :=
  (opensBlock_of_read? found).braceBalance_eq

end Header
end LineScript
