import LineScript.Proofs.Text.Length
import Mathlib.Data.List.TakeWhile

/-!
What cutting and trimming do to texts put together from known parts, and what
they say about a text whose parts are found.
-/

namespace LineScript
namespace Text

theorem trimStart_of_trimmed {text : Text} (trimmed : trim text = text) :
    trimStart text = text := by
  have again := trimStart_trim text
  rw [trimmed] at again
  exact again

theorem tight_of_trimmed {text : Text} (trimmed : trim text = text) :
    Tight text := by
  have tight := tight_trim text
  rw [trimmed] at tight
  exact tight

theorem trim_of_tight
    {text : Text} (start : trimStart text = text) (tight : Tight text) :
    trim text = text := by
  rw [tight.trim_eq, start]

theorem trimStart_cons_of_blank
    {character : Char} (blank : isBlank character) (rest : Text) :
    trimStart (character :: rest) = trimStart rest :=
  List.dropWhile_cons_of_pos blank

theorem trimStart_cons_of_not_blank
    {character : Char} (notBlank : ¬ isBlank character) (rest : Text) :
    trimStart (character :: rest) = character :: rest :=
  List.dropWhile_cons_of_neg notBlank

theorem trimStart_trimStart (text : Text) :
    trimStart (trimStart text) = trimStart text := by
  have refused := List.head?_dropWhile_not isBlank text
  cases trimmed : trimStart text with
  | nil => rfl
  | cons first rest =>
      rw [show text.dropWhile isBlank = first :: rest from trimmed] at refused
      have notBlank : ¬ isBlank first := by simpa using refused
      exact trimStart_cons_of_not_blank notBlank rest

theorem trim_trimStart (text : Text) : trim (trimStart text) = trim text := by
  rw [trim, trimStart_trimStart, ← trim]

theorem trim_space_cons (rest : Text) : trim (' ' :: rest) = trim rest := by
  have blank : isBlank ' ' := by decide
  rw [trim, trimStart_cons_of_blank blank, trim]

theorem not_blank_of_trimStart
    {character : Char} {rest : Text}
    (start : trimStart (character :: rest) = character :: rest) :
    ¬ isBlank character := by
  intro blank
  rw [trimStart_cons_of_blank blank] at start
  have shorter := length_trimStart_le rest
  rw [start] at shorter
  exact Nat.not_succ_le_self rest.length shorter

theorem trimStart_append
    {text : Text} (start : trimStart text = text) (nonempty : text ≠ [])
    (rest : Text) :
    trimStart (text ++ rest) = text ++ rest := by
  obtain ⟨first, others, rfl⟩ := List.exists_cons_of_ne_nil nonempty
  exact trimStart_cons_of_not_blank (not_blank_of_trimStart start)
    (others ++ rest)

theorem trimStart_ne_nil {text : Text} (notBlank : trim text ≠ []) :
    trimStart text ≠ [] := by
  intro nothing
  rw [trim, nothing] at notBlank
  exact notBlank rfl

theorem trimStart_append_of_not_blank
    {text : Text} (notBlank : trim text ≠ []) (rest : Text) :
    trimStart (text ++ rest) = trimStart text ++ rest := by
  have visible := trimStart_ne_nil notBlank
  rw [trimStart] at visible
  rw [trimStart, List.dropWhile_append, if_neg (by simpa using visible),
    ← trimStart]

theorem tight_append
    (before : Text) {after : Text} (nonempty : after ≠ [])
    (tight : Tight after) :
    Tight (before ++ after) := by
  intro character isLast
  apply tight character
  rw [List.getLast?_append] at isLast
  cases last : after.getLast? with
  | none => exact absurd (List.getLast?_eq_none_iff.mp last) nonempty
  | some found =>
      rw [last] at isLast
      exact isLast

theorem tight_concat (before : Text) {last : Char} (notBlank : ¬ isBlank last) :
    Tight (before ++ [last]) := by
  intro character isLast
  rw [List.getLast?_concat] at isLast
  cases isLast
  exact notBlank

theorem exists_blanks_before (text : Text) :
    ∃ blanks, text = blanks ++ trimStart text ∧
      ∀ character ∈ blanks, isBlank character :=
  ⟨text.takeWhile isBlank, List.takeWhile_append_dropWhile.symm,
    List.all_eq_true.mp List.all_takeWhile⟩

theorem exists_blanks_after (text : Text) :
    ∃ blanks, text = trimEnd text ++ blanks ∧
      ∀ character ∈ blanks, isBlank character := by
  refine ⟨(text.reverse.takeWhile isBlank).reverse, ?_, ?_⟩
  · rw [trimEnd, ← List.reverse_append, List.takeWhile_append_dropWhile,
      List.reverse_reverse]
  · intro character member
    exact List.all_eq_true.mp List.all_takeWhile character
      (List.mem_reverse.mp member)

/-- Around a trimmed text there is nothing but blanks. -/
theorem exists_blanks_around (text : Text) :
    ∃ before after, text = before ++ trim text ++ after ∧
      (∀ character ∈ before, isBlank character) ∧
        ∀ character ∈ after, isBlank character := by
  obtain ⟨before, front, blanksBefore⟩ := exists_blanks_before text
  obtain ⟨after, back, blanksAfter⟩ := exists_blanks_after (trimStart text)
  refine ⟨before, after, ?_, blanksBefore, blanksAfter⟩
  rw [List.append_assoc, trim, ← back]
  exact front

theorem trim_append_of_blanks
    {blanks : Text} (allBlank : ∀ character ∈ blanks, isBlank character)
    (text : Text) :
    trim (blanks ++ text) = trim text := by
  rw [trim, trimStart, List.dropWhile_append_of_pos allBlank, ← trimStart,
    ← trim]

theorem trim_append_of_tight {text : Text} (tight : Tight text) (rest : Text) :
    trim (text ++ rest) = trim (trim text ++ rest) := by
  obtain ⟨blanks, whole, allBlank⟩ := exists_blanks_before text
  calc
    trim (text ++ rest) = trim (blanks ++ (trimStart text ++ rest)) := by
      rw [← List.append_assoc, ← whole]
    _ = trim (trim text ++ rest) := by
      rw [trim_append_of_blanks allBlank, tight.trim_eq]

theorem trimEnd_append_of_not_blank
    (before : Text) {character : Char} (notBlank : ¬ isBlank character)
    (after : Text) :
    trimEnd (before ++ character :: after) =
      before ++ character :: trimEnd after := by
  unfold trimEnd
  rw [List.reverse_append, List.reverse_cons, List.append_assoc,
    List.dropWhile_append]
  split
  · next allBlank =>
      have nothing : after.reverse.dropWhile isBlank = [] :=
        List.isEmpty_iff.mp allBlank
      rw [nothing, List.singleton_append, List.dropWhile_cons_of_neg notBlank]
      simp
  · simp

theorem trimEnd_concat_of_blank
    (text : Text) {last : Char} (blank : isBlank last) :
    trimEnd (text ++ [last]) = trimEnd text := by
  rw [trimEnd, List.reverse_append, List.reverse_singleton,
    List.singleton_append, List.dropWhile_cons_of_pos blank, trimEnd]

theorem trim_concat_of_blank
    (text : Text) {last : Char} (blank : isBlank last) :
    trim (text ++ [last]) = trim text := by
  rw [trim, trimStart, List.dropWhile_append]
  split
  · next allBlank =>
      have nothing : trimStart text = [] := List.isEmpty_iff.mp allBlank
      rw [List.dropWhile_cons_of_pos blank, trim, nothing]
      rfl
  · exact trimEnd_concat_of_blank (trimStart text) blank

theorem trim_append_blanks
    {blanks : Text} (allBlank : ∀ character ∈ blanks, isBlank character)
    (text : Text) :
    trim (text ++ blanks) = trim text := by
  induction blanks generalizing text with
  | nil => rw [List.append_nil]
  | cons first blanks inductionHypothesis =>
      obtain ⟨blank, laterBlank⟩ := List.forall_mem_cons.mp allBlank
      rw [List.append_cons, inductionHypothesis laterBlank,
        trim_concat_of_blank text blank]

theorem trim_trimEnd (text : Text) : trim (trimEnd text) = trim text := by
  obtain ⟨blanks, whole, allBlank⟩ := exists_blanks_after text
  have trimmed := trim_append_blanks allBlank (trimEnd text)
  rw [← whole] at trimmed
  exact trimmed.symm

theorem trim_concat_space {text : Text} (trimmed : trim text = text) :
    trim (text ++ [' ']) = text := by
  have blank : isBlank ' ' := by decide
  rw [trim_concat_of_blank text blank, trimmed]

theorem trimEnd_space_cons
    {text : Text} (nonempty : text ≠ []) (trimmed : trim text = text) :
    trimEnd (' ' :: text) = ' ' :: text :=
  (tight_append [' '] nonempty (tight_of_trimmed trimmed)).trimEnd_eq

theorem trim_trimEnd_space_cons {text : Text} (trimmed : trim text = text) :
    trim (trimEnd (' ' :: text)) = text := by
  rw [trim_trimEnd, trim_space_cons, trimmed]

theorem mem_of_mem_trim
    {text : Text} {character : Char} (member : character ∈ trim text) :
    character ∈ text := by
  obtain ⟨before, after, whole, _⟩ := exists_blanks_around text
  rw [whole]
  exact List.mem_append_left _ (List.mem_append_right _ member)

theorem mem_trim_of_not_blank
    {text : Text} {character : Char} (member : character ∈ text)
    (notBlank : ¬ isBlank character) :
    character ∈ trim text := by
  obtain ⟨before, after, whole, blanksBefore, blanksAfter⟩ :=
    exists_blanks_around text
  rw [whole] at member
  rcases List.mem_append.mp member with front | inAfter
  · rcases List.mem_append.mp front with inBefore | inside
    · exact absurd (blanksBefore character inBefore) notBlank
    · exact inside
  · exact absurd (blanksAfter character inAfter) notBlank

theorem trim_eq_nil_iff {text : Text} :
    trim text = [] ↔ ∀ character ∈ text, isBlank character := by
  constructor
  · intro empty character member
    refine Decidable.byContradiction fun notBlank => ?_
    have kept := mem_trim_of_not_blank member notBlank
    rw [empty] at kept
    cases kept
  · intro allBlank
    exact trim_append_blanks allBlank []

theorem exists_append_of_trimEnd (text : Text) :
    ∃ rest, text = trimEnd text ++ rest := by
  obtain ⟨blanks, whole, _⟩ := exists_blanks_after text
  exact ⟨blanks, whole⟩

theorem trimStart_of_append
    {text rest : Text} (start : trimStart (text ++ rest) = text ++ rest) :
    trimStart text = text := by
  cases text with
  | nil => rfl
  | cons first others =>
      exact trimStart_cons_of_not_blank (not_blank_of_trimStart start) others

theorem dropStart?_append (start rest : Text) :
    dropStart? start (start ++ rest) = some rest := by
  induction start with
  | nil => rfl
  | cons character start inductionHypothesis =>
      rw [List.cons_append, dropStart?, if_pos rfl]
      exact inductionHypothesis

theorem dropStart?_append_cons
    {word : Text} {character : Char} (absent : character ∉ word)
    (text rest : Text) :
    dropStart? word (text ++ character :: rest) =
      (dropStart? word text).map (· ++ character :: rest) := by
  induction word generalizing text with
  | nil => rfl
  | cons expected word inductionHypothesis =>
      simp only [List.mem_cons, not_or] at absent
      cases text with
      | nil => exact if_neg (Ne.symm absent.1)
      | cons first text =>
          rw [List.cons_append, dropStart?, dropStart?]
          split
          · exact inductionHypothesis absent.2 text
          · rfl

theorem dropEnd?_append (ending before : Text) :
    dropEnd? ending (before ++ ending) = some before := by
  rw [dropEnd?, List.reverse_append, dropStart?_append, Option.map_some,
    List.reverse_reverse]

theorem eq_append_of_dropEnd?
    {ending text before : Text} (found : dropEnd? ending text = some before) :
    text = before ++ ending := by
  obtain ⟨reversed, dropped, rfl⟩ := Option.map_eq_some_iff.mp found
  have whole := congrArg List.reverse (eq_append_of_dropStart? dropped)
  rw [List.reverse_reverse, List.reverse_append, List.reverse_reverse] at whole
  exact whole

theorem startsWith_append
    {start text : Text} (starts : startsWith start text) (rest : Text) :
    startsWith start (text ++ rest) := by
  obtain ⟨after, dropped⟩ := Option.isSome_iff_exists.mp starts
  rw [eq_append_of_dropStart? dropped, List.append_assoc, startsWith,
    dropStart?_append]
  rfl

theorem exists_append_of_dropEnd? (ending text : Text) :
    ∃ rest, text = (dropEnd? ending text).getD text ++ rest := by
  cases dropped : dropEnd? ending text with
  | none => exact ⟨[], (List.append_nil text).symm⟩
  | some before => exact ⟨ending, eq_append_of_dropEnd? dropped⟩

/-! ## Cutting at a character -/

theorem takeWhile_append_cons
    {inside : Char → Bool} {stop : Char} (outside : ¬ inside stop)
    (line rest : Text) :
    (line ++ stop :: rest).takeWhile inside = line.takeWhile inside := by
  induction line with
  | nil => exact List.takeWhile_cons_of_neg outside
  | cons character line inductionHypothesis =>
      rw [List.cons_append, List.takeWhile_cons, List.takeWhile_cons,
        inductionHypothesis]

theorem dropWhile_append_cons
    {inside : Char → Bool} {stop : Char} (outside : ¬ inside stop)
    (line rest : Text) :
    (line ++ stop :: rest).dropWhile inside =
      line.dropWhile inside ++ stop :: rest := by
  induction line with
  | nil => exact List.dropWhile_cons_of_neg outside
  | cons character line inductionHypothesis =>
      rw [List.cons_append, List.dropWhile_cons, List.dropWhile_cons,
        inductionHypothesis]
      split
      · rfl
      · rfl

/-- A run that cannot be longer is what a search for it finds. -/
theorem span_of_maximal
    {holds : Char → Bool} {run rest : Text}
    (inside : ∀ character ∈ run, holds character)
    (boundary : ∀ character ∈ rest.head?, ¬ holds character) :
    (run ++ rest).takeWhile holds = run ∧
      (run ++ rest).dropWhile holds = rest := by
  rw [List.takeWhile_append_of_pos inside, List.dropWhile_append_of_pos inside]
  cases rest with
  | nil => simp
  | cons next later =>
      have stops : ¬ holds next := boundary next rfl
      simp [stops]

theorem maximal_dropWhile (holds : Char → Bool) (text : Text) :
    ∀ character ∈ (text.dropWhile holds).head?, ¬ holds character := by
  intro character first
  have refused := List.head?_dropWhile_not holds text
  rw [Option.mem_def.mp first] at refused
  simpa using refused

section Cutting

variable {separator : Char}

theorem cut_append
    {before : Text} (absent : separator ∉ before) (after : Text) :
    cut separator (before ++ separator :: after) = some (before, after) := by
  induction before with
  | nil => rw [List.nil_append, cut, if_pos rfl]
  | cons character rest inductionHypothesis =>
      simp only [List.mem_cons, not_or] at absent
      rw [List.cons_append, cut, if_neg (Ne.symm absent.1),
        inductionHypothesis absent.2]
      rfl

theorem eq_append_of_cut
    {text before after : Text}
    (found : cut separator text = some (before, after)) :
    text = before ++ separator :: after ∧ separator ∉ before := by
  induction text generalizing before with
  | nil => cases found
  | cons character rest inductionHypothesis =>
      rw [cut] at found
      split at found
      · next same =>
          cases found
          rw [same]
          exact ⟨rfl, List.not_mem_nil⟩
      · next different =>
          obtain ⟨⟨inner, outer⟩, cutRest, same⟩ :=
            Option.map_eq_some_iff.mp found
          cases same
          obtain ⟨whole, absent⟩ := inductionHypothesis cutRest
          rw [whole]
          refine ⟨rfl, ?_⟩
          simp only [List.mem_cons, not_or]
          exact ⟨Ne.symm different, absent⟩

theorem splitOn_cons_self (rest : Text) :
    splitOn separator (separator :: rest) = [] :: splitOn separator rest := by
  simp [splitOn, segments]

theorem splitOn_cons_of_ne
    {character : Char} (different : character ≠ separator) (rest : Text) :
    splitOn separator (character :: rest) =
      (splitOn separator rest).modifyHead (character :: ·) := by
  simp [splitOn, segments, different]

theorem splitOn_of_not_mem {text : Text} (absent : separator ∉ text) :
    splitOn separator text = [text] := by
  induction text with
  | nil => rfl
  | cons character rest inductionHypothesis =>
      simp only [List.mem_cons, not_or] at absent
      rw [splitOn_cons_of_ne (Ne.symm absent.1), inductionHypothesis absent.2]
      rfl

theorem splitOn_append
    {before : Text} (absent : separator ∉ before) (after : Text) :
    splitOn separator (before ++ separator :: after) =
      before :: splitOn separator after := by
  induction before with
  | nil => exact splitOn_cons_self after
  | cons character rest inductionHypothesis =>
      simp only [List.mem_cons, not_or] at absent
      rw [List.cons_append, splitOn_cons_of_ne (Ne.symm absent.1),
        inductionHypothesis absent.2]
      rfl

theorem splitOn_ne_nil (separator : Char) (text : Text) :
    splitOn separator text ≠ [] :=
  List.cons_ne_nil _ _

theorem splitOn_append_cons (before after : Text) :
    splitOn separator (before ++ separator :: after) =
      splitOn separator before ++ splitOn separator after := by
  induction before with
  | nil => exact splitOn_cons_self after
  | cons character before inductionHypothesis =>
      rw [List.cons_append]
      by_cases same : character = separator
      · rw [same, splitOn_cons_self, splitOn_cons_self, inductionHypothesis]
        rfl
      · rw [splitOn_cons_of_ne same, splitOn_cons_of_ne same,
          inductionHypothesis]
        obtain ⟨first, others, isSplit⟩ :=
          List.exists_cons_of_ne_nil (splitOn_ne_nil separator before)
        rw [isSplit]
        rfl

theorem eq_of_splitOn_singleton
    {text piece : Text} (single : splitOn separator text = [piece]) :
    piece = text := by
  by_cases member : separator ∈ text
  · obtain ⟨before, after, rfl, absent⟩ := List.eq_append_cons_of_mem member
    rw [splitOn_append absent] at single
    cases single
  · rw [splitOn_of_not_mem member] at single
    exact (List.singleton_inj.mp single).symm

theorem not_mem_of_mem_splitOn
    {text piece : Text} (member : piece ∈ splitOn separator text) :
    separator ∉ piece := by
  induction text generalizing piece with
  | nil =>
      have empty : piece = [] := List.mem_singleton.mp member
      rw [empty]
      exact List.not_mem_nil
  | cons character rest inductionHypothesis =>
      by_cases same : character = separator
      · rw [same, splitOn_cons_self] at member
        rcases List.mem_cons.mp member with rfl | later
        · exact List.not_mem_nil
        · exact inductionHypothesis later
      · rw [splitOn_cons_of_ne same] at member
        cases pieces : splitOn separator rest with
        | nil =>
            rw [pieces] at member
            cases member
        | cons first others =>
            rw [pieces] at member inductionHypothesis
            rcases List.mem_cons.mp member with rfl | later
            · simp only [List.mem_cons, not_or]
              exact ⟨Ne.symm same, inductionHypothesis List.mem_cons_self⟩
            · exact inductionHypothesis (List.mem_cons_of_mem _ later)

end Cutting

theorem mem_of_mem_dropCarriageReturn
    {text : Text} {character : Char}
    (member : character ∈ dropCarriageReturn text) :
    character ∈ text := by
  obtain ⟨rest, whole⟩ := exists_append_of_dropEnd? ['\r'] text
  rw [whole]
  exact List.mem_append_left rest member

theorem not_mem_of_mem_lines {text line : Text} (member : line ∈ lines text) :
    '\n' ∉ line := by
  have closes : ∀ {pieces : List Text}, (∀ piece ∈ pieces, '\n' ∉ piece) →
      ∀ line ∈ lines.close pieces, '\n' ∉ line := by
    intro pieces noFeed
    fun_induction lines.close pieces with
    | case1 => simp
    | case2 last empty => simp
    | case3 last _ => exact noFeed
    | case4 first next later inductionHypothesis =>
        obtain ⟨firstFree, laterFree⟩ := List.forall_mem_cons.mp noFeed
        have droppedFree : '\n' ∉ dropCarriageReturn first := fun feed =>
          firstFree (mem_of_mem_dropCarriageReturn feed)
        exact List.forall_mem_cons.mpr
          ⟨droppedFree, inductionHypothesis laterFree⟩
  exact closes (fun piece => not_mem_of_mem_splitOn) line member

theorem lines_of_not_mem
    {text : Text} (nonempty : text ≠ []) (noFeed : '\n' ∉ text) :
    lines text = [text] := by
  rw [lines, splitOn_of_not_mem noFeed, lines.close,
    if_neg (by simpa using nonempty)]

theorem dropCarriageReturn_concat (text : Text) :
    dropCarriageReturn (text ++ ['\r']) = text := by
  rw [dropCarriageReturn, dropEnd?_append]
  rfl

theorem dropCarriageReturn_of_not_ending
    {text : Text} (ending : ¬ endsWith '\r' text) :
    dropCarriageReturn text = text := by
  rw [dropCarriageReturn]
  cases dropped : dropEnd? ['\r'] text with
  | none => rfl
  | some before =>
      rw [eq_append_of_dropEnd? dropped] at ending
      simp [endsWith] at ending

theorem lines_close_append
    (pieces : List Text) {more : List Text} (nonempty : more ≠ []) :
    lines.close (pieces ++ more) =
      pieces.map dropCarriageReturn ++ lines.close more := by
  induction pieces with
  | nil => rfl
  | cons piece pieces inductionHypothesis =>
      obtain ⟨next, later, isLater⟩ :=
        List.exists_cons_of_ne_nil
          (List.append_ne_nil_of_right_ne_nil pieces nonempty)
      rw [List.cons_append, isLater, lines.close, ← isLater,
        inductionHypothesis]
      rfl

/-- A line feed ends a line, whatever stands around it. -/
theorem lines_append_feed (before after : Text) :
    lines (before ++ '\n' :: after) =
      (splitOn '\n' before).map dropCarriageReturn ++ lines after := by
  rw [lines, splitOn_append_cons,
    lines_close_append _ (splitOn_ne_nil '\n' after)]
  rfl

theorem lines_cons_feed {line : Text} (noFeed : '\n' ∉ line) (after : Text) :
    lines (line ++ '\n' :: after) = dropCarriageReturn line :: lines after := by
  rw [lines_append_feed, splitOn_of_not_mem noFeed]
  rfl

/-- Lines that are ended are not changed by what follows them. -/
theorem lines_append
    {before : Text} (starts : before = [] ∨ endsWith '\n' before)
    (after : Text) :
    lines (before ++ after) = lines before ++ lines after := by
  rcases starts with rfl | ends
  · rfl
  · obtain ⟨front, rfl⟩ := List.getLast?_eq_some_iff.mp (beq_iff_eq.mp ends)
    rw [List.append_assoc, List.singleton_append, lines_append_feed,
      lines_append_feed]
    simp [lines, splitOn, segments, lines.close]

/-! ## Names -/

theorem isNameChar_of_isNameStart
    {character : Char} (starts : isNameStart character) :
    isNameChar character := by
  simp only [isNameStart, isNameChar, Bool.or_eq_true] at starts ⊢
  rcases starts with letter | underscore
  · exact .inl (.inl letter)
  · exact .inr underscore

theorem ne_of_isNameChar
    {character different : Char} (named : isNameChar character)
    (other : ¬ isNameChar different) :
    character ≠ different := by
  rintro rfl
  exact other named

theorem not_isBlank_of_isNameChar
    {character : Char} (named : isNameChar character) :
    ¬ isBlank character := by
  simp only [isNameChar, isLetter, isDigit, isBlank, Bool.or_eq_true,
    Bool.and_eq_true, decide_eq_true_eq, beq_iff_eq] at named ⊢
  rcases named with (letter | digit) | rfl
  · omega
  · omega
  · decide

section Names

variable {name : Text} (named : isName name)

include named

theorem exists_cons_of_isName :
    ∃ first rest, name = first :: rest ∧ isNameStart first ∧
      ∀ character ∈ rest, isNameChar character := by
  cases name with
  | nil => cases named
  | cons first rest =>
      obtain ⟨starts, goesOn⟩ := Bool.and_eq_true_iff.mp named
      exact ⟨first, rest, rfl, starts, List.all_eq_true.mp goesOn⟩

theorem isNameChar_of_mem_name : ∀ character ∈ name, isNameChar character := by
  obtain ⟨first, rest, rfl, starts, goesOn⟩ := exists_cons_of_isName named
  intro character member
  rcases List.mem_cons.mp member with rfl | later
  · exact isNameChar_of_isNameStart starts
  · exact goesOn character later

theorem not_mem_name {character : Char} (other : ¬ isNameChar character) :
    character ∉ name :=
  fun member => other (isNameChar_of_mem_name named character member)

theorem name_ne_nil : name ≠ [] := by
  obtain ⟨first, rest, rfl, _⟩ := exists_cons_of_isName named
  exact List.cons_ne_nil first rest

theorem trim_name : trim name = name := by
  obtain ⟨first, rest, rfl, starts, _⟩ := exists_cons_of_isName named
  apply trim_of_tight
  · have notBlank :=
      not_isBlank_of_isNameChar (isNameChar_of_isNameStart starts)
    exact trimStart_cons_of_not_blank notBlank rest
  · intro character isLast
    have member := List.mem_of_getLast? isLast
    exact not_isBlank_of_isNameChar
      (isNameChar_of_mem_name named character member)

theorem spanName_append
    {character : Char} (other : ¬ isNameChar character) (rest : Text) :
    spanName (name ++ character :: rest) = (name, character :: rest) := by
  obtain ⟨first, later, rfl, starts, goesOn⟩ := exists_cons_of_isName named
  rw [List.cons_append, spanName, if_pos starts,
    List.takeWhile_append_of_pos goesOn, List.dropWhile_append_of_pos goesOn,
    List.takeWhile_cons_of_neg other, List.dropWhile_cons_of_neg other,
    List.append_nil]

end Names

/-- A text starts with the name it is cut after. -/
theorem spanName_whole (text : Text) :
    text = (spanName text).1 ++ (spanName text).2 := by
  cases text with
  | nil => rfl
  | cons first rest =>
      rw [spanName]
      split
      · rw [List.cons_append, List.takeWhile_append_dropWhile]
      · rfl

theorem isName_spanName {text : Text} (nonempty : (spanName text).1 ≠ []) :
    isName (spanName text).1 := by
  cases text with
  | nil => exact absurd rfl nonempty
  | cons first rest =>
      rw [spanName] at nonempty ⊢
      split
      · next starts =>
          exact Bool.and_eq_true_iff.mpr ⟨starts, List.all_takeWhile⟩
      · next other =>
          rw [if_neg other] at nonempty
          exact absurd rfl nonempty

section Words

variable {word : Text} (isWord : ∀ character ∈ word, isNameChar character)

include isWord

/-- Where a text starts with a run of name characters and with a word, the word
is a part of the run. -/
theorem exists_of_dropStart?_run
    {run rest after : Text} {character : Char} (other : ¬ isNameChar character)
    (dropped : dropStart? word (run ++ character :: rest) = some after) :
    ∃ tail, run = word ++ tail ∧ after = tail ++ character :: rest := by
  have whole := eq_append_of_dropStart? dropped
  rcases List.append_eq_append_iff.mp whole with ⟨more, isMore, isRest⟩ | found
  · cases more with
    | nil =>
        refine ⟨[], ?_, isRest.symm⟩
        rw [isMore, List.append_nil, List.append_nil]
    | cons first more =>
        have same : character = first := List.head_eq_of_cons_eq isRest
        have member : character ∈ word := by
          rw [isMore, same]
          exact List.mem_append_right _ List.mem_cons_self
        exact absurd (isWord character member) other
  · exact found

theorem afterWord?_run
    {run : Text} (isRun : ∀ character ∈ run, isNameChar character)
    {character : Char}
    (other : ¬ isNameChar character) (notBlank : ¬ isBlank character)
    (rest : Text) :
    afterWord? word (run ++ character :: rest) = none := by
  rw [afterWord?, Option.filter_eq_none_iff]
  intro after dropped
  obtain ⟨tail, isTail, rfl⟩ := exists_of_dropStart?_run isWord other dropped
  cases tail with
  | nil => simpa [startsBlank] using notBlank
  | cons first more =>
      have member : first ∈ run := by
        rw [isTail]
        exact List.mem_append_right _ List.mem_cons_self
      have firstNotBlank := not_isBlank_of_isNameChar (isRun first member)
      simpa [startsBlank] using firstNotBlank

end Words

/-- Two runs of name characters that are followed by something else. -/
theorem run_unique
    {left right leftRest rightRest : Text} {leftNext rightNext : Char}
    (leftRun : ∀ character ∈ left, isNameChar character)
    (leftOther : ¬ isNameChar leftNext)
    (rightRun : ∀ character ∈ right, isNameChar character)
    (rightOther : ¬ isNameChar rightNext)
    (same : left ++ leftNext :: leftRest = right ++ rightNext :: rightRest) :
    left = right ∧ leftNext = rightNext := by
  have dropped := congrArg (List.dropWhile isNameChar) same
  rw [List.dropWhile_append_of_pos leftRun,
    List.dropWhile_append_of_pos rightRun, List.dropWhile_cons_of_neg leftOther,
    List.dropWhile_cons_of_neg rightOther] at dropped
  rw [dropped] at same
  exact ⟨List.append_cancel_right same, List.head_eq_of_cons_eq dropped⟩

end Text
end LineScript
