import LineScript.Expression
import LineScript.Keyword

/-!
Cutting a text never makes its pieces longer than the text, and trimming it
twice is trimming it once.
-/

namespace LineScript

theorem exists_ok_of_bind
    {ε α β : Type} {first : Except ε α} {next : α → Except ε β} {value : β}
    (succeeds : first >>= next = .ok value) :
    ∃ found, first = .ok found ∧ next found = .ok value := by
  cases first with
  | error fault => cases succeeds
  | ok found => exact ⟨found, rfl, succeeds⟩

theorem exists_ok_of_map
    {ε α β : Type} {first : Except ε α} {change : α → β} {value : β}
    (succeeds : first.map change = .ok value) :
    ∃ found, first = .ok found ∧ change found = value := by
  cases first with
  | error fault => cases succeeds
  | ok found => exact ⟨found, rfl, Except.ok.inj succeeds⟩

theorem exists_ok_of_mapM
    {ε α β : Type} {read : α → Except ε β} {sources : List α} {values : List β}
    {source : α}
    (succeeds : sources.mapM read = .ok values) (member : source ∈ sources) :
    ∃ value, read source = .ok value := by
  induction sources generalizing values with
  | nil => cases member
  | cons first others inductionHypothesis =>
      rw [List.mapM_cons] at succeeds
      obtain ⟨value, readsFirst, later⟩ := exists_ok_of_bind succeeds
      obtain ⟨otherValues, readsOthers, _⟩ := exists_ok_of_bind later
      rcases List.mem_cons.mp member with rfl | isOther
      · exact ⟨value, readsFirst⟩
      · exact inductionHypothesis readsOthers isOther

namespace Text

theorem length_of_dropEnd?
    {ending text rest : Text} (found : dropEnd? ending text = some rest) :
    text.length = ending.length + rest.length := by
  unfold dropEnd? at found
  obtain ⟨reversed, dropped, rfl⟩ := Option.map_eq_some_iff.mp found
  have lengths := length_of_dropStart? dropped
  simpa using lengths

theorem length_of_afterWord?
    {word text rest : Text} (found : afterWord? word text = some rest) :
    text.length = word.length + rest.length :=
  length_of_dropStart? (Option.filter_eq_some_iff.mp found).1

theorem length_of_mem_segmentsTopLevel
    (separator : Char) (nesting : Nesting) (text : Text) :
    (segmentsTopLevel separator nesting text).1.length ≤ text.length ∧
      ∀ piece ∈ (segmentsTopLevel separator nesting text).2,
        piece.length ≤ text.length := by
  induction text generalizing nesting with
  | nil => simp [segmentsTopLevel]
  | cons character rest inductionHypothesis =>
      obtain ⟨firstBound, otherBound⟩ :=
        inductionHypothesis (nesting.next character)
      simp only [segmentsTopLevel, List.length_cons]
      split
      · refine ⟨Nat.zero_le _, fun piece member => ?_⟩
        rcases List.mem_cons.mp member with rfl | later
        · exact Nat.le_succ_of_le firstBound
        · exact Nat.le_succ_of_le (otherBound piece later)
      · refine ⟨Nat.succ_le_succ firstBound, fun piece member => ?_⟩
        exact Nat.le_succ_of_le (otherBound piece member)

theorem count_segmentsTopLevel_le
    (separator : Char) (nesting : Nesting) (text : Text) :
    (segmentsTopLevel separator nesting text).2.length ≤ text.length := by
  induction text generalizing nesting with
  | nil => simp [segmentsTopLevel]
  | cons character rest inductionHypothesis =>
      have laterBound := inductionHypothesis (nesting.next character)
      simp only [segmentsTopLevel, List.length_cons]
      split
      · exact Nat.succ_le_succ laterBound
      · exact Nat.le_succ_of_le laterBound

theorem length_of_mem_splitTopLevel
    {separator : Char} {text piece : Text}
    (member : piece ∈ splitTopLevel separator text) :
    piece.length ≤ text.length := by
  unfold splitTopLevel at member
  split at member
  · cases member
  · obtain ⟨untrimmed, untrimmedMember, rfl⟩ := List.mem_map.mp member
    obtain ⟨firstBound, otherBound⟩ :=
      length_of_mem_segmentsTopLevel separator .start text
    refine Nat.le_trans (length_trim_le untrimmed) ?_
    rcases List.mem_cons.mp untrimmedMember with rfl | later
    · exact firstBound
    · exact otherBound untrimmed later

theorem count_splitTopLevel_le (separator : Char) (text : Text) :
    (splitTopLevel separator text).length ≤ text.length + 1 := by
  unfold splitTopLevel
  split
  · exact Nat.zero_le _
  · simp only [List.length_map, List.length_cons]
    exact Nat.succ_le_succ (count_segmentsTopLevel_le separator .start text)

theorem length_of_callInner?
    {head text inner : Text} (found : callInner? head text = some inner) :
    text.length = head.length + inner.length + 2 := by
  unfold callInner? at found
  split at found
  · next rest dropped =>
      split at found
      · next bracket within closed =>
          cases found
          have whole := length_of_dropStart? dropped
          have parts := length_of_closeParenFrom closed
          simp only [List.length_cons, List.length_nil] at whole parts
          omega
      · cases found
  · cases found

theorem length_of_splitCall?
    {text name : Text} {arguments : List Text}
    (found : splitCall? text = some (name, arguments)) :
    ∀ argument ∈ arguments, argument.length < text.length := by
  unfold splitCall? at found
  dsimp only at found
  split at found
  · cases found
  · obtain ⟨inner, isInner, same⟩ := Option.map_eq_some_iff.mp found
    cases same
    intro argument member
    have whole := length_of_callInner? isInner
    have part := length_of_mem_splitTopLevel member
    omega

theorem length_of_cutAssignmentFrom
    {previous : Option Char} {nesting : Nesting} {text before after : Text}
    (found : cutAssignmentFrom previous nesting text = some (before, after)) :
    text.length = before.length + 1 + after.length := by
  induction text generalizing previous nesting before with
  | nil => simp [cutAssignmentFrom] at found
  | cons character rest inductionHypothesis =>
      simp only [cutAssignmentFrom] at found
      split at found
      · simp only [Option.some.injEq, Prod.mk.injEq] at found
        obtain ⟨rfl, rfl⟩ := found
        simp; omega
      · simp only [Option.map_eq_some_iff, Prod.exists, Prod.mk.injEq] at found
        obtain ⟨inner, outer, cutRest, rfl, rfl⟩ := found
        have lengths := inductionHypothesis cutRest
        simp only [List.length_cons]
        omega

/-- The text does not end with a blank. -/
def Tight (text : Text) : Prop :=
  ∀ character ∈ text.getLast?, ¬ isBlank character

theorem Tight.trimEnd_eq {text : Text} (tight : Tight text) :
    trimEnd text = text := by
  unfold trimEnd
  cases reversed : text.reverse with
  | nil =>
      have empty : text = [] := List.reverse_eq_nil_iff.mp reversed
      simp [empty]
  | cons last before =>
      have isLast : text.getLast? = some last := by
        rw [← List.head?_reverse, reversed]
        rfl
      have notBlank : ¬ isBlank last := tight last isLast
      rw [List.dropWhile_cons_of_neg notBlank, ← reversed, List.reverse_reverse]

theorem tight_trimEnd (text : Text) : Tight (trimEnd text) := by
  intro character isLast
  unfold trimEnd at isLast
  rw [List.getLast?_reverse] at isLast
  have refused := List.head?_dropWhile_not isBlank text.reverse
  rw [Option.mem_def.mp isLast] at refused
  simpa using refused

theorem tight_trim (text : Text) : Tight (trim text) :=
  tight_trimEnd (trimStart text)

theorem Tight.of_suffix
    {text ending : Text} (tight : Tight text) (suffix : ending <:+ text) :
    Tight ending := by
  obtain ⟨before, rfl⟩ := suffix
  intro character isLast
  apply tight character
  cases ending with
  | nil => cases isLast
  | cons first rest =>
      rw [List.getLast?_append, Option.mem_def.mp isLast]
      rfl

theorem Tight.trim_eq {text : Text} (tight : Tight text) :
    trim text = trimStart text :=
  (tight.of_suffix (List.dropWhile_suffix isBlank)).trimEnd_eq

theorem trimStart_trim (text : Text) : trimStart (trim text) = trim text := by
  unfold trim
  cases trimmed : trimEnd (trimStart text) with
  | nil => rfl
  | cons first rest =>
      have before : trimEnd (trimStart text) <+: trimStart text := by
        have shorter :=
          List.dropWhile_suffix (l := (trimStart text).reverse) isBlank
        simpa [trimEnd] using List.reverse_prefix.mpr shorter
      have sameHead : (trimStart text).head? = some first := by
        obtain ⟨after, whole⟩ := before
        rw [← whole, trimmed]
        rfl
      have refused := List.head?_dropWhile_not isBlank text
      rw [show text.dropWhile isBlank = trimStart text from rfl,
        sameHead] at refused
      have notBlank : ¬ isBlank first := by simpa using refused
      exact List.dropWhile_cons_of_neg notBlank

theorem trim_trim (text : Text) : trim (trim text) = trim text := by
  rw [(tight_trim text).trim_eq, trimStart_trim]

/-- The parts of a conditional have no blanks around them. -/
theorem trim_of_splitConditional?
    {text condition yes no : Text}
    (found : splitConditional? text = some (condition, yes, no)) :
    trim condition = condition ∧ trim yes = yes ∧ trim no = no := by
  unfold splitConditional? at found
  split at found
  · cases found
  · split at found
    · cases found
    · cases found
      exact ⟨trim_trim _, trim_trim _, trim_trim _⟩

theorem eq_append_of_dropStart?
    {start text rest : Text} (found : dropStart? start text = some rest) :
    text = start ++ rest := by
  induction start generalizing text with
  | nil =>
      simp only [dropStart?, Option.some.injEq] at found
      exact found
  | cons expected start inductionHypothesis =>
      cases text with
      | nil => simp [dropStart?] at found
      | cons character text =>
          simp only [dropStart?] at found
          split at found
          · next same =>
              rw [same, List.cons_append, ← inductionHypothesis found]
          · cases found

end Text

namespace Expression

open Text

theorem trim_of_negated?
    {source operand : Text} (found : negated? (trim source) = some operand) :
    trim operand = trimStart operand := by
  refine ((tight_trim source).of_suffix ?_).trim_eq
  unfold negated? at found
  split at found
  · next rest filtered =>
      cases found
      have dropped := (Option.filter_eq_some_iff.mp filtered).1
      exact ⟨_, (eq_append_of_dropStart? dropped).symm⟩
  · split at found
    · cases found
    · next rest _ spelled =>
        cases found
        rw [spelled]
        exact List.suffix_cons _ _
    · cases found

end Expression
end LineScript
