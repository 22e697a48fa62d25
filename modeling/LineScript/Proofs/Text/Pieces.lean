import LineScript.Proofs.Text.Scan

/-!
Pieces of a text at its top level.

A text is cut at every separator that stands at its top level and nowhere else,
whatever the separator is.  The pieces of a list can be trimmed and joined again
with a comma and a blank: the list is cut into the same pieces, and a bracket
that closed after it still does.
-/

namespace LineScript

namespace Nesting

def after (nesting : Nesting) (text : Text) : Nesting :=
  text.foldl next nesting

theorem after_cons (nesting : Nesting) (character : Char) (rest : Text) :
    nesting.after (character :: rest) = (nesting.next character).after rest :=
  rfl

theorem after_append (nesting : Nesting) (left right : Text) :
    nesting.after (left ++ right) = (nesting.after left).after right :=
  List.foldl_append

end Nesting

namespace Text

/-- The character stands at the top level somewhere in the text, for a scan that
has reached `nesting`. -/
def ExposedFrom (nesting : Nesting) (character : Char) (text : Text) : Prop :=
  ∃ before rest, text = before ++ character :: rest ∧
    (nesting.after before).exposes character

section Exposed

variable {nesting : Nesting} {character : Char}

theorem not_exposedFrom_nil : ¬ ExposedFrom nesting character [] := by
  rintro ⟨before, rest, nothing, _⟩
  exact List.append_ne_nil_of_right_ne_nil before
    (List.cons_ne_nil _ _) nothing.symm

theorem exposedFrom_cons_iff {first : Char} {rest : Text} :
    ExposedFrom nesting character (first :: rest) ↔
      (nesting.exposes character ∧ first = character) ∨
        ExposedFrom (nesting.next first) character rest := by
  constructor
  · rintro ⟨before, after, whole, exposed⟩
    cases before with
    | nil =>
        cases whole
        exact .inl ⟨exposed, rfl⟩
    | cons head before =>
        cases whole
        exact .inr ⟨before, after, rfl, exposed⟩
  · rintro (⟨exposed, rfl⟩ | ⟨before, after, rfl, exposed⟩)
    · exact ⟨[], rest, rfl, exposed⟩
    · exact ⟨first :: before, after, rfl, exposed⟩

end Exposed

/-- All pieces of a text between the characters at its top level, blanks
included. -/
def topLevelPieces (separator : Char) (nesting : Nesting) (text : Text) :
    List Text :=
  (segmentsTopLevel separator nesting text).1 ::
    (segmentsTopLevel separator nesting text).2

/-- The pieces are those between the separators at the top level of the text: no
piece holds one, and one stands behind every piece but the last.  The scan of
the first piece starts at `nesting`, that of every other one anew. -/
inductive Cuts (separator : Char) : Nesting → Text → List Text → Prop
  | last {nesting : Nesting} {text : Text}
      (none : ¬ ExposedFrom nesting separator text) :
      Cuts separator nesting text [text]
  | more {nesting : Nesting} {piece rest : Text} {pieces : List Text}
      (none : ¬ ExposedFrom nesting separator piece)
      (exposed : (nesting.after piece).exposes separator)
      (later : Cuts separator .start rest pieces) :
      Cuts separator nesting (piece ++ separator :: rest) (piece :: pieces)

section Pieces

variable {separator : Char} {nesting : Nesting}

theorem topLevelPieces_cons_of_exposes
    (exposed : nesting.exposes separator) (rest : Text) :
    topLevelPieces separator nesting (separator :: rest) =
      [] :: topLevelPieces separator .start rest := by
  simp [topLevelPieces, segmentsTopLevel, exposed,
    Nesting.next_start_of_exposes exposed]

theorem topLevelPieces_cons_of_not
    {first : Char} (passed : ¬ (nesting.exposes separator ∧ first = separator))
    (rest : Text) :
    topLevelPieces separator nesting (first :: rest) =
      (topLevelPieces separator (nesting.next first) rest).modifyHead
        (first :: ·) := by
  have goesOn : ¬ (nesting.exposes first && first == separator) := by
    intro both
    obtain ⟨exposed, same⟩ := Bool.and_eq_true_iff.mp both
    have isSeparator : first = separator := beq_iff_eq.mp same
    rw [isSeparator] at exposed
    exact passed ⟨exposed, isSeparator⟩
  simp [topLevelPieces, segmentsTopLevel, goesOn]

theorem Cuts.cons
    {first : Char} (passed : ¬ (nesting.exposes separator ∧ first = separator))
    {text : Text} {pieces : List Text}
    (cuts : Cuts separator (nesting.next first) text pieces) :
    Cuts separator nesting (first :: text)
      (pieces.modifyHead (first :: ·)) := by
  have none :
      ∀ {piece : Text}, ¬ ExposedFrom (nesting.next first) separator piece →
      ¬ ExposedFrom nesting separator (first :: piece) := by
    intro piece noneLater exposed
    rcases exposedFrom_cons_iff.mp exposed with here | later
    · exact passed here
    · exact noneLater later
  cases cuts with
  | last noneText => exact .last (none noneText)
  | more nonePiece exposed later => exact .more (none nonePiece) exposed later

/-- The pieces at the top level cut the text at its exposed separators. -/
theorem cuts_topLevelPieces
    (separator : Char) (nesting : Nesting) (text : Text) :
    Cuts separator nesting text (topLevelPieces separator nesting text) := by
  induction text generalizing nesting with
  | nil => exact .last not_exposedFrom_nil
  | cons first rest inductionHypothesis =>
      by_cases stops : nesting.exposes separator ∧ first = separator
      · obtain ⟨exposed, rfl⟩ := stops
        rw [topLevelPieces_cons_of_exposes exposed]
        exact .more not_exposedFrom_nil exposed (inductionHypothesis .start)
      · rw [topLevelPieces_cons_of_not stops]
        exact (inductionHypothesis (nesting.next first)).cons stops

variable {text : Text} {pieces : List Text}

theorem Cuts.ne_nil (cuts : Cuts separator nesting text pieces) :
    pieces ≠ [] := by
  cases cuts with
  | last _ => exact List.cons_ne_nil _ _
  | more _ _ _ => exact List.cons_ne_nil _ _

theorem Cuts.exists_cons (cuts : Cuts separator nesting text pieces) :
    ∃ first others, pieces = first :: others := by
  cases cuts with
  | last _ => exact ⟨_, _, rfl⟩
  | more _ _ _ => exact ⟨_, _, rfl⟩

theorem Cuts.eq_of_singleton
    {piece : Text} (cuts : Cuts separator nesting text [piece]) :
    piece = text := by
  cases cuts with
  | last _ => rfl
  | more _ _ later => exact absurd rfl later.ne_nil

theorem Cuts.mem_text
    {piece : Text} {character : Char}
    (cuts : Cuts separator nesting text pieces)
    (isPiece : piece ∈ pieces) (member : character ∈ piece) :
    character ∈ text := by
  induction cuts with
  | last _ =>
      rw [List.mem_singleton.mp isPiece] at member
      exact member
  | @more nesting first rest pieces _ _ _ inductionHypothesis =>
      rcases List.mem_cons.mp isPiece with rfl | isLater
      · exact List.mem_append_left _ member
      · have inRest := inductionHypothesis isLater
        exact List.mem_append_right first (List.mem_cons_of_mem _ inRest)

theorem Cuts.forall_mem_text
    (cuts : Cuts separator nesting text pieces) (allowed : Char → Prop)
    (separatorAllowed : allowed separator)
    (piecesAllowed : ∀ piece ∈ pieces, ∀ character ∈ piece, allowed character) :
    ∀ character ∈ text, allowed character := by
  induction cuts with
  | last _ => exact piecesAllowed _ List.mem_cons_self
  | more _ _ _ inductionHypothesis =>
      obtain ⟨pieceAllowed, laterAllowed⟩ :=
        List.forall_mem_cons.mp piecesAllowed
      have restAllowed := List.forall_mem_cons.mpr
        ⟨separatorAllowed, inductionHypothesis laterAllowed⟩
      exact List.forall_mem_append.mpr ⟨pieceAllowed, restAllowed⟩

theorem topLevelPieces_of_not_exposedFrom
    (none : ¬ ExposedFrom nesting separator text) :
    topLevelPieces separator nesting text = [text] := by
  induction text generalizing nesting with
  | nil => rfl
  | cons first rest inductionHypothesis =>
      rw [exposedFrom_cons_iff, not_or] at none
      rw [topLevelPieces_cons_of_not none.1, inductionHypothesis none.2]
      rfl

theorem topLevelPieces_append
    {piece : Text} (none : ¬ ExposedFrom nesting separator piece)
    (exposed : (nesting.after piece).exposes separator) (rest : Text) :
    topLevelPieces separator nesting (piece ++ separator :: rest) =
      piece :: topLevelPieces separator .start rest := by
  induction piece generalizing nesting with
  | nil => exact topLevelPieces_cons_of_exposes exposed rest
  | cons first piece inductionHypothesis =>
      rw [exposedFrom_cons_iff, not_or] at none
      rw [List.cons_append, topLevelPieces_cons_of_not none.1,
        inductionHypothesis none.2 exposed]
      rfl

/-- A text has no other pieces than those it is cut into. -/
theorem Cuts.topLevelPieces_eq (cuts : Cuts separator nesting text pieces) :
    topLevelPieces separator nesting text = pieces := by
  induction cuts with
  | last none => exact topLevelPieces_of_not_exposedFrom none
  | more none exposed _ inductionHypothesis =>
      rw [topLevelPieces_append none exposed, inductionHypothesis]

end Pieces

end Text

namespace Separator

open Text

variable {separator : Separator} {nesting reached : Nesting} {text : Text}

theorem step_eq_some_iff {character : Char} :
    separator.scan.step nesting character = some reached ↔
      ¬ (nesting.exposes separator.character ∧
        character = separator.character) ∧
        nesting.next character = reached := by
  have stops :
      (nesting.exposes character && character == separator.character) = true ↔
      nesting.exposes separator.character ∧
        character = separator.character := by
    rw [Bool.and_eq_true, beq_iff_eq]
    constructor
    · rintro ⟨exposed, rfl⟩
      exact ⟨exposed, rfl⟩
    · rintro ⟨exposed, rfl⟩
      exact ⟨exposed, rfl⟩
  simp only [scan]
  by_cases here : nesting.exposes separator.character ∧
    character = separator.character
  · simp [here]
  · rw [if_neg (mt stops.mp here), Option.some.injEq]
    exact ⟨fun same => ⟨here, same⟩, fun both => both.2⟩

/-- The scan reads over a text just if the separator nowhere stands at its top
level. -/
theorem run_eq_some_iff :
    separator.scan.run nesting text = some reached ↔
      ¬ ExposedFrom nesting separator.character text ∧
        nesting.after text = reached := by
  induction text generalizing nesting with
  | nil =>
      rw [Scan.run_nil, Option.some.injEq]
      exact ⟨fun same => ⟨not_exposedFrom_nil, same⟩, fun both => both.2⟩
  | cons first rest inductionHypothesis =>
      rw [Scan.run_cons, Option.bind_eq_some_iff, exposedFrom_cons_iff, not_or,
        Nesting.after_cons]
      constructor
      · rintro ⟨middle, stepped, read⟩
        obtain ⟨notHere, rfl⟩ := step_eq_some_iff.mp stepped
        obtain ⟨notLater, ends⟩ := inductionHypothesis.mp read
        exact ⟨⟨notHere, notLater⟩, ends⟩
      · rintro ⟨⟨notHere, notLater⟩, ends⟩
        exact ⟨nesting.next first, step_eq_some_iff.mpr ⟨notHere, rfl⟩,
          inductionHypothesis.mpr ⟨notLater, ends⟩⟩

/-- Before a separator that is cut at, the scan has read one piece and stands
anew. -/
theorem run_eq_start_iff :
    separator.scan.run nesting text = some .start ↔
      ¬ ExposedFrom nesting separator.character text ∧
        (nesting.after text).exposes separator.character := by
  rw [run_eq_some_iff]
  constructor
  · rintro ⟨none, ends⟩
    rw [ends]
    exact ⟨none, Nesting.exposes_start separator.plain⟩
  · rintro ⟨none, exposed⟩
    exact ⟨none, Nesting.eq_start_of_exposes exposed⟩

theorem cuts_last (separator : Separator)
    (read : separator.scan.run nesting text = some reached) :
    Cuts separator.character nesting text [text] :=
  .last (run_eq_some_iff.mp read).1

theorem cuts_more (separator : Separator) {piece rest : Text}
    {pieces : List Text} (read : separator.scan.run nesting piece = some .start)
    (later : Cuts separator.character .start rest pieces) :
    Cuts separator.character nesting (piece ++ separator.character :: rest)
      (piece :: pieces) :=
  .more (run_eq_start_iff.mp read).1 (run_eq_start_iff.mp read).2 later

theorem pieces_of_run (read : separator.scan.run nesting text = some reached) :
    topLevelPieces separator.character nesting text = [text] :=
  (separator.cuts_last read).topLevelPieces_eq

theorem pieces_append
    {piece : Text} (read : separator.scan.run nesting piece = some .start)
    (rest : Text) :
    topLevelPieces separator.character nesting
      (piece ++ separator.character :: rest) =
      piece :: topLevelPieces separator.character .start rest :=
  (separator.cuts_more read (cuts_topLevelPieces _ _ rest)).topLevelPieces_eq

end Separator

/-! ## Lists with commas -/

namespace Text

def commaList (texts : List Text) : Text :=
  [',', ' '].intercalate texts

@[simp]
theorem commaList_singleton (text : Text) : commaList [text] = text :=
  List.intercalate_singleton

theorem commaList_cons
    (first : Text) {others : List Text} (nonempty : others ≠ []) :
    commaList (first :: others) = first ++ ',' :: ' ' :: commaList others := by
  obtain ⟨second, later, rfl⟩ := List.exists_cons_of_ne_nil nonempty
  rw [commaList, List.intercalate_cons_cons, List.append_assoc]
  rfl

theorem exists_commaList_cons (first : Text) (others : List Text) :
    ∃ rest, commaList (first :: others) = first ++ rest := by
  by_cases single : others = []
  · refine ⟨[], ?_⟩
    rw [single, commaList_singleton, List.append_nil]
  · exact ⟨_, commaList_cons first single⟩

theorem not_mem_commaList
    {character : Char} (notComma : character ≠ ',') (notSpace : character ≠ ' ')
    {texts : List Text} (absent : ∀ text ∈ texts, character ∉ text) :
    character ∉ commaList texts := by
  induction texts with
  | nil => exact List.not_mem_nil
  | cons first others inductionHypothesis =>
      simp only [List.forall_mem_cons] at absent
      by_cases single : others = []
      · rw [single, commaList_singleton]
        exact absent.1
      · rw [commaList_cons first single]
        simp only [List.mem_append, List.mem_cons, not_or]
        exact ⟨absent.1, notComma, notSpace, inductionHypothesis absent.2⟩

/-- A list is cut back into its texts, each but the first behind a blank. -/
theorem splitOn_commaList
    {first : Text} {others : List Text}
    (absent : ∀ text ∈ first :: others, ',' ∉ text) :
    splitOn ',' (commaList (first :: others)) =
      first :: others.map (' ' :: ·) := by
  induction others generalizing first with
  | nil =>
      rw [commaList_singleton, List.map_nil]
      exact splitOn_of_not_mem (absent first List.mem_cons_self)
  | cons second later inductionHypothesis =>
      obtain ⟨absentFirst, absentLater⟩ := List.forall_mem_cons.mp absent
      have spaceNotComma : ' ' ≠ ',' := by decide
      rw [commaList_cons first (List.cons_ne_nil _ _),
        splitOn_append absentFirst, splitOn_cons_of_ne spaceNotComma,
        inductionHypothesis absentLater]
      rfl

/-- A list is blank only if it has a single blank element or none. -/
theorem trim_commaList_ne_nil
    {texts : List Text} (nonempty : texts ≠ [])
    (notBlank : ∀ text, texts = [text] → trim text ≠ []) :
    trim (commaList texts) ≠ [] := by
  obtain ⟨first, others, rfl⟩ := List.exists_cons_of_ne_nil nonempty
  by_cases single : others = []
  · rw [single, commaList_singleton]
    exact notBlank first (by rw [single])
  · rw [commaList_cons first single]
    apply List.ne_nil_of_mem (a := ',')
    apply mem_trim_of_not_blank (List.mem_append_right _ List.mem_cons_self)
    decide

end Text

namespace Text.Cuts

open Separator

variable {nesting : Nesting} {text : Text} {pieces : List Text}

theorem map_trim_ne_nil (cuts : Cuts ',' nesting text pieces) :
    pieces.map trim ≠ [] := by
  obtain ⟨first, others, rfl⟩ := cuts.exists_cons
  exact List.cons_ne_nil _ _

/-- Where no literal is open after a list, none is open after its second piece
on. -/
theorem closed_of_more
    {piece rest : Text} (read : comma.scan.run nesting piece = some .start)
    (closed : nesting.quotes.after (piece ++ ',' :: rest) = .outside) :
    Nesting.start.quotes.after rest = .outside := by
  have atComma := Scan.quotes_of_run read
  rw [Quotes.after_append, ← atComma] at closed
  exact closed

/-- The pieces of a list can be trimmed and joined again. -/
theorem exists_commaList
    (cuts : Cuts ',' nesting text pieces) (outside : nesting.quotes = .outside)
    (closed : nesting.quotes.after text = .outside) :
    ∃ spaced, Cuts ',' nesting (commaList (pieces.map trim)) spaced ∧
      spaced.map trim = pieces.map trim := by
  induction cuts with
  | @last nesting text none =>
      have read := comma.run_eq_some_iff.mpr ⟨none, rfl⟩
      have closedThere : (nesting.after text).quotes = .outside := by
        rw [Scan.quotes_of_run read, closed]
      refine ⟨[trim text], ?_, ?_⟩
      · rw [List.map_singleton, commaList_singleton]
        exact comma.cuts_last (Scan.run_trim outside read closedThere)
      · rw [List.map_singleton, List.map_singleton, trim_trim]
  | @more nesting piece rest pieces none exposed later inductionHypothesis =>
      have read := comma.run_eq_start_iff.mpr ⟨none, exposed⟩
      obtain ⟨spaced, spacedCuts, trimmed⟩ :=
        inductionHypothesis rfl (closed_of_more read closed)
      obtain ⟨first, others, rfl⟩ := spacedCuts.exists_cons
      have passed : ¬ (Nesting.start.exposes ',' ∧ ' ' = ',') := by decide
      refine ⟨trim piece :: (' ' :: first) :: others, ?_, ?_⟩
      · rw [List.map_cons, commaList_cons _ later.map_trim_ne_nil]
        exact comma.cuts_more (Scan.run_trim outside read rfl)
          (spacedCuts.cons passed)
      · rw [List.map_cons, trim_trim, List.map_cons, trim_space_cons,
          ← List.map_cons, trimmed, List.map_cons]

/-- A scan that passes over commas does not notice the difference. -/
theorem run_commaList
    {scan : Scan}
    (ignored : ∀ nesting : Nesting,
      nesting.quotes = .outside → scan.step nesting ',' = some nesting)
    (cuts : Cuts ',' nesting text pieces) (outside : nesting.quotes = .outside)
    (closed : nesting.quotes.after text = .outside) {here reached : Nesting}
    (hereOutside : here.quotes = .outside)
    (read : scan.run here text = some reached) :
    scan.run here (commaList (pieces.map trim)) = some reached := by
  induction cuts generalizing here with
  | @last nesting text _ =>
      have same := hereOutside.trans outside.symm
      have closedThere : reached.quotes = .outside := by
        rw [Scan.quotes_of_run read, same, closed]
      rw [List.map_singleton, commaList_singleton]
      exact Scan.run_trim hereOutside read closedThere
  | @more nesting piece rest pieces none exposed later inductionHypothesis =>
      have readPiece := comma.run_eq_start_iff.mpr ⟨none, exposed⟩
      obtain ⟨middle, readMiddle, readLater⟩ := Scan.exists_of_run_append read
      have same := hereOutside.trans outside.symm
      have middleOutside : middle.quotes = .outside := by
        rw [Scan.quotes_of_run readMiddle, same, ← Scan.quotes_of_run readPiece]
        rfl
      rw [Scan.run_cons_of_step (ignored middle middleOutside)] at readLater
      have blank : scan.step middle ' ' = some middle :=
        scan.blank (by decide) middleOutside
      rw [List.map_cons, commaList_cons _ later.map_trim_ne_nil,
        Scan.run_append_of_run
          (Scan.run_trim hereOutside readMiddle middleOutside),
        Scan.run_cons_of_step (ignored middle middleOutside),
          Scan.run_cons_of_step blank]
      exact inductionHypothesis rfl
        (closed_of_more readPiece closed) middleOutside readLater

end Text.Cuts

/-! ## Calls -/

namespace Text

/-- Text that can stand between the round brackets of a call. -/
def Enclosed (inner : Text) : Prop :=
  ∃ reached, roundScan.run ⟨.outside, 1⟩ inner = some reached ∧
    roundScan.step reached ')' = none

theorem Enclosed.closed {inner : Text} (enclosed : Enclosed inner) :
    Quotes.outside.after inner = .outside := by
  obtain ⟨reached, read, stops⟩ := enclosed
  have outside := (roundStep_eq_none_iff.mp stops).2.1
  exact (Scan.quotes_of_run read).symm.trans outside

theorem callInner?_of_enclosed
    (head : Text) {inner : Text} (enclosed : Enclosed inner) :
    callInner? head (head ++ '(' :: (inner ++ [')'])) = some inner := by
  obtain ⟨reached, read, stops⟩ := enclosed
  have opened :
      roundScan.run ⟨.outside, 0⟩ ('(' :: inner) = some reached := read
  have closed :
      closeParen ('(' :: (inner ++ [')'])) = some ('(' :: inner, []) := by
    rw [closeParen, closeParenFrom_eq_stop]
    exact Scan.stop_append opened stops []
  simp only [callInner?, dropStart?_append, closed]

/-- A text is a call exactly if it is the head and enclosed text between
brackets. -/
theorem callInner?_eq_some_iff {head text inner : Text} :
    callInner? head text = some inner ↔
      Enclosed inner ∧ text = head ++ '(' :: (inner ++ [')']) := by
  constructor
  · intro found
    rw [callInner?] at found
    split at found
    · next rest dropped =>
        split at found
        · next bracket within closed =>
            cases found
            rw [closeParen, closeParenFrom_eq_stop] at closed
            obtain ⟨reached, character, whole, read, stops⟩ :=
              Scan.exists_of_stop closed
            obtain ⟨rfl, _⟩ := roundStep_eq_none_iff.mp stops
            cases whole
            exact ⟨⟨reached, read, stops⟩, eq_append_of_dropStart? dropped⟩
        · cases found
    · cases found
  · rintro ⟨enclosed, rfl⟩
    exact callInner?_of_enclosed head enclosed

theorem enclosed_of_callInner?
    {head text inner : Text} (found : callInner? head text = some inner) :
    Enclosed inner :=
  (callInner?_eq_some_iff.mp found).1

/-- Texts that a call can list between its brackets and that are read back as
they are. -/
structure Listable (texts : List Text) : Prop where
  enclosed : Enclosed (commaList texts)
  split : splitTopLevel ',' (commaList texts) = texts

theorem listable_nil : Listable [] where
  enclosed := ⟨⟨.outside, 1⟩, rfl, rfl⟩
  split := rfl

theorem splitTopLevel_of_trim_ne_nil
    {separator : Char} {text : Text} (notBlank : trim text ≠ []) :
    splitTopLevel separator text =
      (topLevelPieces separator .start text).map trim := by
  rw [splitTopLevel, if_neg (by simpa using notBlank)]
  rfl

theorem mem_of_mem_splitTopLevel
    {text piece : Text} {character : Char}
    (isPiece : piece ∈ splitTopLevel ',' text) (member : character ∈ piece) :
    character ∈ text := by
  by_cases blank : trim text = []
  · rw [splitTopLevel, if_pos (by rw [blank]; rfl)] at isPiece
    cases isPiece
  · rw [splitTopLevel_of_trim_ne_nil blank] at isPiece
    obtain ⟨untrimmed, isUntrimmed, rfl⟩ := List.mem_map.mp isPiece
    have cuts := cuts_topLevelPieces ',' .start text
    exact cuts.mem_text isUntrimmed (mem_of_mem_trim member)

/-- The pieces between the commas of enclosed text can be listed again. -/
theorem Enclosed.listable {inner : Text} (enclosed : Enclosed inner) :
    Listable (splitTopLevel ',' inner) := by
  by_cases blank : trim inner = []
  · have nothing : splitTopLevel ',' inner = [] := by
      rw [splitTopLevel, if_pos (by rw [blank]; rfl)]
    rw [nothing]
    exact listable_nil
  · have cuts := cuts_topLevelPieces ',' .start inner
    rw [splitTopLevel_of_trim_ne_nil blank]
    obtain ⟨reached, read, stops⟩ := id enclosed
    constructor
    · refine ⟨reached, ?_, stops⟩
      apply cuts.run_commaList _ rfl enclosed.closed rfl read
      intro nesting outside
      exact roundStep_of_isPlain outside (by decide)
    · obtain ⟨spaced, spacedCuts, trimmed⟩ :=
        cuts.exists_commaList rfl enclosed.closed
      rw [splitTopLevel_of_trim_ne_nil, spacedCuts.topLevelPieces_eq, trimmed]
      apply trim_commaList_ne_nil cuts.map_trim_ne_nil
      intro text single
      obtain ⟨piece, isPiece, rfl⟩ := List.map_eq_singleton_iff.mp single
      rw [isPiece] at cuts
      rw [trim_trim, cuts.eq_of_singleton]
      exact blank

end Text
end LineScript
