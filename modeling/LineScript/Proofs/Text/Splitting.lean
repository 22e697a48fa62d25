import Mathlib.Data.List.Forall2
import LineScript.Proofs.Text.Pieces

/-!
Splitting a text at its top level, and joining the pieces again.

Splitting loses nothing but the blanks around the pieces, whatever the separator
is.  It cuts at every separator that stands at the top level and nowhere else,
and the brackets and literals of one piece do not matter for the next one.
Pieces whose own literals and brackets are closed therefore come back from a
joined text.
-/

namespace LineScript

namespace Nesting

theorem after_blanks
    {nesting : Nesting} (outside : nesting.quotes = .outside) {blanks : Text}
    (allBlank : ∀ character ∈ blanks, Text.isBlank character) :
    nesting.after blanks = nesting := by
  induction blanks with
  | nil => rfl
  | cons first blanks inductionHypothesis =>
      obtain ⟨blank, laterBlank⟩ := List.forall_mem_cons.mp allBlank
      rw [after_cons, next_of_isPlain (isPlain_of_blank blank) outside]
      exact inductionHypothesis laterBlank

end Nesting

namespace Text

/-- The character stands at the top level somewhere in the text. -/
def Exposed (character : Char) (text : Text) : Prop :=
  ExposedFrom .start character text

section Exposed

variable {nesting : Nesting} {character : Char}

instance decidableExposedFrom (character : Char) :
    (nesting : Nesting) → (text : Text) →
    Decidable (ExposedFrom nesting character text)
  | _, [] => isFalse not_exposedFrom_nil
  | nesting, first :: rest =>
      have := decidableExposedFrom character (nesting.next first) rest
      decidable_of_iff _ exposedFrom_cons_iff.symm

instance (character : Char) (text : Text) :
    Decidable (Exposed character text) :=
  inferInstanceAs (Decidable (ExposedFrom .start character text))

/-- What stands at the top level of a part stands there in the whole. -/
theorem ExposedFrom.within
    {front middle : Text}
    (exposed : ExposedFrom (nesting.after front) character middle)
    (back : Text) :
    ExposedFrom nesting character (front ++ middle ++ back) := by
  obtain ⟨before, rest, rfl, atTop⟩ := exposed
  refine ⟨front ++ before, rest ++ back, ?_, ?_⟩
  · simp
  · rw [Nesting.after_append]
    exact atTop

/-- Trimming brings nothing to the top level. -/
theorem Exposed.of_trim
    {text : Text} (exposed : Exposed character (trim text)) :
    Exposed character text := by
  obtain ⟨before, after, whole, blanksBefore, _⟩ := exists_blanks_around text
  have unmoved : Nesting.start.after before = .start :=
    Nesting.after_blanks rfl blanksBefore
  have fromBlanks :
      ExposedFrom (Nesting.start.after before) character (trim text) := by
    rw [unmoved]
    exact exposed
  rw [whole]
  exact fromBlanks.within after

end Exposed

section Pieces

variable {separator : Char} {nesting : Nesting} {text : Text}
    {pieces : List Text}

theorem intercalate_cons_of_ne_nil (piece : Text) (nonempty : pieces ≠ []) :
    [separator].intercalate (piece :: pieces) =
      piece ++ separator :: [separator].intercalate pieces := by
  obtain ⟨second, later, rfl⟩ := List.exists_cons_of_ne_nil nonempty
  rw [List.intercalate_cons_cons, List.append_assoc, List.singleton_append]

/-- The pieces with the separators between them are the text. -/
theorem Cuts.intercalate_eq (cuts : Cuts separator nesting text pieces) :
    [separator].intercalate pieces = text := by
  induction cuts with
  | last _ => exact List.intercalate_singleton
  | more _ _ later inductionHypothesis =>
      rw [intercalate_cons_of_ne_nil _ later.ne_nil, inductionHypothesis]

/-- No separator is left exposed in a piece. -/
theorem Cuts.not_exposed
    (cuts : Cuts separator nesting text pieces) (fresh : nesting = .start) :
    ∀ piece ∈ pieces, ¬ Exposed separator piece := by
  induction cuts with
  | last none =>
      rw [fresh] at none
      exact List.forall_mem_singleton.mpr none
  | more none _ _ inductionHypothesis =>
      rw [fresh] at none
      exact List.forall_mem_cons.mpr ⟨none, inductionHypothesis rfl⟩

theorem Cuts.exposes_after
    (cuts : Cuts separator nesting text pieces) (fresh : nesting = .start) :
    ∀ piece ∈ pieces.dropLast,
      (Nesting.start.after piece).exposes separator := by
  induction cuts with
  | last _ => exact List.forall_mem_nil _
  | more _ exposed later inductionHypothesis =>
      rw [fresh] at exposed
      rw [List.dropLast_cons_of_ne_nil later.ne_nil]
      exact List.forall_mem_cons.mpr ⟨exposed, inductionHypothesis rfl⟩

end Pieces

/-- The text is the piece with blanks around it. -/
def Padded (piece text : Text) : Prop :=
  ∃ before after, (∀ character ∈ before, isBlank character) ∧
    (∀ character ∈ after, isBlank character) ∧ text = before ++ piece ++ after

theorem padded_trim (text : Text) : Padded (trim text) text := by
  obtain ⟨before, after, whole, blanksBefore, blanksAfter⟩ :=
    exists_blanks_around text
  exact ⟨before, after, blanksBefore, blanksAfter, whole⟩

theorem Padded.trim_eq {piece text : Text} (padded : Padded piece text) :
    trim text = trim piece := by
  obtain ⟨before, after, blanksBefore, blanksAfter, rfl⟩ := padded
  rw [trim_append_blanks blanksAfter, trim_append_of_blanks blanksBefore]

/-- All literals of the text are closed, and so are its brackets.  Brackets are
counted together, so that this asks less of a text than that each bracket is
closed by one of its own kind. -/
def Settled (text : Text) : Prop :=
  Nesting.start.after text = .start

instance (text : Text) : Decidable (Settled text) :=
  inferInstanceAs (Decidable (Nesting.start.after text = .start))

theorem map_trim_of_padded
    {pieces spaced : List Text} (padded : List.Forall₂ Padded pieces spaced)
    (trimmed : ∀ piece ∈ pieces, trim piece = piece) :
    spaced.map trim = pieces := by
  induction padded with
  | nil => rfl
  | cons first _ inductionHypothesis =>
      obtain ⟨firstTrimmed, laterTrimmed⟩ := List.forall_mem_cons.mp trimmed
      rw [List.map_cons, first.trim_eq, firstTrimmed,
        inductionHypothesis laterTrimmed]

section Joining

variable {separator : Separator}

theorem run_of_settled
    {text : Text} (settled : Settled text)
    (none : ¬ Exposed separator.character text) :
    separator.scan.run .start text = some .start := by
  exact Separator.run_eq_some_iff.mpr ⟨none, settled⟩

theorem run_padded
    {piece text : Text} (settled : Settled piece)
    (none : ¬ Exposed separator.character piece) (padded : Padded piece text) :
    separator.scan.run .start text = some .start := by
  obtain ⟨before, after, blanksBefore, blanksAfter, rfl⟩ := padded
  rw [List.append_assoc,
    Scan.run_append_of_run (Scan.run_blanks rfl blanksBefore),
    Scan.run_append_of_run (run_of_settled settled none),
    Scan.run_blanks rfl blanksAfter]

theorem run_of_mem_padded
    {pieces spaced : List Text} (padded : List.Forall₂ Padded pieces spaced)
    (sound : ∀ piece ∈ pieces, Settled piece ∧ ¬ Exposed separator.character piece) :
    ∀ text ∈ spaced, separator.scan.run .start text = some .start := by
  induction padded with
  | nil => exact List.forall_mem_nil _
  | cons first _ inductionHypothesis =>
      obtain ⟨⟨settled, none⟩, laterSound⟩ := List.forall_mem_cons.mp sound
      exact List.forall_mem_cons.mpr
        ⟨run_padded settled none first, inductionHypothesis laterSound⟩

/-- Texts that end at the top level are cut apart again where they were
joined. -/
theorem cuts_intercalate
    {spaced : List Text} (nonempty : spaced ≠ [])
    (read : ∀ text ∈ spaced, separator.scan.run .start text = some .start) :
    Cuts separator.character .start
      ([separator.character].intercalate spaced) spaced := by
  induction spaced with
  | nil => exact absurd rfl nonempty
  | cons first others inductionHypothesis =>
      obtain ⟨readFirst, readLater⟩ := List.forall_mem_cons.mp read
      by_cases single : others = []
      · rw [single, List.intercalate_singleton]
        exact separator.cuts_last readFirst
      · rw [intercalate_cons_of_ne_nil first single]
        exact separator.cuts_more readFirst
          (inductionHypothesis single readLater)

/-- A joined text is blank only if it has a single piece, which is blank. -/
theorem trim_intercalate_ne_nil
    {spaced : List Text} (nonempty : spaced ≠ [])
    (notBlank : spaced.map trim ≠ [[]]) :
    trim ([separator.character].intercalate spaced) ≠ [] := by
  obtain ⟨first, others, rfl⟩ := List.exists_cons_of_ne_nil nonempty
  by_cases single : others = []
  · rw [single, List.intercalate_singleton]
    rw [single] at notBlank
    intro blank
    exact notBlank (congrArg List.singleton blank)
  · rw [intercalate_cons_of_ne_nil first single]
    apply List.ne_nil_of_mem (a := separator.character)
    apply mem_trim_of_not_blank _ separator.notBlank
    exact List.mem_append_right first List.mem_cons_self

end Joining

/-- Splitting loses nothing: the pieces of a text that is not blank, with blanks
around them and the separator between them, are the text, where the cuts are
those at the top level.  Joining is undone by splitting: settled pieces are
found again. -/
theorem splitting_inverts_joining (separator : Char) :
    (∀ text, trim text ≠ [] →
      ∃ spaced, List.Forall₂ Padded (splitTopLevel separator text) spaced ∧
        [separator].intercalate spaced = text ∧
        (∀ front ∈ spaced.dropLast,
          (Nesting.start.after front).exposes separator) ∧
        ∀ piece ∈ splitTopLevel separator text, trim piece = piece ∧
          ¬ Exposed separator piece) ∧
      (Nesting.isPlain separator → ¬ isBlank separator →
        ∀ pieces spaced, pieces ≠ [] → pieces ≠ [[]] →
          (∀ piece ∈ pieces, trim piece = piece ∧ Settled piece ∧
            ¬ Exposed separator piece) →
            List.Forall₂ Padded pieces spaced →
              splitTopLevel separator ([separator].intercalate spaced) =
                pieces) := by
  constructor
  · intro text notBlank
    have cuts := cuts_topLevelPieces separator .start text
    rw [splitTopLevel_of_trim_ne_nil notBlank]
    refine ⟨_, ?_, cuts.intercalate_eq, cuts.exposes_after rfl, ?_⟩
    · exact List.forall₂_map_left_iff.mpr
        (List.forall₂_same.mpr fun piece _ => padded_trim piece)
    · intro piece isPiece
      obtain ⟨untrimmed, member, rfl⟩ := List.mem_map.mp isPiece
      exact ⟨trim_trim untrimmed, fun exposed =>
        cuts.not_exposed rfl _ member exposed.of_trim⟩
  · intro plain notBlank pieces spaced nonempty notSingle sound padded
    let joint : Separator := ⟨separator, plain, notBlank⟩
    have trimmed : spaced.map trim = pieces :=
      map_trim_of_padded padded fun piece member => (sound piece member).1
    have spacedNonempty : spaced ≠ [] := by
      rintro rfl
      exact nonempty trimmed.symm
    have notBlankSingle : spaced.map trim ≠ [[]] := by
      rw [trimmed]
      exact notSingle
    have visible : trim ([joint.character].intercalate spaced) ≠ [] :=
      trim_intercalate_ne_nil spacedNonempty notBlankSingle
    have cuts :
        Cuts joint.character .start
          ([joint.character].intercalate spaced) spaced :=
      cuts_intercalate spacedNonempty
        (run_of_mem_padded padded fun piece member => (sound piece member).2)
    have found :
        topLevelPieces separator .start ([separator].intercalate spaced) =
          spaced :=
      cuts.topLevelPieces_eq
    rw [splitTopLevel_of_trim_ne_nil visible, found, trimmed]

/-- The arguments of a call: a call, a string with a separator and a bracket in
it, and nothing. -/
def argumentTexts : List Text :=
  ["f(1, [2])".toList, "\"a, (b\"".toList, []]

def spacedArguments : List Text :=
  ["f(1, [2]) ".toList, "\t\"a, (b\"".toList, [' ']]

/-- A call and a string with a comma in it are two pieces, and arguments joined
with blanks around them come back. -/
theorem splitting_inverts_joining_of_arguments :
    (trim "f(1), \"a, b\" ".toList ≠ [] ∧
      ∃ spaced,
        List.Forall₂ Padded
          (splitTopLevel ',' "f(1), \"a, b\" ".toList) spaced ∧
        [','].intercalate spaced = "f(1), \"a, b\" ".toList ∧
        (∀ front ∈ spaced.dropLast, (Nesting.start.after front).exposes ',') ∧
        ∀ piece ∈ splitTopLevel ',' "f(1), \"a, b\" ".toList,
          trim piece = piece ∧ ¬ Exposed ',' piece) ∧
      splitTopLevel ',' ([','].intercalate spacedArguments) =
        argumentTexts := by
  have sound : ∀ piece ∈ argumentTexts,
      trim piece = piece ∧ Settled piece ∧ ¬ Exposed ',' piece := by
    decide +kernel
  have nothing : ∀ character ∈ ([] : Text), isBlank character :=
    List.forall_mem_nil _
  have space : ∀ character ∈ [' '], isBlank character := List.all_eq_true.mp rfl
  have tab : ∀ character ∈ ['\t'], isBlank character := List.all_eq_true.mp rfl
  have padded : List.Forall₂ Padded argumentTexts spacedArguments := by
    refine .cons ⟨[], [' '], nothing, space, rfl⟩ (.cons ?_ (.cons ?_ .nil))
    · exact ⟨['\t'], [], tab, nothing, rfl⟩
    · exact ⟨[], [' '], nothing, space, rfl⟩
  have visible : trim "f(1), \"a, b\" ".toList ≠ [] := by decide +kernel
  obtain ⟨loses, inverts⟩ := splitting_inverts_joining ','
  exact ⟨⟨visible, loses _ visible⟩,
    inverts (by decide) (by decide) _ _ (by decide) (by decide) sound padded⟩

end Text
end LineScript
