import LineScript.Proofs.Console

/-!
Interpolation as one simultaneous substitution.

The pieces of a template are the names that stand between braces in it, all of
them, and the characters around them.  Interpolation replaces each of these
names by the text of its variable and copies the characters, so that nothing is
read twice.  It fails if one of the names has no value, and then with the
leftmost one.
-/

namespace LineScript
namespace Text

/-- The name stands between braces in the template, directly behind `before`. -/
def NamedHoleAt (template before name : Text) : Prop :=
  isName name ∧ ∃ after, template = before ++ '{' :: (name ++ '}' :: after)

theorem NamedHoleAt.hasNamedHole
    {template before name : Text} (hole : NamedHoleAt template before name) :
    HasNamedHole template name := by
  obtain ⟨named, after, isTemplate⟩ := hole
  exact ⟨named, before, after, isTemplate⟩

def Piece.filled (value : Text → Text) : Piece → Text
  | copied character => [character]
  | hole name => value name

/-- The pieces spell the template, and their holes are the names between braces
in it: each hole is such a name, and each such name is a hole at its place. -/
structure Marks (template : Text) (marked : List Piece) : Prop where
  spells : marked.flatMap Piece.source = template
  named : ∀ name, .hole name ∈ marked → isName name
  complete : ∀ before name, NamedHoleAt template before name →
    ∃ earlier later, marked = earlier ++ .hole name :: later ∧
      earlier.flatMap Piece.source = before

theorem flatMap_source_pieces (template : Text) :
    (pieces template).flatMap Piece.source = template := by
  fun_induction pieces template with
  | case1 => rfl
  | case2 after name rest found inductionHypothesis =>
      obtain ⟨_, isAfter⟩ := eq_append_of_hole? found
      rw [List.flatMap_cons, inductionHypothesis, isAfter]
      simp [Piece.source]
  | case3 after _ inductionHypothesis =>
      rw [List.flatMap_cons, inductionHypothesis]
      rfl
  | case4 character after _ inductionHypothesis =>
      rw [List.flatMap_cons, inductionHypothesis]
      rfl

theorem isName_of_mem_pieces
    {template name : Text} (member : .hole name ∈ pieces template) :
    isName name := by
  fun_induction pieces template with
  | case1 => simp at member
  | case2 after first rest found inductionHypothesis =>
      simp only [List.mem_cons, Piece.hole.injEq] at member
      cases member with
      | inl same =>
          rw [same]
          exact (eq_append_of_hole? found).1
      | inr later => exact inductionHypothesis later
  | case3 after _ inductionHypothesis =>
      exact inductionHypothesis (by simpa using member)
  | case4 character after _ inductionHypothesis =>
      exact inductionHypothesis (by simpa using member)

/-- The pieces that are read mark all holes of the template. -/
theorem marks_pieces (template : Text) : Marks template (pieces template) where
  spells := flatMap_source_pieces template
  named _ member := isName_of_mem_pieces member
  complete := by
    intro before name hole
    obtain ⟨named, after, isTemplate⟩ := hole
    rw [isTemplate]
    exact exists_pieces_named named before after

section Marks

variable {template : Text} {marked : List Piece} (marks : Marks template marked)

include marks

/-- A hole among the pieces stands behind what the pieces before it spell. -/
theorem Marks.namedHoleAt
    {earlier later : List Piece} {name : Text}
    (split : marked = earlier ++ .hole name :: later) :
    NamedHoleAt template (earlier.flatMap Piece.source) name := by
  have member : .hole name ∈ marked := by simp [split]
  refine ⟨marks.named name member, later.flatMap Piece.source, ?_⟩
  rw [← marks.spells, split]
  simp [Piece.source]

/-- Whichever pieces mark the template, its holes are those among them. -/
theorem Marks.hasNamedHole_iff (name : Text) :
    HasNamedHole template name ↔ .hole name ∈ marked := by
  constructor
  · intro hole
    obtain ⟨named, before, after, isTemplate⟩ := hole
    obtain ⟨earlier, later, split, _⟩ :=
      marks.complete before name ⟨named, after, isTemplate⟩
    simp [split]
  · intro member
    obtain ⟨earlier, later, split⟩ := List.append_of_mem member
    exact (marks.namedHoleAt split).hasNamedHole

/-- The holes before a hole are those that stand further to the left. -/
theorem Marks.mem_earlier_iff
    {earlier later : List Piece} {name : Text}
    (split : marked = earlier ++ .hole name :: later) (other : Text) :
    .hole other ∈ earlier ↔
      ∃ before, NamedHoleAt template before other ∧
        before.length < (earlier.flatMap Piece.source).length := by
  constructor
  · intro member
    obtain ⟨front, back, isEarlier⟩ := List.append_of_mem member
    have isMarked :
        marked = front ++ .hole other :: (back ++ .hole name :: later) := by
      simp [split, isEarlier]
    refine ⟨front.flatMap Piece.source, marks.namedHoleAt isMarked, ?_⟩
    simp only [isEarlier, List.flatMap_append, List.flatMap_cons, Piece.source,
      List.length_append, List.length_cons]
    omega
  · intro found
    obtain ⟨before, hole, shorter⟩ := found
    obtain ⟨front, back, isMarked, rfl⟩ := marks.complete before other hole
    rw [isMarked] at split
    rcases List.append_eq_append_iff.mp
      split with ⟨more, isEarlier, isBack⟩ | ⟨more, isFront, _⟩
    · cases more with
      | nil => simp [isEarlier] at shorter
      | cons first more =>
          have same : Piece.hole other = first := List.head_eq_of_cons_eq isBack
          simp [isEarlier, same]
    · simp only [isFront, List.flatMap_append, List.length_append] at shorter
      omega

end Marks

section Filling

variable {find : Text → Option Text}

/-- Where every name has a text, each hole is replaced by its own. -/
theorem fillHoles_of_bound
    {marked : List Piece} {value : Text → Text}
    (bound : ∀ name, .hole name ∈ marked → find name = some (value name)) :
    interpolate.fillHoles find marked =
      .ok (marked.flatMap (Piece.filled value)) := by
  induction marked with
  | nil => simp [interpolate.fillHoles]
  | cons piece later inductionHypothesis =>
      have laterFilled := inductionHypothesis fun name member =>
        bound name (List.mem_cons_of_mem piece member)
      cases piece with
      | copied character =>
          simp [interpolate.fillHoles, laterFilled, Except.map, Piece.filled]
      | hole name =>
          have found := bound name List.mem_cons_self
          simp [interpolate.fillHoles, found, laterFilled, Except.map,
            Piece.filled]

/-- The name is that of the first hole without a text. -/
def FirstUnbound (find : Text → Option Text) (marked : List Piece)
    (name : Text) : Prop :=
  ∃ earlier later, marked = earlier ++ .hole name :: later ∧ find name = none ∧
    ∀ other, .hole other ∈ earlier → find other ≠ none

theorem firstUnbound_cons_of_bound
    {piece : Piece} (bound : ∀ other, piece = .hole other → find other ≠ none)
    {later : List Piece} {name : Text} :
    FirstUnbound find (piece :: later) name ↔ FirstUnbound find later name := by
  constructor
  · intro first
    obtain ⟨earlier, rest, split, unbound, earlierBound⟩ := first
    cases earlier with
    | nil => exact absurd unbound (bound name (List.head_eq_of_cons_eq split))
    | cons head earlier =>
        refine ⟨earlier, rest, (List.cons.inj split).2, unbound,
          fun other member => ?_⟩
        exact earlierBound other (List.mem_cons_of_mem head member)
  · intro first
    obtain ⟨earlier, rest, split, unbound, earlierBound⟩ := first
    refine ⟨piece :: earlier, rest, by simp [split], unbound,
      fun other member => ?_⟩
    cases List.mem_cons.mp member with
    | inl same => exact bound other same.symm
    | inr laterMember => exact earlierBound other laterMember

theorem firstUnbound_cons_of_unbound
    {first : Text} (unbound : find first = none) (later : List Piece)
    {name : Text} :
    FirstUnbound find (.hole first :: later) name ↔ first = name := by
  constructor
  · intro isFirst
    obtain ⟨earlier, rest, split, _, earlierBound⟩ := isFirst
    cases earlier with
    | nil => exact Piece.hole.inj (List.head_eq_of_cons_eq split)
    | cons head earlier =>
        have same : Piece.hole first = head := List.head_eq_of_cons_eq split
        exact absurd unbound (earlierBound first (by simp [same]))
  · intro same
    rw [← same]
    exact ⟨[], later, rfl, unbound, by simp⟩

theorem exists_firstUnbound
    {marked : List Piece} {name : Text} (member : .hole name ∈ marked)
    (unbound : find name = none) :
    ∃ first, FirstUnbound find marked first := by
  induction marked with
  | nil => simp at member
  | cons piece later inductionHypothesis =>
      by_cases bound : ∀ other, piece = .hole other → find other ≠ none
      · have inLater : .hole name ∈ later := by
          cases List.mem_cons.mp member with
          | inl same => exact absurd unbound (bound name same.symm)
          | inr inLater => exact inLater
        obtain ⟨first, isFirst⟩ := inductionHypothesis inLater
        exact ⟨first, (firstUnbound_cons_of_bound bound).mpr isFirst⟩
      · simp only [Classical.not_forall, ne_eq, Decidable.not_not] at bound
        obtain ⟨first, isHole, firstUnbound⟩ := bound
        rw [isHole]
        exact ⟨first, (firstUnbound_cons_of_unbound firstUnbound later).mpr rfl⟩

/-- Filling fails exactly with the first name that has no text. -/
theorem fillHoles_eq_error_iff {marked : List Piece} {name : Text} :
    interpolate.fillHoles find marked = .error name ↔
      FirstUnbound find marked name := by
  have passes : ∀ {result : Except Text Text} {put : Text → Text},
      result.map put = .error name ↔ result = .error name := by
    intro result put
    cases result with
    | error fault => simp [Except.map]
    | ok text => simp [Except.map]
  induction marked with
  | nil => simp [interpolate.fillHoles, FirstUnbound]
  | cons piece later inductionHypothesis =>
      cases piece with
      | copied character =>
          rw [interpolate.fillHoles, firstUnbound_cons_of_bound (by simp)]
          exact passes.trans inductionHypothesis
      | hole first =>
          cases found : find first with
          | none =>
              rw [firstUnbound_cons_of_unbound found]
              simp [interpolate.fillHoles, found]
          | some text =>
              have bound :
                  ∀ other, Piece.hole first = .hole other →
                  find other ≠ none := by
                intro other same
                simp [← Piece.hole.inj same, found]
              rw [firstUnbound_cons_of_bound bound]
              simp only [interpolate.fillHoles, found]
              exact passes.trans inductionHypothesis

end Filling
end Text

/-! ## Interpolation in a scope -/

namespace Evaluation

open Text

theorem interpolate_eq_mapError
    (machine : Machine) (scope : ScopeId) (template : Text) :
    interpolate machine scope template =
      (interpolate.fillHoles (machine.textOf scope) (pieces template)).mapError
        .undefinedVariable := by
  have same : interpolate.fillHoles (machine.textOf scope) (pieces template) =
      Text.interpolate
        (fun name => (machine.forest.value? scope name).map Value.text)
          template :=
    rfl
  rw [interpolate, same]
  cases Text.interpolate
    (fun name => (machine.forest.value? scope name).map Value.text)
      template with
  | error name => rfl
  | ok text => rfl

section Interpolation

variable {machine : Machine} {scope : ScopeId} {template : Text}

/-- With all names bound every hole is filled with the text of its value. -/
theorem interpolate_of_bound
    {value : Text → Value}
    (bound : ∀ name, HasNamedHole template name →
      machine.forest.value? scope name = some (value name)) :
    interpolate machine scope template =
      .ok ((pieces template).flatMap
        (Piece.filled fun name => (value name).text)) := by
  have texts : ∀ name, .hole name ∈ pieces template →
      machine.textOf scope name = some (value name).text := by
    intro name member
    have hole := ((marks_pieces template).hasNamedHole_iff name).mpr member
    simp [Machine.textOf, bound name hole]
  rw [interpolate_eq_mapError, fillHoles_of_bound texts]
  rfl

/-- The fault of an interpolation names the first hole without a value. -/
theorem interpolate_eq_error_iff {fault : Fault} :
    interpolate machine scope template = .error fault ↔
      ∃ name, FirstUnbound (machine.textOf scope) (pieces template) name ∧
        fault = .undefinedVariable name := by
  simp only [interpolate_eq_mapError, ← fillHoles_eq_error_iff]
  cases interpolate.fillHoles (machine.textOf scope) (pieces template) with
  | error name =>
      constructor
      · intro failed
        cases failed
        exact ⟨name, rfl, rfl⟩
      · rintro ⟨_, same, rfl⟩
        cases same
        rfl
  | ok text =>
      constructor
      · intro failed
        cases failed
      · rintro ⟨_, same, _⟩
        cases same

theorem textOf_eq_none_iff {name : Text} :
    machine.textOf scope name = none ↔
      machine.forest.value? scope name = none := by
  simp [Machine.textOf]

/-- The first hole without a text is the leftmost one. -/
theorem firstUnbound_iff_leftmost {name : Text} :
    FirstUnbound (machine.textOf scope) (pieces template) name ↔
      ∃ before, NamedHoleAt template before name ∧
        machine.forest.value? scope name = none ∧
        ∀ shorter earlier, NamedHoleAt template shorter earlier →
          shorter.length < before.length →
            machine.forest.value? scope earlier ≠ none := by
  have marks := marks_pieces template
  constructor
  · intro first
    obtain ⟨earlier, later, split, unbound, bound⟩ := first
    refine ⟨_, marks.namedHoleAt split, textOf_eq_none_iff.mp unbound, ?_⟩
    intro shorter other hole isShorter
    have member :=
      (marks.mem_earlier_iff split other).mpr ⟨shorter, hole, isShorter⟩
    exact mt textOf_eq_none_iff.mpr (bound other member)
  · intro leftmost
    obtain ⟨before, hole, unbound, bound⟩ := leftmost
    obtain ⟨earlier, later, split, rfl⟩ := marks.complete before name hole
    refine ⟨earlier, later, split, textOf_eq_none_iff.mpr unbound, ?_⟩
    intro other member
    obtain ⟨shorter, otherHole, isShorter⟩ :=
      (marks.mem_earlier_iff split other).mp member
    exact mt textOf_eq_none_iff.mp (bound shorter other otherHole isShorter)

/-- An interpolation fails exactly if some hole has no value. -/
theorem exists_error_iff :
    (∃ fault, interpolate machine scope template = .error fault) ↔
      ∃ name, HasNamedHole template name ∧
        machine.forest.value? scope name = none := by
  simp only [interpolate_eq_error_iff]
  constructor
  · intro failed
    obtain ⟨fault, name, first, _⟩ := failed
    obtain ⟨before, hole, unbound, _⟩ := firstUnbound_iff_leftmost.mp first
    exact ⟨name, hole.hasNamedHole, unbound⟩
  · intro unknown
    obtain ⟨name, hole, unbound⟩ := unknown
    obtain ⟨first, isFirst⟩ :=
      exists_firstUnbound hole.mem_pieces (textOf_eq_none_iff.mpr unbound)
    exact ⟨.undefinedVariable first, first, isFirst, rfl⟩

end Interpolation

/-- Interpolation replaces the names between braces, all of them and nothing
else, by the texts of their variables, and copies the rest.  It fails exactly if
one of the names has no value, and then with the leftmost such name. -/
theorem interpolation_is_one_substitution
    (machine : Machine) (scope : ScopeId) (template : Text) :
    ∃ marked, Marks template marked ∧
      (∀ value : Text → Value,
        (∀ name, HasNamedHole template name →
          machine.forest.value? scope name = some (value name)) →
          interpolate machine scope template =
            .ok (marked.flatMap (Piece.filled fun name => (value name).text))) ∧
      ((∃ fault, interpolate machine scope template = .error fault) ↔
        ∃ name, HasNamedHole template name ∧
          machine.forest.value? scope name = none) ∧
      ∀ fault, interpolate machine scope template = .error fault ↔
        ∃ before name, NamedHoleAt template before name ∧
          machine.forest.value? scope name = none ∧
          (∀ shorter earlier, NamedHoleAt template shorter earlier →
            shorter.length < before.length →
              machine.forest.value? scope earlier ≠ none) ∧
          fault = .undefinedVariable name := by
  refine ⟨pieces template, marks_pieces template, ?_, exists_error_iff, ?_⟩
  · intro value bound
    exact interpolate_of_bound bound
  · intro fault
    rw [interpolate_eq_error_iff]
    constructor
    · intro failed
      obtain ⟨name, first, isFault⟩ := failed
      obtain ⟨before, hole, unbound, bound⟩ :=
        firstUnbound_iff_leftmost.mp first
      exact ⟨before, name, hole, unbound, bound, isFault⟩
    · intro leftmost
      obtain ⟨before, name, hole, unbound, bound, isFault⟩ := leftmost
      exact ⟨name, firstUnbound_iff_leftmost.mpr ⟨before, hole, unbound, bound⟩,
        isFault⟩

/-- Braces with nothing, with a blank, with a name and with half a hole behind
them. -/
def nested : Text :=
  "{}".toList ++ '{' :: " {x}".toList ++ '{' :: "a{x}".toList

/-- A machine on which the text of `x` is a hole of its own. -/
def quoting : Machine :=
  Machine.start.withForest
    (Machine.start.forest.setVariable 0 ['x'] (.string ['{', 'y', '}']))

theorem pieces_nested :
    pieces nested =
      [.copied '{', .copied '}', .copied '{', .copied ' ', .hole ['x'],
        .copied '{', .copied 'a',
        .hole ['x']] := by
  with_unfolding_all rfl

/-- The hole of `nested` is filled with the text of another hole, which stays as
it is. -/
theorem interpolation_is_one_substitution_of_nested :
    (∀ name, HasNamedHole nested name →
      quoting.forest.value? 0 name = some (.string ['{', 'y', '}'])) ∧
      ∃ marked, Marks nested marked ∧
        interpolate quoting 0 nested =
          .ok (marked.flatMap (Piece.filled fun _ => ['{', 'y', '}'])) := by
  have bound : ∀ name, HasNamedHole nested name →
      quoting.forest.value? 0 name = some (.string ['{', 'y', '}']) := by
    intro name hole
    have found := hole.mem_pieces
    rw [pieces_nested] at found
    have isX : name = ['x'] := by simpa using found
    rw [isX]
    with_unfolding_all rfl
  obtain ⟨marked, marks, replaces, _⟩ :=
    interpolation_is_one_substitution quoting 0 nested
  exact ⟨bound, marked, marks,
    replaces (fun _ => .string ['{', 'y', '}']) bound⟩

end Evaluation
end LineScript
