import LineScript.Proofs.Text.Cutting
import LineScript.Text.Template

/-!
Templates as they are written.

A hole of a template is a name between braces, or a pair of braces with nothing
between them.  Three relations say what a template is filled with:
`Interpolated` replaces the named holes, `Numbered` the empty ones, and `Filled`
both of them in one reading of the template.  Interpolation followed by
numbering is the one reading as long as the values put into the named holes form
no empty hole of their own.
-/

namespace LineScript
namespace Text

/-- The text starts with a name between braces. -/
def OpensName (text : Text) : Prop :=
  ∃ name rest, isName name ∧ text = '{' :: (name ++ '}' :: rest)

/-- The text starts with a pair of braces with nothing between them. -/
def OpensNumber (text : Text) : Prop :=
  ∃ rest, text = '{' :: '}' :: rest

/-- The name stands between braces somewhere in the template. -/
def HasNamedHole (template name : Text) : Prop :=
  isName name ∧
    ∃ before after, template = before ++ '{' :: (name ++ '}' :: after)

def emptyHoles : Text → Nat
  | [] => 0
  | '{' :: '}' :: rest => emptyHoles rest + 1
  | _ :: rest => emptyHoles rest

theorem OpensNumber.not_opensName {text : Text} (number : OpensNumber text) :
    ¬ OpensName text := by
  rintro ⟨name, rest, named, isText⟩
  obtain ⟨after, rfl⟩ := number
  obtain ⟨first, others, rfl, starts, _⟩ := exists_cons_of_isName named
  have brace : '}' = first := List.head_eq_of_cons_eq (List.cons.inj isText).2
  rw [← brace] at starts
  exact absurd starts (by decide)

section Plain

variable {character : Char} (notBrace : character ≠ '{') (rest : Text)

include notBrace

theorem not_opensName_of_ne : ¬ OpensName (character :: rest) := by
  rintro ⟨_, _, _, isText⟩
  exact notBrace (List.head_eq_of_cons_eq isText)

theorem not_opensNumber_of_ne : ¬ OpensNumber (character :: rest) := by
  rintro ⟨_, isText⟩
  exact notBrace (List.head_eq_of_cons_eq isText)

end Plain

/-- A name between braces can be read in one way only. -/
theorem named_unique
    {name other rest otherRest : Text} (named : isName name)
    (otherNamed : isName other)
    (same : '{' :: (name ++ '}' :: rest) = '{' :: (other ++ '}' :: otherRest)) :
    name = other ∧ rest = otherRest := by
  have brace : ¬ isNameChar '}' := by decide
  have spans := congrArg spanName (List.cons.inj same).2
  rw [spanName_append named brace, spanName_append otherNamed brace] at spans
  obtain ⟨sameName, sameRest⟩ := Prod.mk.inj spans
  exact ⟨sameName, (List.cons.inj sameRest).2⟩

/-- Where a text with no such character in it ends before the character, it is a
start of what stands before the character. -/
theorem exists_append_of_not_mem
    {character : Char} {start before rest after : Text}
    (absent : character ∉ start)
    (same : before ++ character :: after = start ++ rest) :
    ∃ more, before = start ++ more ∧ rest = more ++ character :: after := by
  rcases List.append_eq_append_iff.mp same with ⟨more, isStart, isRest⟩ | found
  · cases more with
    | nil =>
        refine ⟨[], ?_, isRest.symm⟩
        rw [isStart, List.append_nil, List.append_nil]
    | cons first more =>
        have isFirst : character = first := List.head_eq_of_cons_eq isRest
        rw [isStart, isFirst] at absent
        exact absurd (List.mem_append_right before List.mem_cons_self) absent
  · exact found

theorem HasNamedHole.later
    {template name : Text} (hole : HasNamedHole template name) (before : Text) :
    HasNamedHole (before ++ template) name := by
  obtain ⟨named, front, after, rfl⟩ := hole
  exact ⟨named, before ++ front, after, (List.append_assoc _ _ _).symm⟩

section EmptyHoles

variable {character : Char} {rest : Text}

theorem emptyHoles_cons (plain : ¬ OpensNumber (character :: rest)) :
    emptyHoles (character :: rest) = emptyHoles rest := by
  rw [emptyHoles]
  rintro after rfl rfl
  exact plain ⟨after, rfl⟩

/-- An empty hole is lost with its opening brace. -/
theorem emptyHoles_lt_of_opensNumber
    (number : OpensNumber (character :: rest)) :
    emptyHoles rest < emptyHoles (character :: rest) := by
  obtain ⟨after, isText⟩ := number
  cases isText
  rw [emptyHoles_cons (not_opensNumber_of_ne (by decide) after), emptyHoles]
  exact Nat.lt_succ_self _

theorem emptyHoles_le_cons (character : Char) (rest : Text) :
    emptyHoles rest ≤ emptyHoles (character :: rest) := by
  by_cases number : OpensNumber (character :: rest)
  · exact Nat.le_of_lt (emptyHoles_lt_of_opensNumber number)
  · exact Nat.le_of_eq (emptyHoles_cons number).symm

theorem emptyHoles_le_append (before after : Text) :
    emptyHoles after ≤ emptyHoles (before ++ after) := by
  induction before with
  | nil => exact Nat.le_refl _
  | cons character before inductionHypothesis =>
      exact Nat.le_trans inductionHypothesis
        (emptyHoles_le_cons character (before ++ after))

/-- Characters other than an opening brace open no hole. -/
theorem emptyHoles_append_of_not_mem
    {before : Text} (noBrace : '{' ∉ before) (after : Text) :
    emptyHoles (before ++ after) = emptyHoles after := by
  induction before with
  | nil => rfl
  | cons character before inductionHypothesis =>
      simp only [List.mem_cons, not_or] at noBrace
      rw [List.cons_append,
        emptyHoles_cons (not_opensNumber_of_ne (Ne.symm noBrace.1) _),
        inductionHypothesis noBrace.2]

theorem emptyHoles_named {name : Text} (named : isName name) (rest : Text) :
    emptyHoles ('{' :: (name ++ '}' :: rest)) = emptyHoles rest := by
  have noNumber : ¬ OpensNumber ('{' :: (name ++ '}' :: rest)) :=
    fun number => number.not_opensName ⟨name, rest, named, rfl⟩
  have noBrace : '{' ∉ name := not_mem_name named (by decide)
  rw [emptyHoles_cons noNumber, emptyHoles_append_of_not_mem noBrace,
    emptyHoles_cons (not_opensNumber_of_ne (by decide) rest)]

end EmptyHoles

/-! ## Filling holes -/

/-- Each named hole of the template is replaced by what `find` has for its name,
and all else is copied. -/
inductive Interpolated (find : Text → Option Text) : (template result : Text) →
    Prop
  | nil : Interpolated find [] []
  | named {name value rest result : Text} (isNamed : isName name)
      (found : find name = some value) (later : Interpolated find rest result) :
      Interpolated find ('{' :: (name ++ '}' :: rest)) (value ++ result)
  | numbered {rest result : Text} (later : Interpolated find rest result) :
      Interpolated find ('{' :: '}' :: rest) ('{' :: '}' :: result)
  | copied {character : Char} {rest result : Text}
      (noName : ¬ OpensName (character :: rest))
      (noNumber : ¬ OpensNumber (character :: rest))
        (later : Interpolated find rest result) :
      Interpolated find (character :: rest) (character :: result)

/-- The empty holes of the template are replaced by the texts in order.  A hole
beyond the texts stays, and all else is copied. -/
inductive Numbered : (texts : List Text) → (template result : Text) → Prop
  | nil {texts : List Text} : Numbered texts [] []
  | filled {text : Text} {texts : List Text} {rest result : Text}
      (later : Numbered texts rest result) :
      Numbered (text :: texts) ('{' :: '}' :: rest) (text ++ result)
  | unfilled {rest result : Text} (later : Numbered [] rest result) :
      Numbered [] ('{' :: '}' :: rest) ('{' :: '}' :: result)
  | copied {texts : List Text} {character : Char} {rest result : Text}
      (noNumber : ¬ OpensNumber (character :: rest))
        (later : Numbered texts rest result) :
      Numbered texts (character :: rest) (character :: result)

/-- Both kinds of holes are filled in one reading of the template, so that
nothing put into a hole is looked at again. -/
inductive Filled (find : Text → Option Text) :
    (texts : List Text) → (template result : Text) → Prop
  | nil {texts : List Text} : Filled find texts [] []
  | named {texts : List Text} {name value rest result : Text}
      (isNamed : isName name)
      (found : find name = some value) (later : Filled find texts rest result) :
      Filled find texts ('{' :: (name ++ '}' :: rest)) (value ++ result)
  | filled {text : Text} {texts : List Text} {rest result : Text}
      (later : Filled find texts rest result) :
      Filled find (text :: texts) ('{' :: '}' :: rest) (text ++ result)
  | unfilled {rest result : Text} (later : Filled find [] rest result) :
      Filled find [] ('{' :: '}' :: rest) ('{' :: '}' :: result)
  | copied {texts : List Text} {character : Char} {rest result : Text}
      (noName : ¬ OpensName (character :: rest))
        (noNumber : ¬ OpensNumber (character :: rest))
      (later : Filled find texts rest result) :
      Filled find texts (character :: rest) (character :: result)

section Filled

variable {find : Text → Option Text} {template text : Text}

/-- One reading of a template has one result. -/
theorem Filled.unique
    {texts : List Text} {result other : Text}
    (filled : Filled find texts template result)
    (again : Filled find texts template other) :
    result = other := by
  induction filled generalizing other with
  | nil =>
      cases again
      rfl
  | @named texts name value rest result isNamed found later
      inductionHypothesis =>
      generalize written : '{' :: (name ++ '}' :: rest) = whole at again
      have opens : OpensName whole := ⟨name, rest, isNamed, written.symm⟩
      cases again with
      | nil => cases written
      | named otherNamed otherFound otherLater =>
          obtain ⟨rfl, rfl⟩ := named_unique isNamed otherNamed written
          rw [found] at otherFound
          cases otherFound
          rw [inductionHypothesis otherLater]
      | filled _ => exact absurd opens (OpensNumber.not_opensName ⟨_, rfl⟩)
      | unfilled _ => exact absurd opens (OpensNumber.not_opensName ⟨_, rfl⟩)
      | copied noName _ _ => exact absurd opens noName
  | @filled text texts rest result later inductionHypothesis =>
      generalize written : '{' :: '}' :: rest = whole at again
      generalize given : text :: texts = all at again
      have opens : OpensNumber whole := ⟨rest, written.symm⟩
      cases again with
      | nil => cases written
      | named isNamed _ _ =>
          exact absurd ⟨_, _, isNamed, rfl⟩ opens.not_opensName
      | filled otherLater =>
          cases written
          cases given
          rw [inductionHypothesis otherLater]
      | unfilled _ => cases given
      | copied _ noNumber _ => exact absurd opens noNumber
  | @unfilled rest result later inductionHypothesis =>
      generalize written : '{' :: '}' :: rest = whole at again
      have opens : OpensNumber whole := ⟨rest, written.symm⟩
      cases again with
      | nil => cases written
      | named isNamed _ _ =>
          exact absurd ⟨_, _, isNamed, rfl⟩ opens.not_opensName
      | unfilled otherLater =>
          cases written
          rw [inductionHypothesis otherLater]
      | copied _ noNumber _ => exact absurd opens noNumber
  | @copied texts character rest result noName noNumber later
      inductionHypothesis =>
      generalize written : character :: rest = whole at again
      cases again with
      | nil => cases written
      | named isNamed _ _ => exact absurd ⟨_, _, isNamed, written⟩ noName
      | filled _ => exact absurd ⟨_, written⟩ noNumber
      | unfilled _ => exact absurd ⟨_, written⟩ noNumber
      | copied _ _ otherLater =>
          cases written
          rw [inductionHypothesis otherLater]

/-- A template can be interpolated if `find` knows every name in its holes. -/
theorem exists_interpolated
    (bound : ∀ name, HasNamedHole template name → (find name).isSome) :
    ∃ result, Interpolated find template result := by
  induction length :
    template.length using Nat.strongRecOn generalizing template with
  | ind length inductionHypothesis =>
      -- What follows a hole or a character is shorter, and its holes are holes of the whole.
      have later :
          ∀ before {rest : Text}, template = before ++ rest → before ≠ [] →
          ∃ result, Interpolated find rest result := by
        intro before rest whole nonempty
        have positive := List.length_pos_iff.mpr nonempty
        have lengths := congrArg List.length whole
        rw [List.length_append] at lengths
        apply inductionHypothesis rest.length (by omega) _ rfl
        intro name hole
        apply bound name
        rw [whole]
        exact hole.later before
      cases template with
      | nil => exact ⟨[], .nil⟩
      | cons character rest =>
          by_cases number : OpensNumber (character :: rest)
          · obtain ⟨after, isText⟩ := number
            obtain ⟨result, interpolated⟩ :=
              later ['{', '}'] isText (List.cons_ne_nil _ _)
            rw [isText]
            exact ⟨_, .numbered interpolated⟩
          · by_cases opens : OpensName (character :: rest)
            · obtain ⟨name, after, named, isText⟩ := opens
              have known : (find name).isSome :=
                bound name ⟨named, [], after, isText⟩
              obtain ⟨value, found⟩ := Option.isSome_iff_exists.mp known
              have whole :
                  character :: rest = ('{' :: (name ++ ['}'])) ++ after := by
                rw [isText, List.cons_append, List.append_assoc,
                  List.singleton_append]
              obtain ⟨result, interpolated⟩ :=
                later _ whole (List.cons_ne_nil _ _)
              rw [isText]
              exact ⟨_, .named named found interpolated⟩
            · obtain ⟨result, interpolated⟩ :=
                later [character] rfl (List.cons_ne_nil _ _)
              exact ⟨_, .copied opens number interpolated⟩

/-- Without named holes interpolation copies the template. -/
theorem Interpolated.eq_of_noNames
    (interpolated : Interpolated find template text)
    (noNames : ∀ name, ¬ HasNamedHole template name) :
    text = template := by
  induction interpolated with
  | nil => rfl
  | @named name _ rest _ isNamed _ _ _ =>
      exact absurd ⟨isNamed, [], rest, rfl⟩ (noNames name)
  | numbered _ inductionHypothesis =>
      rw [inductionHypothesis fun name hole => noNames name (hole.later ['{', '}'])]
  | @copied character _ _ _ _ _ inductionHypothesis =>
      rw [inductionHypothesis fun name hole => noNames name (hole.later [character])]

theorem interpolated_self
    (find : Text → Option Text)
    (noNames : ∀ name, ¬ HasNamedHole template name) :
    Interpolated find template template := by
  have bound : ∀ name, HasNamedHole template name → (find name).isSome :=
    fun name hole => absurd hole (noNames name)
  obtain ⟨text, interpolated⟩ := exists_interpolated bound
  have same := interpolated.eq_of_noNames noNames
  rwa [same] at interpolated

/-- Filling named holes removes no empty pair of braces. -/
theorem Interpolated.emptyHoles_le
    (interpolated : Interpolated find template text) :
    emptyHoles template ≤ emptyHoles text := by
  induction interpolated with
  | nil => exact Nat.le_refl _
  | @named _ value rest result isNamed _ _ inductionHypothesis =>
      rw [emptyHoles_named isNamed]
      exact Nat.le_trans inductionHypothesis (emptyHoles_le_append value result)
  | numbered _ inductionHypothesis => exact Nat.succ_le_succ inductionHypothesis
  | @copied character rest result _ noNumber _ inductionHypothesis =>
      rw [emptyHoles_cons noNumber]
      exact Nat.le_trans inductionHypothesis
        (emptyHoles_le_cons character result)

/-- Where a text in front brings no empty hole, numbering copies it. -/
theorem Numbered.exists_of_append
    {texts : List Text} (value : Text) {rest result : Text}
    (same : emptyHoles (value ++ rest) = emptyHoles rest)
    (numbered : Numbered texts (value ++ rest) result) :
    ∃ later, result = value ++ later ∧ Numbered texts rest later := by
  induction value generalizing result with
  | nil => exact ⟨result, rfl, numbered⟩
  | cons character value inductionHypothesis =>
      have bound := emptyHoles_le_append value rest
      have step := emptyHoles_le_cons character (value ++ rest)
      rw [List.cons_append] at same numbered
      have plain : ¬ OpensNumber (character :: (value ++ rest)) := by
        intro number
        have fewer := emptyHoles_lt_of_opensNumber number
        omega
      generalize written : character :: (value ++ rest) = whole at numbered
      cases numbered with
      | nil => cases written
      | filled _ => exact absurd ⟨_, written⟩ plain
      | unfilled _ => exact absurd ⟨_, written⟩ plain
      | copied _ numberedRest =>
          cases written
          obtain ⟨later, rfl, numberedLater⟩ :=
            inductionHypothesis (by omega) numberedRest
          exact ⟨later, rfl, numberedLater⟩

/-- Numbering an interpolated template is filling it in one reading, if its
values form no empty hole. -/
theorem Interpolated.filled
    {texts : List Text} {result : Text}
    (interpolated : Interpolated find template text)
    (same : emptyHoles text = emptyHoles template)
    (numbered : Numbered texts text result) :
    Filled find texts template result := by
  induction interpolated generalizing texts result with
  | nil =>
      cases numbered
      exact .nil
  | @named name value rest text isNamed found later inductionHypothesis =>
      rw [emptyHoles_named isNamed] at same
      have fewest := later.emptyHoles_le
      have more := emptyHoles_le_append value text
      obtain ⟨after, rfl, numberedRest⟩ :=
        numbered.exists_of_append value (by omega)
      exact .named isNamed found (inductionHypothesis (by omega) numberedRest)
  | numbered later inductionHypothesis =>
      have sameRest := Nat.succ.inj same
      generalize written : '{' :: '}' :: _ = whole at numbered
      cases numbered with
      | nil => cases written
      | filled numberedRest =>
          cases written
          exact .filled (inductionHypothesis sameRest numberedRest)
      | unfilled numberedRest =>
          cases written
          exact .unfilled (inductionHypothesis sameRest numberedRest)
      | copied noNumber _ => exact absurd ⟨_, written.symm⟩ noNumber
  | @copied character rest text noName noNumber later inductionHypothesis =>
      rw [emptyHoles_cons noNumber] at same
      have fewest := later.emptyHoles_le
      have more := emptyHoles_le_cons character text
      have sameRest : emptyHoles ([character] ++ text) = emptyHoles text := by
        rw [List.singleton_append]
        omega
      obtain ⟨after, rfl, numberedRest⟩ :=
        Numbered.exists_of_append [character] sameRest numbered
      exact .copied noName noNumber
        (inductionHypothesis (by omega) numberedRest)

/-- Without texts for the empty holes, filling a template is interpolating
it. -/
theorem Interpolated.filled_nil
    (interpolated : Interpolated find template text) :
    Filled find [] template text := by
  induction interpolated with
  | nil => exact .nil
  | named isNamed found _ inductionHypothesis =>
      exact .named isNamed found inductionHypothesis
  | numbered _ inductionHypothesis => exact .unfilled inductionHypothesis
  | copied noName noNumber _ inductionHypothesis =>
      exact .copied noName noNumber inductionHypothesis

end Filled

/-! ## What the library does -/

theorem hole?_named {name : Text} (named : isName name) (rest : Text) :
    hole? (name ++ '}' :: rest) = some (name, rest) := by
  have brace : ¬ isNameChar '}' := by decide
  have nonempty : name.isEmpty = false := by simpa using name_ne_nil named
  simp only [hole?, spanName_append named brace, nonempty, Bool.false_eq_true,
    if_false]

theorem eq_append_of_hole?
    {after name rest : Text} (found : hole? after = some (name, rest)) :
    isName name ∧ after = name ++ '}' :: rest := by
  rw [hole?] at found
  split at found
  · next spanned =>
      split at found
      · cases found
      · next nonempty =>
          cases found
          have whole := spanName_whole after
          have named : isName (spanName after).1 := by
            apply isName_spanName
            rw [spanned]
            simpa using nonempty
          rw [spanned] at whole named
          exact ⟨named, whole⟩
  · cases found

theorem opensName_of_hole?
    {after name rest : Text} (found : hole? after = some (name, rest)) :
    OpensName ('{' :: after) := by
  obtain ⟨named, rfl⟩ := eq_append_of_hole? found
  exact ⟨name, rest, named, rfl⟩

theorem pieces_named {name : Text} (named : isName name) (rest : Text) :
    pieces ('{' :: (name ++ '}' :: rest)) = .hole name :: pieces rest := by
  rw [pieces, if_pos rfl]
  split
  · next found =>
      rw [hole?_named named] at found
      cases found
      rfl
  · next refused =>
      rw [hole?_named named] at refused
      cases refused

theorem pieces_copied
    {character : Char} {rest : Text}
    (noName : ¬ OpensName (character :: rest)) :
    pieces (character :: rest) = .copied character :: pieces rest := by
  rw [pieces]
  split
  · next brace =>
      split
      · next found =>
          rw [brace] at noName
          exact absurd (opensName_of_hole? found) noName
      · rw [brace]
  · rfl

def Piece.source : Piece → Text
  | copied character => [character]
  | hole name => '{' :: (name ++ ['}'])

/-- The holes of a template are found wherever they stand. -/
theorem exists_pieces_named
    {name : Text} (named : isName name) (before after : Text) :
    ∃ earlier later, pieces (before ++ '{' :: (name ++ '}' :: after)) =
      earlier ++ .hole name :: later ∧
        earlier.flatMap Piece.source = before := by
  induction length :
    before.length using Nat.strongRecOn generalizing before with
  | ind length inductionHypothesis =>
      cases before with
      | nil => exact ⟨[], pieces after, pieces_named named after, rfl⟩
      | cons character before =>
          rw [List.length_cons] at length
          rw [List.cons_append]
          by_cases opens :
            OpensName (character :: (before ++ '{' :: (name ++ '}' :: after)))
          · obtain ⟨first, rest, firstNamed, isText⟩ := opens
            obtain ⟨isBrace, isRest⟩ := List.cons.inj isText
            -- The hole stands after the first one, since there is no brace in a name.
            have noBrace : '{' ∉ first ++ ['}'] := by
              simp [not_mem_name firstNamed (show ¬ isNameChar '{' by decide)]
            have same :
                before ++ '{' :: (name ++ '}' :: after) =
                  (first ++ ['}']) ++ rest := by
              rw [isRest, List.append_assoc, List.singleton_append]
            obtain ⟨more, isBefore, rfl⟩ :=
              exists_append_of_not_mem noBrace same
            obtain ⟨earlier, later, found, written⟩ :=
              inductionHypothesis more.length
                (by simp [isBefore] at length; omega) more rfl
            refine ⟨.hole first :: earlier, later, ?_, ?_⟩
            · rw [isText, pieces_named firstNamed, found]
              rfl
            · rw [List.flatMap_cons, written, isBefore, isBrace]
              rfl
          · obtain ⟨earlier, later, found, written⟩ :=
              inductionHypothesis before.length (by omega) before rfl
            refine ⟨.copied character :: earlier, later, ?_, ?_⟩
            · rw [pieces_copied opens, found]
              rfl
            · rw [List.flatMap_cons, written]
              rfl

/-- Every named hole is found by the reader of templates. -/
theorem HasNamedHole.mem_pieces
    {template name : Text} (hole : HasNamedHole template name) :
    .hole name ∈ pieces template := by
  obtain ⟨named, before, after, rfl⟩ := hole
  obtain ⟨earlier, later, found, _⟩ := exists_pieces_named named before after
  rw [found]
  exact List.mem_append_right earlier List.mem_cons_self

/-- What the relation says is computed. -/
theorem Interpolated.interpolate_eq
    {find : Text → Option Text} {template text : Text}
    (interpolated : Interpolated find template text) :
    interpolate find template = .ok text := by
  have copies : ∀ {character : Char} {rest result : Text},
      ¬ OpensName (character :: rest) → interpolate find rest = .ok result →
        interpolate find (character :: rest) = .ok (character :: result) := by
    intro character rest result noName interpolatedRest
    rw [interpolate] at interpolatedRest ⊢
    rw [pieces_copied noName, interpolate.fillHoles, interpolatedRest]
    rfl
  induction interpolated with
  | nil =>
      rw [interpolate, pieces, interpolate.fillHoles]
  | named isNamed found _ inductionHypothesis =>
      rw [interpolate] at inductionHypothesis ⊢
      rw [pieces_named isNamed, interpolate.fillHoles, found]
      simp only [inductionHypothesis]
      rfl
  | @numbered rest _ _ inductionHypothesis =>
      have notOpening : '}' ≠ '{' := by decide
      have closing :=
        copies (not_opensName_of_ne notOpening rest) inductionHypothesis
      exact copies (OpensNumber.not_opensName ⟨rest, rfl⟩) closing
  | copied noName _ _ inductionHypothesis =>
      exact copies noName inductionHypothesis

theorem numbered_fill (texts : List Text) (template : Text) :
    Numbered texts template (fill texts template) := by
  fun_induction fill texts template with
  | case1 => exact .nil
  | case2 text texts rest inductionHypothesis =>
      exact .filled inductionHypothesis
  | case3 rest inductionHypothesis => exact .unfilled inductionHypothesis
  | case4 texts character rest noFilled noUnfilled inductionHypothesis =>
      apply Numbered.copied _ inductionHypothesis
      rintro ⟨after, isText⟩
      cases isText
      cases texts with
      | nil => exact noUnfilled after rfl rfl rfl
      | cons text texts => exact noFilled text texts after rfl rfl rfl

theorem Numbered.eq_of_noTexts
    {texts : List Text} {template result : Text}
    (numbered : Numbered texts template result) (noTexts : texts = []) :
    result = template := by
  induction numbered with
  | nil => rfl
  | filled _ _ => cases noTexts
  | unfilled _ inductionHypothesis => rw [inductionHypothesis rfl]
  | copied _ _ inductionHypothesis => rw [inductionHypothesis noTexts]

theorem fill_nil (template : Text) : fill [] template = template :=
  (numbered_fill [] template).eq_of_noTexts rfl

end Text
end LineScript
