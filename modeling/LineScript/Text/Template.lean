import LineScript.Text.Basic

/-!
Templates: `{name}` stands for the text of a binding, and `{}` for the next of
a list of texts.
-/

namespace LineScript
namespace Text

/-- A piece of a template: a character that is copied, or a hole with a name. -/
inductive Piece
  | copied (character : Char)
  | hole (name : Text)
deriving DecidableEq

/-- The name of the hole whose opening brace stands just before the text, and
what follows its closing brace. -/
def hole? (after : Text) : Option (Text × Text) :=
  match spanName after with
  | (name, '}' :: rest) => if name.isEmpty then none else some (name, rest)
  | _ => none

theorem length_spanName (text : Text) :
    text.length = (spanName text).1.length + (spanName text).2.length := by
  cases text with
  | nil => rfl
  | cons first rest =>
      simp only [spanName]
      split
      · have whole := congrArg List.length
          (List.takeWhile_append_dropWhile (p := isNameChar) (l := rest))
        simp only [List.length_append] at whole
        simp only [List.length_cons]
        omega
      · simp

theorem length_of_hole?
    {after name rest : Text} (found : hole? after = some (name, rest)) :
    rest.length < after.length := by
  unfold hole? at found
  split at found
  · next foundName foundRest spanned =>
      split at found
      · simp at found
      · simp only [Option.some.injEq, Prod.mk.injEq] at found
        obtain ⟨rfl, rfl⟩ := found
        have whole := length_spanName after
        rw [spanned] at whole
        simp only [List.length_cons] at whole
        omega
  · simp at found

/-- The pieces of a template, left to right.  A brace that opens no hole is
copied like any other character. -/
def pieces : Text → List Piece
  | [] => []
  | character :: after =>
      if character = '{' then
        match _found : hole? after with
        | some (name, rest) => .hole name :: pieces rest
        | none => .copied '{' :: pieces after
      else
        .copied character :: pieces after
termination_by text => text.length
decreasing_by
  · have shorter := length_of_hole? _found
    simp only [List.length_cons]
    omega
  · simp
  · simp

/-- The template with every hole replaced by what `find` gives for its name, or
the leftmost name for which it gives nothing. -/
def interpolate (find : Text → Option Text) (template : Text) :
    Except Text Text :=
  let rec fillHoles : List Piece → Except Text Text
    | [] => .ok []
    | .copied character :: later => (fillHoles later).map (character :: ·)
    | .hole name :: later =>
        match find name with
        | none => .error name
        | some replacement => (fillHoles later).map (replacement ++ ·)
  fillHoles (pieces template)

/-- The template with its `{}` replaced by the texts in order.  Holes beyond the
texts stay, texts beyond the holes are dropped. -/
def fill : (texts : List Text) → (template : Text) → Text
  | _, [] => []
  | text :: texts, '{' :: '}' :: rest => text ++ fill texts rest
  | [], '{' :: '}' :: rest => '{' :: '}' :: fill [] rest
  | texts, character :: rest => character :: fill texts rest

end Text
end LineScript
