import LineScript.Proofs.Macro.Lexing
import LineScript.Proofs.Text.Balance

/-!
Where a literal ends.

A reading that keeps track of literals enters one at a quote and leaves it at
the first quote of the same kind that no backslash escapes.  The search for the
end of a literal, the reader of string literals and the reader of character
literals find the same end.
-/

namespace LineScript

/-- A reading that stands at `quotes` before the text is in a literal behind
each character of the text but the last, and leaves it there. -/
structure Quotes.LeavesAtEnd (quotes : Quotes) (text : Text) : Prop where
  long : 1 < text.length
  stillOpen : ∀ left right, text = left ++ right → left ≠ [] → right ≠ [] →
    quotes.after left ≠ .outside
  closed : quotes.after text = .outside

namespace Text

theorem leavesAtEnd_literal
    {quote : Char} (isQuote : Quotes.isQuote quote) {body : Text}
    (isBody : LiteralBody quote false body) :
    Quotes.outside.LeavesAtEnd (quote :: (body ++ [quote])) where
  long := by simp
  stillOpen := by
    intro left right whole leftNonempty rightNonempty reached
    obtain ⟨first, others, rfl⟩ := List.exists_cons_of_ne_nil leftNonempty
    obtain ⟨rfl, inQuotes⟩ :=
      List.cons_eq_cons.mp (whole.trans List.cons_append)
    -- All of the start but its quote lies in the body.
    have front : body = others ++ right.dropLast := by
      rw [← List.dropLast_append_of_ne_nil rightNonempty, ← inQuotes,
        List.dropLast_concat]
    rw [front] at isBody
    obtain ⟨escaped, inside⟩ := isBody.inside_after
    have opens : Quotes.outside.next quote = .inside quote false :=
      if_pos isQuote
    have reachedBehind : (Quotes.outside.next quote).after others = .outside :=
      reached
    rw [opens, inside] at reachedBehind
    cases reachedBehind
  closed := literalsClose_literal isQuote isBody

/-- What a reading enters at the first character and leaves at the last one is a
literal. -/
theorem exists_body_of_leavesAtEnd
    {text : Text} (leaves : Quotes.outside.LeavesAtEnd text) :
    ∃ quote body, Quotes.isQuote quote ∧ LiteralBody quote false body ∧
      text = quote :: (body ++ [quote]) := by
  obtain ⟨long, stillOpen, closed⟩ := leaves
  match text with
  | [] => simp at long
  | [character] => simp at long
  | quote :: second :: others =>
      have entered : Quotes.outside.next quote ≠ .outside :=
        stillOpen [quote] (second :: others) rfl (List.cons_ne_nil _ _)
          (List.cons_ne_nil _ _)
      have isQuote : Quotes.isQuote quote := by
        refine Decidable.byContradiction fun notQuote => ?_
        exact entered (if_neg notQuote)
      cases found : closeLiteral quote false (second :: others) with
      | none =>
          exact absurd closed (not_literalsClose_of_stillOpen isQuote found)
      | some parts =>
          obtain ⟨body, after⟩ := parts
          obtain ⟨isBody, whole⟩ := literalBody_of_closeLiteral found
          have split :
              quote :: second :: others =
                (quote :: body ++ [quote]) ++ after := by
            rw [whole]
            simp
          cases after with
          | nil => exact ⟨quote, body, isQuote, isBody, by rw [whole]⟩
          | cons next after =>
              have early :=
                stillOpen _ _ split (List.cons_ne_nil _ _)
                  (List.cons_ne_nil _ _)
              exact absurd (literalsClose_literal isQuote isBody) early

/-- A literal is left at the end of a text exactly if the text is the
literal. -/
theorem leavesAtEnd_iff {text : Text} :
    Quotes.outside.LeavesAtEnd text ↔
      ∃ quote body, Quotes.isQuote quote ∧ LiteralBody quote false body ∧
        text = quote :: (body ++ [quote]) := by
  constructor
  · exact exists_body_of_leavesAtEnd
  · rintro ⟨quote, body, isQuote, isBody, rfl⟩
    exact leavesAtEnd_literal isQuote isBody

/-- The search ends where the literal is left. -/
theorem spanLiteral_of_leavesAtEnd
    {quote : Char} {rest literal after : Text}
    (whole : quote :: rest = literal ++ after)
    (leaves : Quotes.outside.LeavesAtEnd literal) :
    spanLiteral quote rest = (literal, after) := by
  obtain ⟨opening, body, isQuote, isBody, rfl⟩ :=
    exists_body_of_leavesAtEnd leaves
  obtain ⟨rfl, behind⟩ := List.cons_eq_cons.mp (whole.trans List.cons_append)
  have found : closeLiteral quote false rest = some (body, after) := by
    rw [behind, List.append_assoc]
    exact isBody.closeLiteral_eq (ne_backslash_of_isQuote isQuote) after
  simp only [spanLiteral, found, List.cons_append]

/-- The search takes all of the text if the literal is never left. -/
theorem spanLiteral_of_never_left
    {quote : Char} (isQuote : Quotes.isQuote quote) {rest : Text}
    (never : ∀ literal after, quote :: rest = literal ++ after →
      ¬ Quotes.outside.LeavesAtEnd literal) :
    spanLiteral quote rest = (quote :: rest, []) := by
  cases found : closeLiteral quote false rest with
  | none => simp only [spanLiteral, found]
  | some parts =>
      obtain ⟨body, after⟩ := parts
      obtain ⟨isBody, rfl⟩ := literalBody_of_closeLiteral found
      have split :
          quote :: (body ++ quote :: after) =
            quote :: (body ++ [quote]) ++ after := by
        simp
      exact absurd (leavesAtEnd_literal isQuote isBody) (never _ _ split)

theorem byteLength_cons (character : Char) (rest : Text) :
    byteLength (character :: rest) = character.utf8Size + byteLength rest :=
  rfl

theorem byteLength_append (before after : Text) :
    byteLength (before ++ after) = byteLength before + byteLength after := by
  induction before with
  | nil => exact (Nat.zero_add _).symm
  | cons character before inductionHypothesis =>
      rw [List.cons_append, byteLength_cons, inductionHypothesis,
        byteLength_cons, Nat.add_assoc]

/-- The bytes of a start of the text lead to what follows it. -/
theorem dropBytes?_append (before after : Text) :
    dropBytes? (byteLength before) (before ++ after) = some after := by
  induction before with
  | nil =>
      show dropBytes? 0 after = some after
      rw [dropBytes?]
  | cons character before inductionHypothesis =>
      obtain ⟨offset, isOffset⟩ :=
        Nat.exists_eq_add_one.mpr
          (Nat.add_pos_left character.utf8Size_pos (byteLength before))
      have fits : character.utf8Size ≤ offset + 1 :=
        isOffset ▸ Nat.le_add_right _ _
      have remaining : offset + 1 - character.utf8Size = byteLength before := by
        rw [← isOffset, Nat.add_sub_cancel_left]
      rw [byteLength_cons, isOffset, List.cons_append, dropBytes?, if_pos fits,
        remaining, inductionHypothesis]

/-- The byte offset just behind the literal that opens at a byte offset. -/
def literalEnd? (text : Text) (start : Nat) : Option Nat :=
  (dropBytes? start text).bind fun
    | [] => none
    | quote :: rest => some (start + byteLength (spanLiteral quote rest).1)

/-- The offset in bytes is that of the end that the search in characters
finds. -/
theorem literalEnd?_append (before : Text) (quote : Char) (rest : Text) :
    literalEnd? (before ++ quote :: rest) (byteLength before) =
      some (byteLength (before ++ (spanLiteral quote rest).1)) := by
  rw [literalEnd?, dropBytes?_append, byteLength_append]
  rfl

/-- The reading goes on at the end of the literal. -/
theorem dropBytes?_literalEnd? (before : Text) (quote : Char) (rest : Text) :
    (literalEnd? (before ++ quote :: rest) (byteLength before)).bind
        (dropBytes? · (before ++ quote :: rest)) =
      some (spanLiteral quote rest).2 := by
  rw [literalEnd?_append, Option.bind_some, ← Macro.spanLiteral_whole,
    ← List.append_assoc]
  exact dropBytes?_append _ _

theorem stringLiteral?_eq_some_iff_leavesAtEnd {text inner : Text} :
    stringLiteral? text = some inner ↔
      text.head? = some '"' ∧ Quotes.outside.LeavesAtEnd text ∧
        inner = text.tail.dropLast := by
  rw [stringLiteral?_eq_some_iff, leavesAtEnd_iff, enquote]
  constructor
  · rintro ⟨isBody, rfl⟩
    exact ⟨rfl, ⟨'"', inner, rfl, isBody, rfl⟩, by simp⟩
  · rintro ⟨startsWithQuote, ⟨quote, body, _, isBody, rfl⟩, isInner⟩
    cases startsWithQuote
    have sameInner : inner = body := by simpa using isInner
    rw [sameInner]
    exact ⟨isBody, rfl⟩

theorem leavesAtEnd_of_charLiteral?
    {text body : Text} (found : charLiteral? text = some body) :
    Quotes.outside.LeavesAtEnd text := by
  obtain ⟨isBody, rfl⟩ := literalBody_of_charLiteral? found
  exact leavesAtEnd_literal rfl isBody

/-- All readers of literals agree with the reading that keeps track of them.
The end of a literal that opens where no other one is open is the first place at
which the reading leaves it, or the end of the text.  A text is a string literal
exactly if it starts with a double quote and the reading leaves the literal at
its last character, and also at that of a character literal. -/
theorem literal_readers_agree :
    (∀ (before : Text) (quote : Char) (rest : Text), Quotes.isQuote quote →
      Quotes.outside.after before = .outside →
        (∀ literal after, quote :: rest = literal ++ after →
          (Quotes.outside.after before).LeavesAtEnd literal →
            literalEnd? (before ++ quote :: rest) (byteLength before) =
              some (byteLength (before ++ literal))) ∧
        ((∀ literal after, quote :: rest = literal ++ after →
            ¬ (Quotes.outside.after before).LeavesAtEnd literal) →
          literalEnd? (before ++ quote :: rest) (byteLength before) =
            some (byteLength (before ++ quote :: rest))) ∧
        (literalEnd? (before ++ quote :: rest) (byteLength before)).bind
            (dropBytes? · (before ++ quote :: rest)) =
          some (spanLiteral quote rest).2) ∧
    (∀ text inner, stringLiteral? text = some inner ↔
      text.head? = some '"' ∧ Quotes.outside.LeavesAtEnd text ∧
        inner = text.tail.dropLast) ∧
    ∀ text body, charLiteral? text = some body →
      Quotes.outside.LeavesAtEnd text := by
  refine ⟨?_, ?_, ?_⟩
  · intro before quote rest isQuote outside
    rw [outside]
    refine ⟨?_, ?_, dropBytes?_literalEnd? before quote rest⟩
    · intro literal after whole leaves
      rw [literalEnd?_append, spanLiteral_of_leavesAtEnd whole leaves]
    · intro never
      rw [literalEnd?_append, spanLiteral_of_never_left isQuote never]
  · intro text inner
    exact stringLiteral?_eq_some_iff_leavesAtEnd
  · intro text body found
    exact leavesAtEnd_of_charLiteral? found

/-- A text in which a literal opens behind a character literal and a letter of
two bytes.  It has an escaped quote, a quote of the other kind and an escaped
backslash, and text behind it. -/
def quotedInTheMiddle : Text :=
  ['\'', '"', '\'', 'é'] ++ '"' ::
    (['a', '\\', '"', '\'', '\\', '\\', '"'] ++ ['"', 'x'])

/-- The literal in `quotedInTheMiddle` starts at byte 5, behind a letter of two
bytes, and ends before byte 13. -/
theorem literal_readers_agree_of_quotedInTheMiddle :
    Quotes.isQuote '"' ∧
      Quotes.outside.after ['\'', '"', '\'', 'é'] = .outside ∧
      Quotes.outside.LeavesAtEnd ['"', 'a', '\\', '"', '\'', '\\', '\\', '"'] ∧
      literalEnd? quotedInTheMiddle 5 = some 13 ∧
      charLiteral? ['\'', '"', '\''] = some ['"'] ∧
      Quotes.outside.LeavesAtEnd ['\'', '"', '\''] := by
  obtain ⟨ends, strings, characters⟩ := literal_readers_agree
  have isString : stringLiteral? ['"', 'a', '\\', '"', '\'', '\\', '\\', '"'] =
      some ['a', '\\', '"', '\'', '\\', '\\'] := by
    decide +kernel
  have leaves := ((strings _ _).mp isString).2.1
  have isChar : charLiteral? ['\'', '"', '\''] = some ['"'] := by decide +kernel
  have isEnd :=
    (ends ['\'', '"', '\'', 'é'] '"' _ rfl rfl).1 _ ['"', 'x'] rfl leaves
  exact ⟨rfl, rfl, leaves, isEnd, isChar, characters _ _ isChar⟩

end Text
end LineScript
