import LineScript.Proofs.Text.Length
import LineScript.Source.Program

/-!
Blocks of lines, which end where all their curly brackets are closed, and chains
of blocks that go on with one another.
-/

namespace LineScript

open Text

namespace Text

/-- Opening minus closing curly brackets of lines, outside literals. -/
def balance : List Text → Int
  | [] => 0
  | line :: later => braceBalance line + balance later

@[simp]
theorem balance_nil : balance [] = 0 := rfl

@[simp]
theorem balance_cons (line : Text) (later : List Text) :
    balance (line :: later) = braceBalance line + balance later := rfl

@[simp]
theorem balance_append (before after : List Text) :
    balance (before ++ after) = balance before + balance after := by
  induction before with
  | nil => rw [List.nil_append, balance_nil, Int.zero_add]
  | cons line before inductionHypothesis =>
      rw [List.cons_append, balance_cons, inductionHypothesis, balance_cons,
        Int.add_assoc]

/-- The last line closes all brackets, `opened` of them before the first line,
and no line before it does. -/
structure Closes (opened : Int) (block : List Text) : Prop where
  nonempty : block ≠ []
  closed : opened + balance block ≤ 0
  stillOpen : ∀ count, 0 < count → count < block.length →
    0 < opened + balance (block.take count)

variable {opened : Int} {block lines : List Text} {line : Text}

/-- Brackets are closed by a line if none is open behind it, and otherwise by
the lines that follow. -/
theorem closes_cons_iff {later : List Text} :
    Closes opened (line :: later) ↔
      (opened + braceBalance line ≤ 0 ∧ later = []) ∨
        (0 < opened + braceBalance line ∧
          Closes (opened + braceBalance line) later) := by
  constructor
  · rintro ⟨_, closed, stillOpen⟩
    cases later with
    | nil => exact .inl ⟨by simpa using closed, rfl⟩
    | cons next further =>
        have afterLine := stillOpen 1 (by simp) (by simp)
        simp only [List.take_succ_cons, List.take_zero, balance_cons,
          balance_nil] at afterLine
        refine .inr ⟨by omega, List.cons_ne_nil _ _, ?_, ?_⟩
        · rw [balance_cons] at closed
          omega
        · intro count positive inside
          have afterCount :=
            stillOpen (count + 1) (by omega) (by simpa using inside)
          rw [List.take_succ_cons, balance_cons] at afterCount
          omega
  · rintro (⟨closed, rfl⟩ | ⟨afterLine, nonempty, closed, stillOpen⟩)
    · refine ⟨List.cons_ne_nil _ _, by simpa using closed, ?_⟩
      intro count positive inside
      rw [List.length_singleton] at inside
      omega
    · refine ⟨List.cons_ne_nil _ _, by rw [balance_cons]; omega, ?_⟩
      intro count positive inside
      obtain ⟨count, rfl⟩ := Nat.exists_eq_add_one.mpr positive
      rw [List.take_succ_cons, balance_cons]
      rcases Nat.eq_zero_or_pos count with rfl | more
      · simpa using afterLine
      · have afterCount := stillOpen count more (by simpa using inside)
        omega

theorem closes_take
    {length : Nat} (found : blockLengthFrom? opened lines = some length) :
    Closes opened (lines.take length) := by
  induction lines generalizing opened length with
  | nil => cases found
  | cons line later inductionHypothesis =>
      rw [blockLengthFrom?] at found
      split at found
      · next closed =>
          cases found
          exact closes_cons_iff.mpr (.inl ⟨closed, rfl⟩)
      · next notClosed =>
          obtain ⟨count, foundLater, rfl⟩ := Option.map_eq_some_iff.mp found
          rw [List.take_succ_cons]
          exact closes_cons_iff.mpr
            (.inr ⟨by omega, inductionHypothesis foundLater⟩)

theorem Closes.blockLengthFrom?_append
    (closes : Closes opened block) (rest : List Text) :
    blockLengthFrom? opened (block ++ rest) = some block.length := by
  induction block generalizing opened with
  | nil => exact absurd rfl closes.nonempty
  | cons line later inductionHypothesis =>
      rw [List.cons_append, blockLengthFrom?]
      rcases closes_cons_iff.mp closes
        with ⟨closed, rfl⟩ | ⟨stillOpen, closesLater⟩
      · simp only [if_pos closed]
        rfl
      · simp only [if_neg (Int.not_le.mpr stillOpen),
          inductionHypothesis closesLater]
        rfl

/-- The last line of a block can be any line that closes as much. -/
theorem Closes.replace_last
    {before : List Text} {last other : Text}
    (closes : Closes opened (before ++ [last]))
    (closesMore : braceBalance other ≤ braceBalance last) :
    Closes opened (before ++ [other]) := by
  obtain ⟨_, closed, stillOpen⟩ := closes
  refine ⟨by simp, ?_, ?_⟩
  · simp only [balance_append, balance_cons, balance_nil] at closed ⊢
    omega
  · intro count positive inside
    have afterCount := stillOpen count positive (by simpa using inside)
    have within : count ≤ before.length := by
      rw [List.length_append, List.length_singleton] at inside
      omega
    rw [List.take_append_of_le_length within] at afterCount ⊢
    exact afterCount

theorem Closes.balance_last_neg
    {before : List Text} {last : Text}
    (closes : Closes opened (before ++ [last]))
    (nonempty : before ≠ []) : braceBalance last < 0 := by
  obtain ⟨_, closed, stillOpen⟩ := closes
  have beforeLast :=
    stillOpen before.length (List.length_pos_iff.mpr nonempty) (by simp)
  rw [List.take_left] at beforeLast
  simp only [balance_append, balance_cons, balance_nil] at closed
  omega

end Text

namespace Program

variable {lines block rest : List CodeLine}

def IsBlock (block : List CodeLine) : Prop :=
  Closes 0 (CodeLine.texts block)

theorem IsBlock.nonempty (isBlock : IsBlock block) : block ≠ [] := by
  rintro rfl
  exact Closes.nonempty isBlock rfl

theorem IsBlock.blockLength?_append
    (isBlock : IsBlock block) (rest : List CodeLine) :
    blockLength? (CodeLine.texts (block ++ rest)) = some block.length := by
  have found := Closes.blockLengthFrom?_append isBlock (CodeLine.texts rest)
  rw [CodeLine.texts, CodeLine.texts, ← List.map_append,
    List.length_map] at found
  exact found

theorem exists_block
    {length : Nat} (found : blockLength? (CodeLine.texts lines) = some length) :
    ∃ block rest, lines = block ++ rest ∧ IsBlock block ∧
      block.length = length := by
  have bounds := blockLength?_bounds found
  rw [CodeLine.texts, List.length_map] at bounds
  refine ⟨lines.take length, lines.drop length,
    (List.take_append_drop _ _).symm, ?_, ?_⟩
  · rw [IsBlock, CodeLine.texts, List.map_take]
    exact closes_take found
  · rw [List.length_take]
    omega

/-- The last line of a block may close more brackets than it has to. -/
theorem IsBlock.replace_last
    {opening closing other : CodeLine} {inner : List CodeLine}
    (isBlock : IsBlock (opening :: (inner ++ [closing])))
    (closesMore : braceBalance other.text ≤ braceBalance closing.text) :
    IsBlock (opening :: (inner ++ [other])) := by
  rw [IsBlock, CodeLine.texts, ← List.cons_append, List.map_append] at isBlock ⊢
  exact Closes.replace_last isBlock closesMore

theorem IsBlock.balance_last_neg
    {opening closing : CodeLine} {inner : List CodeLine}
    (isBlock : IsBlock (opening :: (inner ++ [closing]))) :
    braceBalance closing.text < 0 := by
  rw [IsBlock, CodeLine.texts, ← List.cons_append, List.map_append] at isBlock
  exact Closes.balance_last_neg isBlock (List.cons_ne_nil _ _)

/-- A block that a header opens has an opening line and a closing line of its
own. -/
theorem exists_closing_line
    {opening : CodeLine} {later : List CodeLine}
    (isBlock : IsBlock (opening :: later))
    (opens : braceBalance opening.text = 1) :
    ∃ inner closing, later = inner ++ [closing] := by
  rcases closes_cons_iff.mp isBlock with ⟨closed, _⟩ | ⟨_, closesLater⟩
  · omega
  · rcases List.eq_nil_or_concat later with rfl | ⟨inner, closing, whole⟩
    · exact absurd rfl closesLater.nonempty
    · exact ⟨inner, closing, whole.trans List.concat_eq_append⟩

def continues (lines : List CodeLine) : Bool :=
  lines.head?.any fun line => continuesBlock line.text

theorem continues_append (nonempty : block ≠ []) (rest : List CodeLine) :
    continues (block ++ rest) = continues block := by
  cases block with
  | nil => exact absurd rfl nonempty
  | cons line later => rfl

/-- A block and the blocks that go on with it. -/
inductive Chain : List CodeLine → Prop
  | last {block : List CodeLine} (isBlock : IsBlock block) : Chain block
  | more {block later : List CodeLine} (isBlock : IsBlock block)
      (goesOn : continues later)
      (chain : Chain later) : Chain (block ++ later)

theorem IsBlock.chainLength_append
    (isBlock : IsBlock block) (rest : List CodeLine) :
    chainLength (block ++ rest) =
      if continues rest then
        (chainLength rest).map (block.length + ·)
      else
        .ok block.length := by
  have isLength := isBlock.blockLength?_append rest
  have isRest : (block ++ rest).drop block.length = rest := List.drop_left
  cases block with
  | nil => exact absurd rfl isBlock.nonempty
  | cons line later =>
      rw [List.cons_append] at isLength isRest ⊢
      rw [chainLength]
      split
      · next notFound =>
          rw [notFound] at isLength
          cases isLength
      · next length found =>
          rw [found] at isLength
          cases isLength
          split
          · next atEnd =>
              rw [atEnd] at isRest
              rw [← isRest]
              rfl
          · next next further notAtEnd =>
              rw [notAtEnd] at isRest
              rw [← isRest]
              rfl

theorem Chain.nonempty {chain : List CodeLine} (isChain : Chain chain) :
    chain ≠ [] := by
  cases isChain with
  | last isBlock => exact isBlock.nonempty
  | more isBlock _ _ =>
      exact List.append_ne_nil_of_left_ne_nil isBlock.nonempty _

/-- A chain ends where no line goes on with it. -/
theorem Chain.chainLength_append {chain : List CodeLine} (isChain : Chain chain)
    (ends : continues rest = false) :
    chainLength (chain ++ rest) = .ok chain.length := by
  induction isChain with
  | last isBlock => rw [isBlock.chainLength_append, ends]; rfl
  | more isBlock goesOn chain inductionHypothesis =>
      rw [List.append_assoc, isBlock.chainLength_append,
        continues_append chain.nonempty, if_pos goesOn, inductionHypothesis,
        List.length_append]
      rfl

/-- The lines counted are a chain, and what follows does not go on with it. -/
theorem exists_chain {lines : List CodeLine} {length : Nat}
    (nonempty : lines ≠ []) (found : chainLength lines = .ok length) :
    ∃ chain rest, lines = chain ++ rest ∧ Chain chain ∧ continues rest = false ∧
      chain.length = length := by
  cases isLength : blockLength? (CodeLine.texts lines) with
  | none =>
      cases lines with
      | nil => exact absurd rfl nonempty
      | cons line later =>
          rw [chainLength] at found
          split at found
          · cases found
          · next isSome =>
              rw [isSome] at isLength
              cases isLength
  | some blockLength =>
      obtain ⟨block, rest, whole, isBlock, _⟩ := exists_block isLength
      have shorter : rest.length < lines.length := by
        have positive := List.length_pos_iff.mpr isBlock.nonempty
        rw [whole, List.length_append]
        omega
      rw [whole, isBlock.chainLength_append] at found
      split at found
      · next goesOn =>
          obtain ⟨restLength, foundRest, rfl⟩ := exists_ok_of_map found
          have restNonempty : rest ≠ [] := by
            rintro rfl
            cases goesOn
          obtain ⟨chain, after, rfl, isChain, ends, rfl⟩ :=
            exists_chain restNonempty foundRest
          rw [continues_append isChain.nonempty] at goesOn
          refine ⟨block ++ chain, after, ?_, .more isBlock goesOn isChain, ends,
            List.length_append⟩
          rw [whole, List.append_assoc]
      · next ends =>
          cases found
          exact ⟨block, rest, whole, .last isBlock,
            Bool.not_eq_true _ |>.mp ends, rfl⟩
termination_by lines.length

end Program

end LineScript
