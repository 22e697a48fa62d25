import LineScript.Proofs.Source.Layout

/-!
Carving lines by their indices.

An index moves over the lines of code.  Each round reads one item at the index
and moves it behind the lines of the item.  Here every access to the lines is
checked.  None of them is out of range, since a header opens one block and so
ends on a later line, and the rounds give the items that the carving of a list
of lines gives.
-/

namespace LineScript

open Text

theorem Item.Covers.nonempty
    {item : Item} {group : List CodeLine} (covers : item.Covers group) :
    group ≠ [] := by
  obtain ⟨first, others, isGroup, _⟩ := covers.exists_first
  rw [isGroup]
  exact List.cons_ne_nil first others

namespace Program

/-- The lines from `start` up to `stop`, if these are in order and in range. -/
def slice? (lines : List Text) (start stop : Nat) : Option (List Text) :=
  if start ≤ stop ∧ stop ≤ lines.length then
    some (lines.extract start stop)
  else
    none

/-- The index of the last line of the block at `start` and of the blocks that go
on with it. There is no result if a line is asked for that is out of range, or
after that many `rounds`. -/
def chainEnd? (code : List CodeLine) :
    (rounds start : Nat) → Option (Except SourceFault Nat)
  | 0, _ => none
  | rounds + 1, start =>
      match code[start]? with
      | none => none
      | some line =>
          match blockEnd? (CodeLine.texts code) start with
          | none => some (.error (.unclosedBrace line.number))
          | some stop =>
              match code[stop + 1]? with
              | none => some (.ok stop)
              | some next =>
                  if continuesBlock next.text then
                    chainEnd? code rounds (stop + 1)
                  else
                    some (.ok stop)

/-- The function of a header at `index` whose block ends at `stop`, and the next
index. -/
def functionRound? (code : List CodeLine) (index : Nat) (line : CodeLine)
    (header : Header)
    (stop : Nat) : Option (Except SourceFault (Item × Nat)) :=
  (slice? (CodeLine.texts code) (index + 1) stop).map fun body =>
    let definition : Function :=
      { name := header.name
        parameters := header.parameters
        returns := header.returns
        body := body }
    .ok ({ line := line.number, kind := .function header.style definition },
      stop + 1)

/-- The lines from `index` to `stop` that are passed over, and the next index.
The number of lines is a difference, so it must not be negative. -/
def skippedRound?
    (index : Nat) (line : CodeLine) (keyword : BlockKeyword) (stop : Nat) :
    Option (Except SourceFault (Item × Nat)) :=
  if index ≤ stop then
    some (.ok
      ({ line := line.number, kind := .skipped keyword (stop - index + 1) },
        stop + 1))
  else
    none

/-- The item at an index and the index behind its lines.  There is no result if
an access is out of range. -/
def round? (code : List CodeLine) (index : Nat) :
    Option (Except SourceFault (Item × Nat)) :=
  match code[index]? with
  | none => none
  | some line =>
  match import? line.text with
  | some moduleName =>
      some (.ok
        ({ line := line.number, kind := .importing moduleName }, index + 1))
  | none =>
  match Header.read? line.number line.text with
  | .error fault => some (.error fault)
  | .ok (some header) =>
      match blockEnd? (CodeLine.texts code) index with
      | none => some (.error (.unclosedBrace line.number))
      | some stop => functionRound? code index line header stop
  | .ok none =>
  match blockOpening? line.text with
  | some keyword =>
      match chainEnd? code code.length index with
      | none => none
      | some (.error fault) => some (.error fault)
      | some (.ok stop) => skippedRound? index line keyword stop
  | none =>
      some (.ok
        ({ line := line.number, kind := .statement line.text }, index + 1))

/-- The items from an index on, in at most that many rounds. -/
def scanRounds? (code : List CodeLine) :
    (rounds index : Nat) → Option (Except SourceFault (List Item))
  | 0, index => if index < code.length then none else some (.ok [])
  | rounds + 1, index =>
      if index < code.length then
        match round? code index with
        | none => none
        | some (.error fault) => some (.error fault)
        | some (.ok (item, next)) =>
            (scanRounds? code rounds next).map fun later =>
              later.map (item :: ·)
      else
        some (.ok [])

section Blocks

variable {code block rest : List CodeLine} {index : Nat}

theorem texts_drop (code : List CodeLine) (count : Nat) :
    (CodeLine.texts code).drop count = CodeLine.texts (code.drop count) :=
  List.map_drop.symm

theorem drop_behind (lies : code.drop index = block ++ rest) :
    code.drop (index + block.length) = rest := by
  rw [← List.drop_drop, lies, List.drop_left]

theorem length_of_drop
    (nonempty : block ≠ []) (lies : code.drop index = block ++ rest) :
    index + block.length + rest.length = code.length := by
  have lengths := congrArg List.length lies
  have positive := List.length_pos_iff.mpr nonempty
  rw [List.length_drop, List.length_append] at lengths
  omega

theorem getElem?_of_drop {line : CodeLine} {later : List CodeLine}
    (lies : code.drop index = line :: later) : code[index]? = some line := by
  have first := congrArg List.head? lies
  rwa [List.head?_drop] at first

/-- A block among the lines of a program ends at the index of its last line. -/
theorem IsBlock.blockEnd?_eq
    (isBlock : IsBlock block) (lies : code.drop index = block ++ rest) :
    blockEnd? (CodeLine.texts code) index =
      some (index + block.length - 1) := by
  rw [blockEnd?, texts_drop, lies, isBlock.blockLength?_append]
  rfl

theorem blockEnd?_eq_none {later : List CodeLine}
    (lies : code.drop index = later)
    (unclosed : blockLength? (CodeLine.texts later) = none) :
    blockEnd? (CodeLine.texts code) index = none := by
  rw [blockEnd?, texts_drop, lies, unclosed]
  rfl

theorem chainLength_of_unclosed {line : CodeLine} {later : List CodeLine}
    (unclosed : blockLength? (CodeLine.texts (line :: later)) = none) :
    chainLength (line :: later) = .error (.unclosedBrace line.number) := by
  rw [chainLength]
  split
  · rfl
  · next closed => cases unclosed.symm.trans closed

/-- The lines between the two ends of a block. -/
theorem slice?_of_block {opening closing : CodeLine} {inner : List CodeLine}
    (lies : code.drop index = (opening :: (inner ++ [closing])) ++ rest) :
    slice? (CodeLine.texts code) (index + 1) (index + inner.length + 1) =
      some (CodeLine.texts inner) := by
  have lengths := length_of_drop (List.cons_ne_nil _ _) lies
  rw [List.length_cons, List.length_append, List.length_singleton] at lengths
  have inRange : index + 1 ≤ index + inner.length + 1 ∧
      index + inner.length + 1 ≤ (CodeLine.texts code).length := by
    rw [CodeLine.texts, List.length_map]
    omega
  have behindOpening : code.drop (index + 1) = inner ++ (closing :: rest) := by
    rw [← List.drop_drop, lies]
    simp
  have count : index + inner.length + 1 - (index + 1) = inner.length := by omega
  rw [slice?, if_pos inRange, List.extract_eq_take_drop, texts_drop,
    behindOpening, count, CodeLine.texts, ← List.map_take, List.take_left]
  rfl

end Blocks

/-- The rounds over a chain of blocks count its lines. -/
theorem chainEnd?_eq
    {code : List CodeLine} {rounds start : Nat} (known : start < code.length)
    (enough : code.length - start ≤ rounds) :
    chainEnd? code rounds start =
      some ((chainLength (code.drop start)).map (start + · - 1)) := by
  induction rounds generalizing start with
  | zero => omega
  | succ rounds inductionHypothesis =>
      obtain ⟨line, later, lies⟩ :
        ∃ line later, code.drop start = line :: later :=
        ⟨_, _, List.drop_eq_getElem_cons known⟩
      rw [chainEnd?, getElem?_of_drop lies]
      cases isLength : blockLength? (CodeLine.texts (line :: later)) with
      | none =>
          rw [lies, chainLength_of_unclosed isLength,
            blockEnd?_eq_none lies isLength]
          rfl
      | some length =>
          obtain ⟨block, rest, whole, isBlock, _⟩ := exists_block isLength
          rw [whole] at lies
          have positive := List.length_pos_iff.mpr isBlock.nonempty
          have lengths := length_of_drop isBlock.nonempty lies
          have behind := drop_behind lies
          have next :
              start + block.length - 1 + 1 = start + block.length := by omega
          rw [lies, isBlock.blockEnd?_eq lies, isBlock.chainLength_append]
          dsimp only
          rw [next]
          cases rest with
          | nil =>
              rw [List.getElem?_eq_none (by simp at lengths; omega)]
              rfl
          | cons following further =>
              rw [getElem?_of_drop behind]
              dsimp only
              cases goesOn : continuesBlock following.text with
              | false =>
                  have ends : continues (following :: further) = false := goesOn
                  rw [ends]
                  rfl
              | true =>
                  have continued :
                      continues (following :: further) = true := goesOn
                  rw [List.length_cons] at lengths
                  rw [if_pos rfl, continued, if_pos rfl,
                    inductionHypothesis (by omega) (by omega), behind]
                  cases chainLength (following :: further) with
                  | error fault => rfl
                  | ok length =>
                      show some
                          (Except.ok (start + block.length + length - 1)) =
                        some (Except.ok (start + (block.length + length) - 1))
                      rw [Nat.add_assoc]

/-! ## One round -/

section Round

variable {code later : List CodeLine} {index : Nat} {line : CodeLine}

/-- The block that a header opens, with a closing line of its own. -/
theorem exists_block_of_header
    {header : Header} {length : Nat}
    (isHeader : Header.read? line.number line.text = .ok (some header))
    (isLength : blockLength? (CodeLine.texts (line :: later)) = some length) :
    ∃ inner closing rest, line :: later =
      (line :: (inner ++ [closing])) ++ rest ∧
      IsBlock (line :: (inner ++ [closing])) := by
  obtain ⟨block, rest, whole, isBlock, _⟩ := exists_block isLength
  obtain ⟨opening, more, rfl⟩ := List.exists_cons_of_ne_nil isBlock.nonempty
  cases List.head_eq_of_cons_eq whole
  obtain ⟨inner, closing, rfl⟩ :=
    exists_closing_line isBlock (Header.braceBalance_of_read? isHeader)
  exact ⟨inner, closing, rest, whole, isBlock⟩

/-- A header ends on a later line, which is in range. -/
theorem blockEnd?_of_header
    {header : Header} {stop : Nat} (lies : code[index]? = some line)
    (isHeader : Header.read? line.number line.text = .ok (some header))
    (found : blockEnd? (CodeLine.texts code) index = some stop) :
    index < stop ∧ stop < code.length := by
  obtain ⟨known, isLine⟩ := List.getElem?_eq_some_iff.mp lies
  have lines := List.drop_eq_getElem_cons known
  rw [isLine] at lines
  cases isLength :
    blockLength? (CodeLine.texts (line :: code.drop (index + 1))) with
  | none => cases (blockEnd?_eq_none lines isLength).symm.trans found
  | some length =>
      obtain ⟨inner, closing, rest, whole, isBlock⟩ :=
        exists_block_of_header isHeader isLength
      rw [whole] at lines
      have lengths := length_of_drop isBlock.nonempty lines
      have isStop := (isBlock.blockEnd?_eq lines).symm.trans found
      rw [Option.some.injEq] at isStop
      rw [List.length_cons, List.length_append,
        List.length_singleton] at lengths isStop
      omega

theorem lt_of_drop (lies : code.drop index = line :: later) :
    index < code.length := by
  have lengths := congrArg List.length lies
  rw [List.length_drop, List.length_cons] at lengths
  omega

/-- The search by indices finds the end that counting lines finds, or the same
fault. -/
theorem chainEnd?_of_chainLength
    {result : Except SourceFault Nat} (lies : code.drop index = line :: later)
    (counted : chainLength (line :: later) = result) :
    chainEnd? code code.length index = some (result.map (index + · - 1)) := by
  rw [chainEnd?_eq (lt_of_drop lies) (Nat.sub_le _ _), lies, counted]

/-- The round at the lines of an item gives this item and moves behind them. -/
theorem round?_of_covers
    {item : Item} {group rest : List CodeLine} (covers : item.Covers group)
    (ends : item.isSkipped → continues rest = false)
    (lies : code.drop index = group ++ rest) :
    round? code index = some (.ok (item, index + group.length)) := by
  cases covers with
  | importing isImport =>
      have isLine := getElem?_of_drop lies
      simp only [round?, isLine, isImport, List.length_singleton]
  | @function opening closing inner header notImport isHeader isBlock =>
      have isLine := getElem?_of_drop lies
      have isEnd := isBlock.blockEnd?_eq lies
      have lengths :
          (opening :: (inner ++ [closing])).length = inner.length + 2 := by simp
      have stop :
          index + (inner.length + 2) - 1 = index + inner.length + 1 := by omega
      have next :
          index + inner.length + 1 + 1 = index + (inner.length + 2) := by omega
      rw [lengths, stop] at isEnd
      simp only [round?, isLine, notImport, isHeader, isEnd, functionRound?,
        slice?_of_block lies, Option.map_some, lengths, next]
  | @skipped line later keyword notImport notHeader opens isChain =>
      have isLine := getElem?_of_drop lies
      have counted := isChain.chainLength_append (ends rfl)
      have isStop : chainEnd? code code.length index =
          some (.ok (index + (line :: later).length - 1)) :=
        chainEnd?_of_chainLength lies counted
      have positive : 0 < (line :: later).length := Nat.succ_pos _
      have inOrder : index ≤ index + (line :: later).length - 1 := by omega
      have count :
          index + (line :: later).length - 1 - index + 1 =
            (line :: later).length := by
        omega
      have next :
          index + (line :: later).length - 1 + 1 =
            index + (line :: later).length := by
        omega
      simp only [round?, isLine, notImport, notHeader, opens, isStop,
        skippedRound?, if_pos inOrder, count, next]
  | statement notImport notHeader notBlock =>
      have isLine := getElem?_of_drop lies
      simp only [round?, isLine, notImport, notHeader, notBlock,
        List.length_singleton]

/-- What comes of a round: the fault that the carving ends with, or the next
item, which covers the lines that the index moves over. -/
theorem round?_cases (lies : code.drop index = line :: later) :
    (∃ fault, round? code index = some (.error fault) ∧
      scanItems (line :: later) = .error fault) ∨
    ∃ (item : Item) (group rest : List CodeLine), line :: later =
      group ++ rest ∧
      item.Covers group ∧ (item.isSkipped → continues rest = false) ∧
      round? code index = some (.ok (item, index + group.length)) := by
  have isLine := getElem?_of_drop lies
  have succeeds :
      ∀ {item : Item} {group rest : List CodeLine}, line :: later =
        group ++ rest →
      item.Covers group → (item.isSkipped → continues rest = false) →
        ∃ (item : Item) (group rest : List CodeLine), line :: later =
          group ++ rest ∧
          item.Covers group ∧ (item.isSkipped → continues rest = false) ∧
          round? code index = some (.ok (item, index + group.length)) :=
    fun whole covers ends =>
      ⟨_, _, _, whole, covers, ends,
        round?_of_covers covers ends (lies.trans whole)⟩
  cases isImport : import? line.text with
  | some moduleName =>
      exact .inr
        (succeeds (List.singleton_append (x := line)).symm (.importing isImport)
        (absurd · Bool.false_ne_true))
  | none =>
      cases isHeader : Header.read? line.number line.text with
      | error fault =>
          refine .inl ⟨fault, ?_, ?_⟩
          · simp only [round?, isLine, isImport, isHeader]
          · simp only [scanItems, isImport, isHeader]
      | ok found =>
          cases found with
          | some header =>
              cases isLength :
                blockLength? (CodeLine.texts (line :: later)) with
              | none =>
                  refine .inl ⟨.unclosedBrace line.number, ?_, ?_⟩
                  · simp only [round?, isLine, isImport, isHeader,
                      blockEnd?_eq_none lies isLength]
                  · simp only [scanItems, isImport, isHeader, isLength]
              | some length =>
                  obtain ⟨inner, closing, rest, whole, isBlock⟩ :=
                    exists_block_of_header isHeader isLength
                  exact .inr
                    (succeeds whole (.function isImport isHeader isBlock)
                    (absurd · Bool.false_ne_true))
          | none =>
              cases opens : blockOpening? line.text with
              | none =>
                  exact .inr
                    (succeeds (List.singleton_append (x := line)).symm
                      (.statement isImport isHeader opens)
                    (absurd · Bool.false_ne_true))
              | some keyword =>
                  cases counted : chainLength (line :: later) with
                  | error fault =>
                      have isStop :
                          chainEnd? code code.length index =
                            some (.error fault) :=
                        chainEnd?_of_chainLength lies counted
                      refine .inl ⟨fault, ?_, ?_⟩
                      · simp only [round?, isLine, isImport, isHeader, opens,
                          isStop]
                      · simp only [scanItems, isImport, isHeader, opens,
                          counted]
                  | ok length =>
                      obtain ⟨chain, rest, whole, isChain, ends, _⟩ :=
                        exists_chain (List.cons_ne_nil _ _) counted
                      obtain ⟨first, more, rfl⟩ :=
                        List.exists_cons_of_ne_nil isChain.nonempty
                      cases List.head_eq_of_cons_eq whole
                      exact .inr
                        (succeeds whole
                          (.skipped isImport isHeader opens isChain)
                        fun _ => ends)

/-- Every round has a result and moves the index forward, by the number of lines
that it passes over if the item is made of such. -/
theorem exists_round (known : index < code.length) :
    ∃ outcome, round? code index = some outcome ∧
      ∀ item next, outcome = .ok (item, next) →
        index < next ∧ next ≤ code.length ∧
          ∀ keyword count, item.kind = .skipped keyword count →
            1 ≤ count ∧ next = index + count := by
  have lies := List.drop_eq_getElem_cons known
  rcases round?_cases lies
    with ⟨fault, failed, _⟩ | ⟨item, group, rest, whole, covers, _, moved⟩
  · refine ⟨_, failed, ?_⟩
    intro item next succeeded
    cases succeeded
  · refine ⟨_, moved, ?_⟩
    intro sameItem next same
    cases same
    have positive := List.length_pos_iff.mpr covers.nonempty
    have lengths := length_of_drop covers.nonempty (lies.trans whole)
    refine ⟨by omega, by omega, ?_⟩
    intro keyword count isSkipped
    cases covers with
    | importing _ => cases isSkipped
    | function _ _ _ => cases isSkipped
    | statement _ _ _ => cases isSkipped
    | skipped _ _ _ _ =>
        cases isSkipped
        exact ⟨positive, rfl⟩

end Round

/-! ## All rounds -/

theorem scanItems_of_beyond
    {code : List CodeLine} {index : Nat} (beyond : ¬ index < code.length) :
    scanItems (code.drop index) = .ok [] := by
  rw [List.drop_eq_nil_of_le (Nat.le_of_not_lt beyond), scanItems]

/-- As many rounds as there are lines left suffice, and give the items of these
lines. -/
theorem scanRounds?_eq
    {code : List CodeLine} {rounds index : Nat}
    (enough : code.length - index ≤ rounds) :
    scanRounds? code rounds index = some (scanItems (code.drop index)) := by
  induction rounds generalizing index with
  | zero =>
      have beyond : ¬ index < code.length := by omega
      rw [scanRounds?, if_neg beyond, scanItems_of_beyond beyond]
  | succ rounds inductionHypothesis =>
      rw [scanRounds?]
      split
      · next known =>
          have lies := List.drop_eq_getElem_cons known
          rcases round?_cases lies with
            ⟨fault, failed, scanned⟩ | ⟨item, group, rest, whole, covers,
              ends, moved⟩
          · rw [failed, lies, scanned]
          · have positive := List.length_pos_iff.mpr covers.nonempty
            have behind := drop_behind (lies.trans whole)
            have scanned : scanRounds? code rounds (index + group.length) =
                some (scanItems rest) := by
              rw [inductionHypothesis (by omega), behind]
            rw [moved, lies, whole, covers.scanItems_append ends]
            dsimp only
            rw [scanned]
            rfl
      · next beyond => rw [scanItems_of_beyond beyond]

/-- Scanning stays in range.  A header opens one block, so that its block ends
on a later line and its body lies between the two; its parameters lie between
the brackets.  Each round of the carving has a result and moves forward, and
passes over one line at least where it passes over lines.  As many rounds as
there are lines of code give the program. -/
theorem scanning_stays_in_range (lines : List Text) :
    (∀ index line header, (CodeLine.ofLines lines)[index]? = some line →
      Header.read? line.number line.text = .ok (some header) →
        braceBalance line.text = 1 ∧
        ∀ stop, blockEnd? (CodeLine.texts (CodeLine.ofLines lines)) index =
          some stop →
          index < stop ∧ stop < (CodeLine.ofLines lines).length) ∧
    (∀ inner opened after, closeParen ('(' :: inner) = some (opened, after) →
      1 ≤ opened.length ∧ opened.length < ('(' :: inner).length) ∧
    (∀ index < (CodeLine.ofLines lines).length,
      ∃ outcome, round? (CodeLine.ofLines lines) index = some outcome ∧
        ∀ item next, outcome = .ok (item, next) →
          index < next ∧ next ≤ (CodeLine.ofLines lines).length ∧
            ∀ keyword count, item.kind = .skipped keyword count →
              1 ≤ count ∧ next = index + count) ∧
    (scanRounds? (CodeLine.ofLines lines) (CodeLine.ofLines lines).length 0).map
        (Except.map Program.mk) =
      some (scan lines) := by
  refine ⟨?_, ?_, fun index known => exists_round known, ?_⟩
  · intro index line header isLine isHeader
    exact ⟨Header.braceBalance_of_read? isHeader,
      fun stop found => blockEnd?_of_header isLine isHeader found⟩
  · intro inner opened after closed
    have whole := eq_append_of_closeParen closed
    have lengths := length_of_closeParenFrom closed
    cases opened with
    | nil => cases whole
    | cons first others => exact ⟨Nat.succ_pos _, by omega⟩
  · rw [scanRounds?_eq (Nat.sub_le _ 0), List.drop_zero]
    rfl

def nestedHeader : Header :=
  { style := .typed
    name := ['f']
    parameters := [{ name := ['x'], tag := .int64 }]
    returns := .void }

/-- The function and the chain of `nested` end at indices of lines, behind which
the next round starts. -/
theorem scanning_stays_in_range_of_nested :
    (CodeLine.ofLines nested)[1]? =
        some ⟨3, "fn f(x: Int64) ".toList ++ ['{']⟩ ∧
      Header.read? 3 ("fn f(x: Int64) ".toList ++ ['{']) =
        .ok (some nestedHeader) ∧
      braceBalance ("fn f(x: Int64) ".toList ++ ['{']) = 1 ∧
      blockEnd? (CodeLine.texts (CodeLine.ofLines nested)) 1 = some 5 ∧
      5 < (CodeLine.ofLines nested).length ∧
      round? (CodeLine.ofLines nested) 6 =
        some (.ok (⟨9, .skipped .ifWord 2⟩, 8)) ∧ 6 < 8 ∧
      (scanRounds? (CodeLine.ofLines nested)
        (CodeLine.ofLines nested).length 0).map
          (Except.map Program.mk) =
        some (.ok nestedProgram) := by
  obtain ⟨headers, _, rounds, scans⟩ := scanning_stays_in_range nested
  have isLine :
      (CodeLine.ofLines nested)[1]? =
        some ⟨3, "fn f(x: Int64) ".toList ++ ['{']⟩ := by
    decide +kernel
  have isHeader :
      Header.read? 3 ("fn f(x: Int64) ".toList ++ ['{']) =
        .ok (some nestedHeader) := by
    decide +kernel
  have isEnd :
      blockEnd? (CodeLine.texts (CodeLine.ofLines nested)) 1 = some 5 := by
    decide +kernel
  have isRound : round? (CodeLine.ofLines nested) 6 =
      some (.ok (⟨9, .skipped .ifWord 2⟩, 8)) := by
    decide +kernel
  have known : 6 < (CodeLine.ofLines nested).length := by decide +kernel
  obtain ⟨balance, ends⟩ := headers 1 _ nestedHeader isLine isHeader
  obtain ⟨outcome, isOutcome, advances⟩ := rounds 6 known
  rw [isRound, Option.some.injEq] at isOutcome
  rw [scan_nested] at scans
  exact ⟨isLine, isHeader, balance, isEnd, (ends 5 isEnd).2, isRound,
    (advances _ _ isOutcome.symm).1, scans⟩

end Program
end LineScript
