import Bracketry.Proofs.OffsetRecords

/-
  Lookups by byte offsets.

  An index that is flushed answers from the text it was made
  of.  The records of the whole text are those of its closed
  pairs, and a lookup by an offset finds the one record that
  is over the byte there.  It goes by the position of the
  offset, where no two pairs have a bracket.

  Key definitions include:
    * `Index.Answers`
    * `Index.Finds`

  Main declarations:
    * `Index.Answers.pairedAt?_eq`
    * `Index.Answers.finds`
    * `Session.paired_of_run`
-/

------------------------------------------------------------
-- Lookups of an Index
------------------------------------------------------------

namespace Bracketry

open Checked

/- Two ends in order, whichever is given first. -/
theorem Range.sorted_comm
    (left right : Position) :
    (if left ≤ right then (⟨left, right⟩ : Range)
      else ⟨right, left⟩) =
      if right ≤ left then ⟨right, left⟩
      else ⟨left, right⟩ := by
  rcases lt_trichotomy left right with hLess | rfl | hMore
  · rw [if_pos hLess.le, if_neg (not_le.2 hLess)]
  · rfl
  · rw [if_neg (not_le.2 hMore), if_pos hMore.le]

/- The first pair with a bracket at the position is kept. -/
theorem Visitor.feed_first
    (position : Position)
    (infos : List PairInfo) :
    ((PairInfo.first position).feed none infos).state =
      infos.find? (·.hasBracketAt position) := by
  have hFed :
      ((PairInfo.first position).feed none infos).state =
        ((infos.find? (·.hasBracketAt position)).map
          some).getD none :=
    feed_halting (fun _ _ => rfl) none infos
  rw [hFed]
  cases infos.find? (·.hasBracketAt position) <;> rfl

namespace Index

/-
  The index answers live questions about a text.  Its tree is
  built and as long as the text, its content is that of the
  text, and the brackets of its pairs are over their
  literals there.
-/
structure Answers
    (index : Index)
    (live : Option Nat)
    (text : List Char)
    (content : Content)
    (root : Node) :
    Prop where
  current : index.current? = some root
  version : live = index.version
  madeFrom : index.content = some content
  counts : content.Counts text
  isBuilt : root.IsBuilt
  length : root.length = Length.ofText text
  isOver : ∀ info ∈ root.plainPairs, info.IsOver text

/-
  Lookups by offset tell of the one record over a byte.  At a
  break and behind the text there is none, and a lookup inside
  a character is refused.
-/
structure Finds
    (index : Index)
    (live : Option Nat)
    (text : List Char)
    (records : List PairedBracket) :
    Prop where
  cut :
    ∀ before behind,
      text = before ++ behind →
        ∃ found,
          index.pairedAt? live (Text.byteSize before) =
              .ok (found, index) ∧
            records.filter
                (·.covers (Text.byteSize before)) =
              found.toList
  lineBreak :
    ∀ before c behind,
      text = before ++ c :: behind → IsBreak c →
        index.pairedAt? live (Text.byteSize before) =
          .ok (none, index)
  behind :
    ∀ offset,
      Text.byteSize text ≤ offset →
        index.pairedAt? live offset = .ok (none, index) ∧
          records.filter (·.covers offset) = []
  inside :
    ∀ offset,
      offset < Text.byteSize text →
        Text.splitAt? offset text = none →
          index.pairedAt? live offset =
            .error .splitCharacter

variable {index : Index} {live : Option Nat}
variable {text : List Char} {content : Content} {root : Node}

/- The pairs of an index, where no text is read. -/
theorem Answers.pairs_eq
    (window : Range)
    (h : index.Answers live text content root) :
    index.pairs live window false =
      .ok (Node.foundPairs window root, index) := by
  have hPairs := h.isBuilt.pairsIn_eq window index.cache
  rcases bind_eq_ok_iff.1 hPairs with ⟨flow, hFlow, hEnd⟩
  rcases Prod.mk.inj (Except.ok.inj hEnd) with ⟨hFound, hCache⟩
  unfold pairs visitPairs whenCurrent
  simp only [h.current, if_pos h.version, Bool.false_eq_true,
    if_false, hFlow]
  change
    Except.ok
        (flow.state.state.reverse,
          { index with cache := flow.state.cache }) = _
  rw [hFound, hCache]

/- Swapped positions make the same window. -/
theorem pairedIn_swap
    (index : Index)
    (live : Option Nat)
    (left right : Position) :
    index.pairedIn live left right =
      index.pairedIn live right left := by
  unfold pairedIn
  refine congrArg (index.whenCurrent live · >>= _) ?_
  funext index root
  cases index.content with
  | none => rfl
  | some content =>
      dsimp only
      rw [Range.sorted_comm]

/- The whole text has a record of each closed pair. -/
theorem Answers.pairedIn_whole
    (h : index.Answers live text content root) :
    index.pairedIn live 0 content.endPosition =
      .ok
        (root.plainPairs.filterMap
          (PairedBracket.ofInfo? content), index) := by
  have hEnd :
      content.clamp content.endPosition = root.length := by
    rw [content.clamp_endPosition, h.length,
      h.counts.endPosition_eq]
  unfold pairedIn whenCurrent
  simp only [h.current, if_pos h.version, h.madeFrom,
    content.clamp_zero, hEnd, if_pos (Length.zero_le _),
    h.isBuilt.pairsIn_eq, h.isBuilt.foundPairs_whole]
  rfl

/- Behind the text there is no pair. -/
theorem Answers.pairedAt?_behind
    {offset : Nat}
    (h : index.Answers live text content root)
    (hBehind : Text.byteSize text ≤ offset) :
    index.pairedAt? live offset = .ok (none, index) := by
  unfold pairedAt? whenCurrent
  simp only [h.current, if_pos h.version, h.madeFrom,
    h.counts.offsetOf_endPosition, if_pos hBehind]
  rfl

/- Inside a character there is no position. -/
theorem Answers.pairedAt?_inside
    {offset : Nat}
    (h : index.Answers live text content root)
    (hWithin : offset < Text.byteSize text)
    (hInside : Text.splitAt? offset text = none) :
    index.pairedAt? live offset = .error .splitCharacter := by
  have hPosition :
      content.positionOf offset = .error .splitCharacter := by
    rw [h.counts.positionOf_eq hWithin.le, hInside]
  unfold pairedAt? whenCurrent
  simp only [h.current, if_pos h.version, h.madeFrom,
    h.counts.offsetOf_endPosition,
    if_neg (not_le.2 hWithin), hPosition]
  rfl

/- Between characters there is a position. -/
theorem Answers.positionOf_eq
    {before behind : List Char}
    (h : index.Answers live text content root)
    (hShort : Text.IsShort text)
    (hText : text = before ++ behind)
    (hSome : behind ≠ []) :
    Text.byteSize before < Text.byteSize text ∧
      ∃ position,
        Line.positionOf (Line.split text)
              (Text.byteSize before) =
            position ∧
          content.positionOf (Text.byteSize before) =
            .ok position ∧
          position.columns < maxCount := by
  have hSize :
      Text.byteSize before < Text.byteSize text := by
    have hPos := byteSize_pos hSome
    rw [hText, Text.byteSize_append]
    omega
  have hCut :
      Text.splitAt? (Text.byteSize before) text =
        some (before, behind) := by
    rw [hText, Text.splitAt?_append]
  have hColumn :
      (Line.positionOf (Line.split text)
        (Text.byteSize before)).columns ≤
          Text.byteSize before :=
    Line.columns_positionFrom_le 0 _ _
  refine ⟨hSize, _, rfl, ?_, ?_⟩
  · rw [h.counts.positionOf_eq hSize.le, hCut]
  · unfold Text.IsShort at hShort
    unfold maxCount
    omega

/- Between characters, the first pair there is told of. -/
theorem Answers.pairedAt?_eq
    {before behind : List Char}
    (h : index.Answers live text content root)
    (hShort : Text.IsShort text)
    (hText : text = before ++ behind)
    (hSome : behind ≠ []) :
    index.pairedAt? live (Text.byteSize before) =
      .ok
        ((root.plainPairs.filter
          (·.hasBracketAt
            (Line.positionOf (Line.split text)
              (Text.byteSize before)))).head?.bind
                (PairedBracket.ofInfo? content), index) := by
  rcases h.positionOf_eq hShort hText hSome with
    ⟨hSize, position, hSame, hPosition, hColumn⟩
  rcases h.isBuilt.exists_visitPairs
      ⟨position, ⟨position.lines, position.columns + 1⟩⟩
      (PairInfo.first position) ⟨none, index.cache⟩ with
    ⟨flow, hFlow, hState⟩
  rw [Visitor.feed_first, ← List.head?_filter,
    h.isBuilt.filter_foundPairs_at] at hState
  have hSum := Node.checkedSum_one hColumn
  rw [hSame, ← hState]
  unfold pairedAt? whenCurrent
  simp only [h.current, if_pos h.version, h.madeFrom,
    h.counts.offsetOf_endPosition,
    if_neg (not_le.2 hSize), hPosition, bind, Except.bind,
    hSum, hFlow]
  rfl

/- A record over a byte is over no break, nor behind. -/
theorem Answers.of_covers
    {record : PairedBracket}
    {offset : Nat}
    (h : index.Answers live text content root)
    (hRecord :
      record ∈
        (root.plainPairs.filterMap
          (PairedBracket.ofInfo? content)).filter
            (·.covers offset)) :
    offset < Text.byteSize text ∧
      ∀ before c behind,
        text = before ++ c :: behind →
          Text.byteSize before = offset → ¬IsBreak c := by
  rcases List.mem_filter.1 hRecord with ⟨hMem, hCovers⟩
  rcases PairInfo.exists_tells_of_mem h.counts h.isOver
      hMem with
    ⟨info, hTells⟩
  exact hTells.of_covers hCovers

/- Behind the text, no record is found and none is there. -/
theorem Answers.finds_behind
    {offset : Nat}
    (h : index.Answers live text content root)
    (hBehind : Text.byteSize text ≤ offset) :
    index.pairedAt? live offset = .ok (none, index) ∧
      (root.plainPairs.filterMap
        (PairedBracket.ofInfo? content)).filter
          (·.covers offset) = [] := by
  refine ⟨h.pairedAt?_behind hBehind, ?_⟩
  refine List.eq_nil_iff_forall_not_mem.2 ?_
  intro record hRecord
  exact absurd (h.of_covers hRecord).1 (not_lt.2 hBehind)

/- Between characters, the record there is found. -/
theorem Answers.finds_cut
    {before behind : List Char}
    (h : index.Answers live text content root)
    (hShort : Text.IsShort text)
    (hText : text = before ++ behind) :
    ∃ found,
      index.pairedAt? live (Text.byteSize before) =
          .ok (found, index) ∧
        (root.plainPairs.filterMap
            (PairedBracket.ofInfo? content)).filter
              (·.covers (Text.byteSize before)) =
          found.toList := by
  by_cases hNil : behind = []
  · subst hNil
    rw [List.append_nil] at hText
    exact ⟨none, h.finds_behind (hText ▸ Nat.le_refl _)⟩
  · have hFound := h.pairedAt?_eq hShort hText hNil
    rcases h.isBuilt.pairwise_plainPairs with ⟨hOrder, hLaidOut⟩
    -- No two pairs have a bracket at the position.
    rcases PairInfo.exists_filter_hasBracketAt
        (Line.positionOf (Line.split text)
          (Text.byteSize before))
        hOrder hLaidOut with
      ⟨matched, hMatched⟩
    rw [hMatched] at hFound
    refine ⟨_, hFound, ?_⟩
    rw [PairInfo.filter_covers _ h.counts h.isOver, hMatched]
    cases matched with
    | none => rfl
    | some info =>
        rw [Option.toList_some, List.head?_cons,
          Option.bind_some, List.filterMap_cons]
        cases PairedBracket.ofInfo? content info <;> rfl

/- The records of the pairs are found by their bytes. -/
theorem Answers.finds
    (h : index.Answers live text content root)
    (hShort : Text.IsShort text) :
    index.Finds live text
      (root.plainPairs.filterMap
        (PairedBracket.ofInfo? content)) where
  cut _ _ hText := h.finds_cut hShort hText
  lineBreak before c behind hText hBreak := by
    rcases h.finds_cut hShort hText with ⟨found, hFound, hOver⟩
    cases found with
    | none => exact hFound
    | some record =>
        have hRecord := List.mem_singleton_self record
        rw [← Option.toList_some, ← hOver] at hRecord
        exact absurd hBreak
          ((h.of_covers hRecord).2 before c behind hText rfl)
  behind _ hBehind := h.finds_behind hBehind
  inside _ hWithin hInside := h.pairedAt?_inside hWithin hInside

end Index

end Bracketry

------------------------------------------------------------
-- Lookups of a Session
------------------------------------------------------------

namespace Bracketry

namespace Session

variable {declaration : BracketDeclaration}
variable {session : Session}

/- Behind a flush, a session answers for its text. -/
theorem IsGrounded.answers
    (hFlat : declaration.IsFlat)
    (h : session.IsGrounded declaration)
    (hSettled : session.index.IsSettled)
    (hKeeps :
      session.index.Keeps session.document.document
        (Content.ofDocument session.document.document)) :
    ∃ root,
      session.index.Answers session.liveVersion session.text
        (Content.ofDocument session.document.document)
        root := by
  have hRoot :
      ∃ root,
        session.index.current? = some root ∧
          declaration.Follows session.text root [] := by
    rcases h.holds.classified with ⟨tree, hTree, hClassified⟩
    rw [hSettled.classified] at hClassified
    rw [Index.current?, hTree]
    cases hPlain : session.index.plain with
    | none => exact ⟨tree, rfl, hClassified⟩
    | some plain =>
        have hFollows := h.holds.plain plain hPlain
        rw [hSettled.plain (by rw [hPlain]; rfl)] at hFollows
        exact ⟨plain, rfl, hFollows⟩
  rcases hRoot with ⟨root, hCurrent, hFollows⟩
  exact ⟨root, hCurrent, hKeeps.version.symm, hKeeps.madeFrom,
    ⟨Content.holds_ofDocument _, h.short.areReadable.areCounted⟩,
    hFollows.2, hFollows.length_eq, hFollows.isOver hFlat⟩

/-
  Every run that the document allows succeeds, and behind a
  flush the closed pairs of the whole document have their
  records, in order.  The bytes of a record are the literals
  of its pair, up to case; a lookup by offset finds the
  record over a byte.  Positions may come in either order.
-/
theorem paired_of_run
    {declaration : BracketDeclaration}
    {document : SharedDocument}
    {steps : List Step}
    (hFlat : declaration.IsFlat)
    (hShort : Text.IsShort document.document.text)
    (hAllows : document.document.AllowsAll steps) :
    ∃ start last flushed pairs records,
      ofShared (TokenTable.ofDeclaration declaration)
          document = .ok start ∧
        start.run steps = .ok last ∧
        last.flush = .ok flushed ∧
        flushed.document.document =
          document.document.afterAll steps ∧
        flushed.index.pairs flushed.liveVersion
            flushed.fullRange false =
          .ok (pairs, flushed.index) ∧
        flushed.index.pairedIn flushed.liveVersion
            flushed.fullRange.start flushed.fullRange.stop =
          .ok (records, flushed.index) ∧
        List.Forall₂ (PairedBracket.Tells flushed.text)
          (pairs.filter (·.closingRange.isSome)) records ∧
        flushed.index.Finds flushed.liveVersion flushed.text
          records ∧
        ∀ left right,
          flushed.index.pairedIn flushed.liveVersion left
              right =
            flushed.index.pairedIn flushed.liveVersion right
              left := by
  rcases exists_isGrounded hFlat hShort with
    ⟨start, hStart, hGrounded, hDocument⟩
  rw [← hDocument] at hAllows
  rcases hGrounded.run hFlat hAllows with
    ⟨last, hRun, hLast, hAfter⟩
  rcases hLast.flush hFlat with
    ⟨flushed, hFlush, hFlushed, hSame, hSettled, hKeeps⟩
  rcases hFlushed.answers hFlat hSettled hKeeps with
    ⟨root, hAnswers⟩
  have hEnd : flushed.fullRange = ⟨0, root.length⟩ := by
    rw [hAnswers.length, ← hAnswers.counts.endPosition_eq]
    rfl
  refine ⟨start, last, flushed, root.plainPairs, _, hStart,
    hRun, hFlush, ?_, ?_, hAnswers.pairedIn_whole,
    PairInfo.forall₂_tells hAnswers.counts hAnswers.isOver,
    hAnswers.finds hFlushed.short,
    Index.pairedIn_swap _ _⟩
  · rw [hSame, hAfter, hDocument]
  · rw [hAnswers.pairs_eq, hEnd,
      hAnswers.isBuilt.foundPairs_whole]

/-
  Marks of two bytes around a break of two bytes, of which
  the last was typed.
-/
theorem paired_of_run_quotes :
    let declaration : BracketDeclaration :=
      ⟨[⟨['«'], ['»']⟩], none⟩
    let document := SharedDocument.ofDocument
      (Document.ofText ['«', 'a', '\r', '\n'])
    let steps : List Step :=
      [.edit ⟨1, 0⟩ ⟨1, 0⟩ ['»']]
    declaration.IsFlat ∧
      Text.IsShort document.document.text ∧
      document.document.AllowsAll steps ∧
      ∃ start last flushed pairs records,
        ofShared (TokenTable.ofDeclaration declaration)
            document = .ok start ∧
          start.run steps = .ok last ∧
          last.flush = .ok flushed ∧
          flushed.document.document =
            document.document.afterAll steps ∧
          flushed.index.pairs flushed.liveVersion
              flushed.fullRange false =
            .ok (pairs, flushed.index) ∧
          flushed.index.pairedIn flushed.liveVersion
              flushed.fullRange.start
              flushed.fullRange.stop =
            .ok (records, flushed.index) ∧
          List.Forall₂ (PairedBracket.Tells flushed.text)
            (pairs.filter (·.closingRange.isSome)) records ∧
          flushed.index.Finds flushed.liveVersion flushed.text
            records ∧
          ∀ left right,
            flushed.index.pairedIn flushed.liveVersion left
                right =
              flushed.index.pairedIn flushed.liveVersion right
                left := by
  intro declaration document steps
  have hFlat : declaration.IsFlat := by decide
  have hShort : Text.IsShort document.document.text := by
    decide
  have hAllows : document.document.AllowsAll steps := by
    decide
  exact ⟨hFlat, hShort, hAllows,
    paired_of_run hFlat hShort hAllows⟩

end Session

end Bracketry
