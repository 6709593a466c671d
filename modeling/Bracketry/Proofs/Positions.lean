import Bracketry.Proofs.Sessions
import Bracketry.Proofs.Weaving

/-
  Positions that edits are queued with.

  A document clamps the positions of an edit to its text,
  while the edit that is queued for the trees keeps them as
  they are given.  The two agree exactly when both positions
  lie on lines of the text.

  Key definitions include:
    * `Line.IsEnded`
    * `Document.HasRange`

  Main declarations:
    * `Line.positionOf_offsetOf_iff`
    * `Session.queued_hasRange_iff`
-/

------------------------------------------------------------
-- Lines and Their Breaks
------------------------------------------------------------

namespace Bracketry

namespace Line

/- All lines but the last have a break. -/
def IsEnded : List Line → Prop
  | [] => True
  | [_] => True
  | first :: second :: rest =>
      first.ending ≠ [] ∧ IsEnded (second :: rest)

theorem isEnded_cons
    {first : Line}
    {rest : List Line}
    (hFirst : first.ending ≠ [])
    (hRest : IsEnded rest) :
    IsEnded (first :: rest) := by
  cases rest with
  | nil => trivial
  | cons second others => exact ⟨hFirst, hRest⟩

/- The text of the first line does not matter. -/
theorem IsEnded.withText
    {first : Line}
    {rest : List Line}
    (h : IsEnded (first :: rest))
    (text : List Char) :
    IsEnded (⟨text, first.ending⟩ :: rest) := by
  cases rest with
  | nil => trivial
  | cons second others => exact h

theorem isEnded_split
    (text : List Char) :
    IsEnded (split text) := by
  fun_induction split text with
  | case1 => trivial
  | case2 rest ih => exact isEnded_cons (by simp) ih
  | case3 rest ih => exact isEnded_cons (by simp) ih
  | case4 => trivial
  | case5 c rest hBreak hReturn first lines hCons ih =>
      rw [hCons] at ih
      exact ih.withText _

theorem size_pos_of_ending
    {line : Line}
    (h : line.ending ≠ []) :
    line.columns < line.size := by
  rcases List.exists_cons_of_ne_nil h with ⟨c, rest, hEnding⟩
  have hPos := Char.utf8Size_pos c
  rw [columns, size, hEnding, Text.byteSize]
  omega

end Line

end Bracketry

------------------------------------------------------------
-- Positions of Offsets
------------------------------------------------------------

namespace Bracketry

namespace Line

/- A place on a line is the position of its offset. -/
theorem positionFrom_offsetOf
    {lines : List Line}
    {place : Position}
    (hEnded : IsEnded lines)
    (hPlace : HasPlace lines place)
    (number : Nat) :
    positionFrom number (offsetOf lines place) lines =
      ⟨number + place.lines, place.columns⟩ := by
  induction lines generalizing place number with
  | nil => simp [HasPlace] at hPlace
  | cons first rest ih =>
      rw [offsetOf_cons hPlace]
      rcases hasPlace_cons.1 hPlace with
        ⟨hLines, hColumns⟩ | ⟨line, hLines, hRest⟩
      · rw [if_pos hLines, hLines]
        cases rest with
        | nil => simp [positionFrom, hColumns]
        | cons second others =>
            have hSize := size_pos_of_ending hEnded.1
            rw [positionFrom, if_pos (by omega),
              Nat.min_eq_left hColumns]
            · rfl
            · simp
      · rw [if_neg (by omega), hLines]
        cases rest with
        | nil => simp [HasPlace] at hRest
        | cons second others =>
            rw [positionFrom, if_neg (by omega),
              Nat.add_sub_cancel_left, Nat.add_sub_cancel,
              ih hEnded.2 hRest]
            · simp only [Nat.add_assoc, Nat.add_comm 1]
            · simp

/- An offset is clamped to the text of the lines. -/
theorem offsetFrom_le
    (lines : List Line)
    (line column : Nat) :
    offsetFrom line column lines ≤
      Text.byteSize (join lines) := by
  induction lines generalizing line with
  | nil => simp [offsetFrom]
  | cons first rest ih =>
      have hJoin :
          Text.byteSize (join (first :: rest)) =
            first.size + Text.byteSize (join rest) := by
        simp [join, size, Text.byteSize_append, Nat.add_assoc]
      have hColumns : first.columns ≤ first.size := by
        simp [columns, size]
      rw [hJoin]
      cases rest with
      | nil =>
          rw [offsetFrom]
          omega
      | cons second others =>
          rw [offsetFrom]
          split_ifs
          · omega
          · have hRest := ih (line - 1)
            omega
          · simp

/- Only places on lines are the positions of offsets. -/
theorem positionOf_offsetOf_iff
    (text : List Char)
    (place : Position) :
    positionOf (split text) (offsetOf (split text) place) =
        place ↔
      HasPlace (split text) place := by
  constructor
  · intro hSame
    rcases List.exists_cons_of_ne_nil (split_ne_nil text) with
      ⟨first, rest, hLines⟩
    rw [hLines] at hSame ⊢
    rcases exists_of_positionFrom first rest 0
        (offsetOf (first :: rest) place) with
      ⟨other, hOther, hPosition⟩
    rw [positionOf, hPosition, Nat.zero_add] at hSame
    rwa [← hSame]
  · intro hPlace
    rw [positionOf, positionFrom_offsetOf (isEnded_split text)
      hPlace, Nat.zero_add]

end Line

end Bracketry

------------------------------------------------------------
-- Queued Edits
------------------------------------------------------------

namespace Bracketry

namespace Document

/-
  The edit begins and ends at the positions of the two ends
  of the bytes that a replacement takes out.
-/
def HasRange
    (document : Document)
    (start stop : Position)
    (edit : Edit) :
    Prop :=
  document.positionOf (document.offsetOf start) =
      .ok edit.start ∧
    document.positionOf (document.offsetOf stop) =
      .ok edit.stop

theorem offsetOf_le_size
    (document : Document)
    (position : Position) :
    document.offsetOf position ≤ document.size := by
  have hLe := Line.offsetFrom_le document.lines
    (min position.lines (Line.last document.lines))
    position.columns
  rwa [lines, Line.join_split] at hLe

/- An offset that cuts the text has the clamped position. -/
theorem positionOf_eq_ok_iff
    {document : Document}
    {position : Position}
    (hCounted : document.IsCounted)
    (hCut :
      (Text.splitAt? (document.offsetOf position)
        document.text).isSome = true) :
    document.positionOf (document.offsetOf position) =
        .ok position ↔
      Line.HasPlace document.lines position := by
  rcases Option.isSome_iff_exists.1 hCut with ⟨parts, hParts⟩
  rw [positionOf,
    Nat.min_eq_left (document.offsetOf_le_size position)]
  simp only [hParts, Except.ok.injEq]
  rw [Line.AreCounted.countedPosition_eq hCounted,
    hCounted.offsetOf_eq]
  exact Line.positionOf_offsetOf_iff document.text position

/- A replacement is between two places that cut the text. -/
theorem cuts_of_replace
    {document next : Document}
    {start stop : Position}
    {inserted : List Char}
    (h : document.replace start stop inserted = .ok next) :
    (Text.splitAt? (document.offsetOf start)
        document.text).isSome = true ∧
      (Text.splitAt? (document.offsetOf stop)
        document.text).isSome = true := by
  rw [replace, replaceRange, Text.splice,
    Nat.min_eq_left (document.offsetOf_le_size start),
    Nat.min_eq_left (document.offsetOf_le_size stop)] at h
  cases hStart :
      Text.splitAt? (document.offsetOf start)
        document.text with
  | none =>
      rw [hStart] at h
      cases h
  | some _ =>
      cases hStop :
          Text.splitAt? (document.offsetOf stop)
            document.text with
      | none =>
          rw [hStart, hStop] at h
          cases h
      | some _ => exact ⟨rfl, rfl⟩

end Document

end Bracketry

------------------------------------------------------------
-- Edits of a Session
------------------------------------------------------------

namespace Bracketry

/- The queue for the classified tree takes every edit. -/
theorem Index.exists_of_queueEdit
    {index next : Index}
    {start stop : Position}
    {text : List Char}
    (h : index.queueEdit start stop text = .ok next) :
    Edit.compose index.edits
        [Edit.replace start stop text] = .ok next.edits := by
  rcases Checked.bind_eq_ok_iff.1 h with ⟨queued, hQueued, h⟩
  cases h
  rcases Checked.bind_eq_ok_iff.1 hQueued with
    ⟨edits, hEdits, h⟩
  rw [hEdits]
  dsimp only at h
  split_ifs at h
  · rcases Checked.bind_eq_ok_iff.1 h with ⟨plain, _, h⟩
    cases h
    rfl
  · cases h
    rfl

/- With nothing queued, any edit can be. -/
theorem Index.IsSettled.queueEdit
    {index : Index}
    (h : index.IsSettled)
    (start stop : Position)
    (text : List Char) :
    ∃ next, index.queueEdit start stop text = .ok next := by
  rw [Index.queueEdit, Index.queueEdits, h.classified,
    Edit.compose_nil_left]
  cases hPlain : index.plain with
  | none => exact ⟨_, rfl⟩
  | some root =>
      have hQueue := h.plain (by rw [hPlain]; rfl)
      rw [hQueue]
      exact ⟨_, rfl⟩

namespace Session

/- Nothing is queued at first. -/
theorem isSettled_ofShared
    {table : TokenTable}
    {document : SharedDocument}
    {session : Session}
    (h : ofShared table document = .ok session) :
    session.index.IsSettled := by
  rcases exists_of_ofShared h with ⟨index, hIndex, rfl⟩
  rcases Index.exists_of_ofSnapshot hIndex with
    ⟨made, stats, _, rfl⟩
  exact ⟨rfl, fun _ => rfl⟩

/- The document and the index take an edit as it is given. -/
theorem exists_of_applyEdit
    {session next : Session}
    {start stop : Position}
    {text : List Char}
    (h : session.applyEdit start stop text = .ok next) :
    session.document.document.replace start stop text =
        .ok next.document.document ∧
      Edit.compose session.index.edits
          [Edit.replace start stop text] =
        .ok next.index.edits := by
  rcases Checked.bind_eq_ok_iff.1 h with
    ⟨replaced, hReplaced, h⟩
  rcases Checked.bind_eq_ok_iff.1 h with ⟨index, hIndex, h⟩
  cases h
  rcases Checked.bind_eq_ok_iff.1 hReplaced with
    ⟨shared, hShared, hReplaced⟩
  cases hReplaced
  rcases Checked.bind_eq_ok_iff.1 hShared with
    ⟨document, hDocument, hShared⟩
  cases hShared
  exact ⟨hDocument, Index.exists_of_queueEdit hIndex⟩

/-
  Where the lines and columns of the document are counts, the
  edit that is queued tells what the document replaced
  exactly when both of its positions lie on lines of the
  text.
-/
theorem queued_hasRange_iff
    {session next : Session}
    {start stop : Position}
    {text : List Char}
    (hCounted : session.document.document.IsCounted)
    (hClean : session.index.edits = [])
    (h : session.applyEdit start stop text = .ok next) :
    (∃ edit,
        next.index.edits = [edit] ∧
          session.document.document.HasRange start stop
            edit) ↔
      Line.HasPlace session.document.document.lines start ∧
        Line.HasPlace session.document.document.lines
          stop := by
  rcases exists_of_applyEdit h with ⟨hReplaced, hQueued⟩
  rcases Document.cuts_of_replace hReplaced with
    ⟨hStartCut, hStopCut⟩
  rw [hClean] at hQueued
  have hEdits :
      next.index.edits = [Edit.replace start stop text] :=
    (Except.ok.inj hQueued).symm
  rw [← Document.positionOf_eq_ok_iff hCounted hStartCut,
    ← Document.positionOf_eq_ok_iff hCounted hStopCut]
  constructor
  · rintro ⟨edit, hEdit, hStart, hStop⟩
    rw [hEdits] at hEdit
    cases hEdit
    exact ⟨hStart, hStop⟩
  · rintro ⟨hStart, hStop⟩
    exact ⟨_, hEdits, hStart, hStop⟩

/-
  An insertion behind the last line goes to the start of the
  text, but is queued for a line that there is not.
-/
theorem queued_hasRange_behind_lines :
    let declaration : BracketDeclaration :=
      ⟨[⟨['('], [')']⟩, ⟨['['], [']']⟩], none⟩
    let document := SharedDocument.ofDocument
      (Document.ofText ['(', ')'])
    ∃ session next,
      ofShared (TokenTable.ofDeclaration declaration)
          document = .ok session ∧
        session.applyEdit ⟨5, 0⟩ ⟨5, 0⟩ ['['] = .ok next ∧
        next.text = ['[', '(', ')'] ∧
        ¬ ∃ edit,
          next.index.edits = [edit] ∧
            document.document.HasRange ⟨5, 0⟩ ⟨5, 0⟩
              edit := by
  intro declaration document
  have hFlat : declaration.IsFlat := by decide
  have hShort : Text.IsShort document.document.text := by
    decide
  rcases exists_ofShared
      (TokenTable.isSolid_ofDeclaration declaration)
      (TokenTable.isFlat_ofDeclaration hFlat) hShort with
    ⟨session, hSession, _, hDocument⟩
  have hSettled := isSettled_ofShared hSession
  rcases hSettled.queueEdit ⟨5, 0⟩ ⟨5, 0⟩ ['['] with
    ⟨index, hIndex⟩
  have hReplace :
      document.replace ⟨5, 0⟩ ⟨5, 0⟩ ['['] =
        .ok ⟨⟨['[', '(', ')'], 1, 4⟩, none⟩ := by
    decide
  have hNext :
      session.applyEdit ⟨5, 0⟩ ⟨5, 0⟩ ['['] =
        .ok ⟨⟨⟨['[', '(', ')'], 1, 4⟩, none⟩, index⟩ := by
    rw [applyEdit, replace, hDocument, hReplace]
    simp [bind, Except.bind, pure, Except.pure, hIndex]
  refine ⟨session, _, hSession, hNext, rfl, ?_⟩
  have hCounted : session.document.document.IsCounted := by
    rw [hDocument]
    exact Document.isCounted_of_isShort hShort
  have hIff :=
    queued_hasRange_iff hCounted hSettled.classified hNext
  rw [hDocument] at hIff
  rw [hIff]
  decide

end Session

end Bracketry
