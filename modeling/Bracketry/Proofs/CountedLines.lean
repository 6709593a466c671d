import Bracketry.Proofs.TextBytes
import Bracketry.Token.LineReader
import Mathlib.Algebra.Order.BigOperators.Group.List
import Mathlib.Algebra.Order.Group.Nat

/-
  Lines that 32-bit counts can tell.

  The numbers of lines and columns are cut down to 32 bits.
  Where the lines are few and short enough nothing is cut,
  and the offsets and positions that go through such counts
  are the exact ones.  Reading adds columns up, and needs
  some room above those of each line.

  Key definitions include:
    * `Line.AreCounted`, `Line.AreReadable`
    * `Text.IsShort`
    * `Document.IsCounted`
    * `Content.Holds`, `Content.Counts`

  Main declarations:
    * `Line.AreCounted.countedPosition_eq`
    * `Text.IsShort.areReadable`
-/

------------------------------------------------------------
-- Lines That Are Counted
------------------------------------------------------------

namespace Bracketry

namespace Line

/- The lines, and the columns of each, fit into 32 bits. -/
def AreCounted
    (lines : List Line) :
    Prop :=
  lines.length < countLimit ∧
    ∀ line ∈ lines, line.columns < countLimit

instance (lines : List Line) : Decidable (AreCounted lines) :=
  inferInstanceAs (Decidable (_ ∧ _))

/-
  The lines fit, and the columns of each can be added to what
  a reader has scanned when it comes to the line.
-/
def AreReadable
    (lines : List Line) :
    Prop :=
  lines.length < countLimit ∧
    ∀ line ∈ lines,
      line.columns + LineReader.softLimit < countLimit

instance (lines : List Line) : Decidable (AreReadable lines) :=
  inferInstanceAs (Decidable (_ ∧ _))

variable {lines : List Line}

theorem AreReadable.areCounted
    (h : AreReadable lines) :
    AreCounted lines :=
  ⟨h.1, fun line hLine =>
    Nat.lt_of_le_of_lt (Nat.le_add_right _ _)
      (h.2 line hLine)⟩

theorem AreCounted.count_eq
    (h : AreCounted lines) :
    count lines = lines.length :=
  wrapCount_of_lt h.1

theorem AreCounted.last_eq
    (h : AreCounted lines) :
    last lines = lines.length - 1 := by
  rw [last, h.count_eq]

theorem textAt_of_getElem?
    {line : Line}
    {number : Nat}
    (h : lines[number]? = some line) :
    textAt lines number = line.text := by
  rw [textAt, h]

/- The size of the text of a line, none behind the last. -/
theorem byteSize_textAt
    (lines : List Line)
    (number : Nat) :
    Text.byteSize (textAt lines number) =
      (lines[number]?.map columns).getD 0 := by
  unfold textAt
  cases lines[number]? <;> rfl

theorem AreCounted.byteSize_textAt_lt
    (h : AreCounted lines)
    (number : Nat) :
    Text.byteSize (textAt lines number) < countLimit := by
  rw [byteSize_textAt]
  cases hLine : lines[number]? with
  | none => decide
  | some line => exact h.2 line (List.mem_of_getElem? hLine)

theorem AreCounted.width_eq
    (h : AreCounted lines)
    (number : Nat) :
    width lines number =
      Text.byteSize (textAt lines number) :=
  wrapCount_of_lt (h.byteSize_textAt_lt number)

/-
  An offset is the start of a line and a column, where a line
  behind the last counts as the last and a column behind the
  end of a line as its end.
-/
theorem offsetFrom_eq
    (lines : List Line)
    (line column : Nat) :
    offsetFrom line column lines =
      offsetFrom (min line (lines.length - 1)) 0 lines +
        min column
          (Text.byteSize
            (textAt lines (min line (lines.length - 1)))) := by
  induction lines generalizing line with
  | nil => simp [offsetFrom, textAt, Text.byteSize]
  | cons first rest ih =>
      cases rest with
      | nil => simp [offsetFrom, textAt, columns]
      | cons second others =>
          cases line with
          | zero => simp [offsetFrom, textAt, columns]
          | succ line =>
              have hMin :
                  min (line + 1)
                      ((first :: second :: others).length - 1) =
                    min line
                      ((second :: others).length - 1) + 1 := by
                simp only [List.length_cons]
                omega
              have hRest := ih line
              rw [hMin]
              simp only [offsetFrom, Nat.add_eq_zero_iff,
                Nat.one_ne_zero, and_false, if_false,
                Nat.add_sub_cancel]
              rw [hRest, Nat.add_assoc]
              simp [textAt]

/- The exact offset needs no more than the lines counted. -/
theorem countedOffset_eq
    (h : lines.length < countLimit)
    (position : Position) :
    countedOffset lines position = offsetOf lines position := by
  rw [countedOffset, last, count, wrapCount_of_lt h, offsetOf,
    offsetOf, offsetFrom_eq, Nat.min_assoc, Nat.min_self,
    ← offsetFrom_eq]

/- The position of an offset is a place on a line. -/
theorem exists_of_positionFrom
    (first : Line)
    (rest : List Line)
    (number offset : Nat) :
    ∃ place,
      HasPlace (first :: rest) place ∧
        positionFrom number offset (first :: rest) =
          ⟨number + place.lines, place.columns⟩ := by
  induction rest generalizing first number offset with
  | nil =>
      refine ⟨⟨0, min offset first.columns⟩,
        hasPlace_cons.2 (.inl ⟨rfl, Nat.min_le_right _ _⟩),
        rfl⟩
  | cons second others ih =>
      rw [positionFrom]
      split_ifs with hFirst
      · exact ⟨⟨0, min offset first.columns⟩,
          hasPlace_cons.2 (.inl ⟨rfl, Nat.min_le_right _ _⟩),
          rfl⟩
      · rcases ih second (number + 1) (offset - first.size) with
          ⟨place, hPlace, hSame⟩
        refine ⟨⟨place.lines + 1, place.columns⟩,
          hasPlace_cons.2 (.inr ⟨place.lines, rfl, hPlace⟩),
          ?_⟩
        rw [hSame, Nat.add_assoc, Nat.add_comm 1]
      · simp

/- The places on lines that are counted fit into 32 bits. -/
theorem AreCounted.fits
    {place : Position}
    (h : AreCounted lines)
    (hPlace : HasPlace lines place) :
    place.Fits := by
  rcases hPlace with ⟨line, hLine, hColumns⟩
  rcases List.getElem?_eq_some_iff.1 hLine with ⟨hLess, _⟩
  exact ⟨Nat.lt_trans hLess h.1,
    Nat.lt_of_le_of_lt hColumns
      (h.2 line (List.mem_of_getElem? hLine))⟩

theorem AreCounted.fits_positionOf
    (h : AreCounted lines)
    (offset : Nat) :
    (positionOf lines offset).Fits := by
  cases lines with
  | nil => exact Length.fits_zero
  | cons first rest =>
      rcases exists_of_positionFrom first rest 0 offset with
        ⟨place, hPlace, hSame⟩
      rw [positionOf, hSame, Nat.zero_add]
      exact h.fits hPlace

theorem AreCounted.countedPosition_eq
    (h : AreCounted lines)
    (offset : Nat) :
    countedPosition lines offset = positionOf lines offset := by
  rcases h.fits_positionOf offset with ⟨hLine, hColumn⟩
  unfold countedPosition
  simp only [wrapCount_of_lt hLine, if_true,
    wrapCount_of_lt hColumn]

/- The end of later lines is one line further. -/
theorem endPosition_cons
    {lines : List Line}
    (first : Line)
    (h : lines ≠ []) :
    endPosition (first :: lines) =
      ⟨1, 0⟩ + endPosition lines := by
  have hPos := List.length_pos_of_ne_nil h
  rw [Length.break_add, endPosition, endPosition,
    List.getLast?_cons_of_ne_nil h]
  simp only [List.length_cons, Nat.add_sub_cancel,
    Nat.sub_add_cancel hPos]

/- The end of the last line is as far as the text is long. -/
theorem endPosition_split
    (text : List Char) :
    endPosition (split text) = Length.ofText text := by
  fun_induction split text with
  | case1 => rfl
  | case2 rest ih =>
      rw [endPosition_cons _ (split_ne_nil rest), ih]
      rfl
  | case3 rest ih =>
      rw [endPosition_cons _ (split_ne_nil rest), ih,
        Length.ofText_cons, Length.ofText_cons, ← add_assoc]
      rfl
  | case4 c rest _ _ hNil ih =>
      exact absurd hNil (split_ne_nil rest)
  | case5 c rest hBreak _ line lines hCons ih =>
      rw [hCons] at ih
      rw [Length.ofText_cons, ← ih, Length.ofChar,
        if_neg hBreak]
      cases lines <;>
        simp [endPosition, columns, Text.byteSize,
          Length.add_def]

theorem AreCounted.countedEnd_eq
    (h : AreCounted lines) :
    countedEnd lines = endPosition lines := by
  refine Length.ext h.last_eq ?_
  rw [endPosition, countedEnd]
  simp only
  rw [h.width_eq, h.last_eq, byteSize_textAt,
    List.getLast?_eq_getElem?]
  cases lines[lines.length - 1]? <;> rfl

end Line

end Bracketry

------------------------------------------------------------
-- Short Texts
------------------------------------------------------------

namespace Bracketry

/- The text is short enough for counts of 32 bits. -/
def Text.IsShort
    (text : List Char) :
    Prop :=
  byteSize text + 1 < 2 ^ 31

instance (text : List Char) : Decidable (Text.IsShort text) :=
  inferInstanceAs (Decidable (_ < _))

theorem Text.isShort_of_lt
    {text : List Char}
    {count : Nat}
    (h : byteSize text + count + 1 < 2 ^ 31) :
    IsShort text := by
  unfold IsShort
  omega

/-
  Each line counts for its columns and, but one, a break of
  one or two bytes.
-/
theorem Line.sum_columns_split
    (text : List Char) :
    ((split text).map fun line => line.columns + 1).sum ≤
        Text.byteSize text + 1 ∧
      Text.byteSize text ≤
        2 *
          ((split text).map fun line =>
            line.columns + 1).sum := by
  unfold columns
  fun_induction split text with
  | case1 => decide
  | case2 rest ih =>
      have hSize : '\n'.utf8Size = 1 := rfl
      simp only [Text.byteSize, List.map_cons, List.sum_cons]
      omega
  | case3 rest ih =>
      have hFeed : '\n'.utf8Size = 1 := rfl
      have hReturn : '\r'.utf8Size = 1 := rfl
      simp only [Text.byteSize, List.map_cons, List.sum_cons]
      omega
  | case4 c rest _ _ hNil ih =>
      exact absurd hNil (split_ne_nil rest)
  | case5 c rest _ _ line lines hCons ih =>
      rw [hCons] at ih
      simp only [Text.byteSize, List.map_cons, List.sum_cons]
        at ih ⊢
      omega

theorem Line.length_split_le
    (text : List Char) :
    (split text).length ≤ Text.byteSize text + 1 := by
  have hLength :=
    List.length_le_sum_of_one_le
      ((split text).map fun line => line.columns + 1)
      (by simp)
  rw [List.length_map] at hLength
  exact hLength.trans (sum_columns_split text).1

theorem Line.columns_le_of_mem_split
    {text : List Char}
    {line : Line}
    (h : line ∈ split text) :
    line.columns ≤ Text.byteSize text := by
  have hColumns :=
    List.le_sum_of_mem
      (List.mem_map_of_mem
        (f := fun line : Line => line.columns + 1) h)
  exact Nat.le_of_succ_le_succ
    (hColumns.trans (sum_columns_split text).1)

/- A text with fewer bytes than the counts is counted. -/
theorem Line.areCounted_of_lt
    {text : List Char}
    (h : Text.byteSize text + 1 < countLimit) :
    AreCounted (split text) :=
  ⟨Nat.lt_of_le_of_lt (length_split_le text) h,
    fun _ hLine =>
      Nat.lt_of_le_of_lt (columns_le_of_mem_split hLine)
        (Nat.lt_of_succ_lt h)⟩

theorem Text.IsShort.areReadable
    {text : List Char}
    (h : IsShort text) :
    Line.AreReadable (Line.split text) := by
  unfold IsShort at h
  constructor
  · have hLength := Line.length_split_le text
    unfold countLimit
    omega
  · intro line hLine
    have hColumns := Line.columns_le_of_mem_split hLine
    unfold countLimit LineReader.softLimit
    omega

end Bracketry

------------------------------------------------------------
-- Documents
------------------------------------------------------------

namespace Bracketry

namespace Document

/- The lines of the document, and their columns, fit. -/
def IsCounted
    (document : Document) :
    Prop :=
  Line.AreCounted document.lines

instance (document : Document) :
    Decidable document.IsCounted :=
  inferInstanceAs (Decidable (Line.AreCounted _))

variable {document : Document}

theorem isCounted_of_isShort
    (h : Text.IsShort document.text) :
    document.IsCounted :=
  h.areReadable.areCounted

theorem IsCounted.offsetOf_eq
    (h : document.IsCounted)
    (position : Position) :
    document.offsetOf position =
      Line.offsetOf document.lines position :=
  Line.countedOffset_eq h.1 position

theorem IsCounted.endPosition_eq
    (h : document.IsCounted) :
    document.endPosition = Line.endPosition document.lines :=
  Line.AreCounted.countedEnd_eq h

end Document

end Bracketry

------------------------------------------------------------
-- Content of Documents
------------------------------------------------------------

namespace Bracketry

namespace Content

/- The content is that of a document with the text. -/
structure Holds
    (content : Content)
    (text : List Char) :
    Prop where
  lines : content.lines = Line.split text
  whole : content.wholeCharacters = true

theorem holds_ofDocument
    (document : Document) :
    (ofDocument document).Holds document.text :=
  ⟨rfl, rfl⟩

variable {content : Content} {text : List Char}

theorem Holds.text_eq
    (h : content.Holds text) :
    content.text = text := by
  rw [Content.text, if_pos h.whole, h.lines, Line.join_split]

theorem line_of_getElem?
    {line : Line}
    {number : Nat}
    (h : content.lines[number]? = some line) :
    content.line number = line.text :=
  Line.textAt_of_getElem? h

theorem line_of_append
    {passed rest : List Line}
    {line : Line}
    (h : content.lines = passed ++ line :: rest) :
    content.line passed.length = line.text :=
  line_of_getElem? (by rw [h]; simp)

/- The text, its lines and their columns can be counted. -/
structure Counts
    (content : Content)
    (text : List Char) :
    Prop extends content.Holds text where
  counted : Line.AreCounted (Line.split text)

theorem Counts.offsetOf_eq
    (h : content.Counts text)
    (position : Position) :
    content.offsetOf position =
      Line.offsetOf (Line.split text) position := by
  rw [offsetOf, if_pos h.whole, h.lines,
    Line.countedOffset_eq h.counted.1]

theorem Counts.endPosition_eq
    (h : content.Counts text) :
    content.endPosition = Length.ofText text := by
  rw [endPosition, h.lines, h.counted.countedEnd_eq,
    Line.endPosition_split]

/- An offset that cuts the text has the exact position. -/
theorem Counts.positionOf_eq
    {offset : Nat}
    (h : content.Counts text)
    (hOffset : offset ≤ Text.byteSize text) :
    content.positionOf offset =
      match Text.splitAt? offset text with
      | some _ =>
          .ok (Line.positionOf (Line.split text) offset)
      | none => .error .splitCharacter := by
  rw [positionOf, if_pos h.whole, h.lines, Line.join_split]
  cases hSplit : Text.splitAt? offset text <;>
    simp only [Nat.min_eq_left hOffset, hSplit,
      h.counted.countedPosition_eq]

end Content

end Bracketry
