import Bracketry.Proofs.OffsetRecords
import Bracketry.Proofs.Symbols

/-
  Offsets and positions of a document.

  An offset that cuts the text has the position that the text
  before it is long, and back.  Between the two characters of
  a line break the position is that of the end of the line.
  Both translations keep the order, and the lines with their
  breaks are the text.

  Key definitions include:
    * `Text.HasCut`, `Text.IsInBreak`
    * `Line.IsBroken`

  Main declarations:
    * `Line.positionOf_cut`, `Line.positionOf_inBreak`
    * `Line.offsetOf_mono`
    * `Line.isBroken_split`
    * `Document.offsets_and_positions`
-/

------------------------------------------------------------
-- Cuts
------------------------------------------------------------

namespace Bracketry

namespace Text

/- The offset is not inside a character. -/
def HasCut
    (text : List Char)
    (offset : Nat) :
    Prop :=
  ∃ before behind,
    text = before ++ behind ∧ byteSize before = offset

theorem splitAt?_isSome_iff
    {text : List Char}
    {offset : Nat} :
    (splitAt? offset text).isSome = true ↔
      HasCut text offset := by
  rw [Option.isSome_iff_exists]
  constructor
  · rintro ⟨⟨before, behind⟩, hSplit⟩
    exact ⟨before, behind, splitAt?_eq_some.1 hSplit⟩
  · rintro ⟨before, behind, hText⟩
    exact ⟨(before, behind), splitAt?_eq_some.2 hText⟩

instance
    (text : List Char)
    (offset : Nat) :
    Decidable (HasCut text offset) :=
  decidable_of_iff _ splitAt?_isSome_iff

/-
  The offset lies between the carriage return and the line
  feed of one line break.
-/
def IsInBreak
    (text : List Char)
    (offset : Nat) :
    Prop :=
  ∃ before behind,
    text = before ++ '\r' :: '\n' :: behind ∧
      byteSize before + 1 = offset

/- Two cuts at one offset are one cut. -/
theorem eq_of_cuts
    {before behind first rest : List Char}
    (h : before ++ behind = first ++ rest)
    (hSize : byteSize before = byteSize first) :
    before = first ∧ behind = rest := by
  have hCut := splitAt?_append before behind
  rw [h, hSize, splitAt?_append] at hCut
  rcases Prod.mk.inj (Option.some.inj hCut) with ⟨rfl, rfl⟩
  exact ⟨rfl, rfl⟩

theorem isInBreak_iff
    {before behind : List Char} :
    IsInBreak (before ++ behind) (byteSize before) ↔
      before.getLast? = some '\r' ∧
        behind.head? = some '\n' := by
  constructor
  · rintro ⟨first, rest, hText, hSize⟩
    have hOne : byteSize ['\r'] = 1 := rfl
    rw [List.append_cons] at hText
    rcases eq_of_cuts hText (by rw [byteSize_append]; omega) with
      ⟨rfl, rfl⟩
    simp
  · rintro ⟨hLast, hHead⟩
    rcases List.getLast?_eq_some_iff.1 hLast with ⟨first, rfl⟩
    rcases List.head?_eq_some_iff.1 hHead with ⟨rest, rfl⟩
    refine ⟨first, rest, by simp, ?_⟩
    rw [byteSize_append]
    rfl

end Text

end Bracketry

------------------------------------------------------------
-- Positions of Cuts
------------------------------------------------------------

namespace Bracketry

open Measured

namespace Line

variable {before behind : List Char}

/- A cut outside the breaks is a place on a line. -/
theorem hasPlace_of_cut
    (h :
      ¬(before.getLast? = some '\r' ∧
        behind.head? = some '\n')) :
    HasPlace (split (before ++ behind))
      (Length.ofText before) := by
  rcases List.exists_cons_of_ne_nil (split_ne_nil behind) with
    ⟨first, rest, hBehind⟩
  rcases split_append h hBehind with
    ⟨passed, left, hSplit, hLength⟩
  rw [hSplit, hLength]
  refine ⟨⟨left ++ first.text, first.ending⟩, ?_, ?_⟩
  · simp
  · simp [columns, Text.byteSize_append]

/- The position of a cut is the length of the text before. -/
theorem positionOf_cut
    (h :
      ¬(before.getLast? = some '\r' ∧
        behind.head? = some '\n')) :
    positionOf (split (before ++ behind))
        (Text.byteSize before) =
      Length.ofText before := by
  have hPlace := hasPlace_of_cut h
  rw [← offsetOf_ofText hPlace]
  exact (positionOf_offsetOf_iff _ _).2 hPlace

theorem hasPlace_positionOf
    (text : List Char)
    (offset : Nat) :
    HasPlace (split text)
      (positionOf (split text) offset) := by
  rcases List.exists_cons_of_ne_nil (split_ne_nil text) with
    ⟨first, rest, hLines⟩
  rcases exists_of_positionFrom first rest 0 offset with
    ⟨place, hPlace, hSame⟩
  rw [hLines, positionOf, hSame, Nat.zero_add]
  exact hPlace

/- The offset of a position does not pass the offset. -/
theorem offsetOf_positionOf_le
    (text : List Char)
    (offset : Nat) :
    offsetOf (split text) (positionOf (split text) offset) ≤
      offset :=
  (le_positionOf_iff (hasPlace_positionOf text offset)
    offset).1 le_rfl

/- Between the characters of a break there is no place. -/
theorem not_hasPlace_inBreak
    (before behind : List Char) :
    ¬HasPlace (split (before ++ '\r' :: '\n' :: behind))
      (Length.ofText (before ++ ['\r'])) := by
  have hCut :
      ¬(before.getLast? = some '\r' ∧
        ('\r' :: '\n' :: behind).head? = some '\n') := by
    simp
  have hBreak :
      split ('\r' :: '\n' :: behind) =
        ⟨[], ['\r', '\n']⟩ :: split behind := by
    rw [split]
  rcases split_append hCut hBreak with
    ⟨passed, left, hSplit, hLength⟩
  rw [hSplit, Length.ofText_append, hLength]
  rintro ⟨line, hLine, hColumns⟩
  have hSame :
      line = ⟨left ++ [], ['\r', '\n']⟩ := by
    simpa [Length.ofText, Length.ofChar, Length.add_def]
      using hLine.symm
  subst hSame
  have hPos := Char.utf8Size_pos '\r'
  simp [Length.ofText, Length.ofChar, Length.add_def,
    columns] at hColumns
  omega

/- Only a place at an offset is the text before it long. -/
theorem eq_ofText_of_offsetOf
    {place : Position}
    (hPlace : HasPlace (split (before ++ behind)) place)
    (hOffset :
      offsetOf (split (before ++ behind)) place =
        Text.byteSize before) :
    place = Length.ofText before := by
  rcases exists_of_hasPlace hPlace with
    ⟨first, last, hBytes, hExtent, hLength⟩
  rw [TextByte.ofText_append] at hBytes
  have hSame :
      (TextByte.ofText before).length = first.length := by
    rw [TextByte.length_ofText, hLength, hOffset]
  rcases List.append_inj hBytes hSame with ⟨rfl, _⟩
  rw [← hExtent, TextByte.extent_ofText]

/- Inside a break the position is that of its start. -/
theorem positionOf_inBreak
    (before behind : List Char) :
    positionOf (split (before ++ '\r' :: '\n' :: behind))
        (Text.byteSize before + 1) =
      Length.ofText before := by
  have hCut :
      ¬(before.getLast? = some '\r' ∧
        ('\r' :: '\n' :: behind).head? = some '\n') := by
    simp
  have hStart := hasPlace_of_cut hCut
  have hPlace :=
    hasPlace_positionOf (before ++ '\r' :: '\n' :: behind)
      (Text.byteSize before + 1)
  apply le_antisymm
  · rw [← positionOf_cut hCut, le_positionOf_iff hPlace]
    have hLe := offsetOf_positionOf_le
      (before ++ '\r' :: '\n' :: behind)
      (Text.byteSize before + 1)
    rcases Nat.lt_or_eq_of_le hLe with hLess | hSame
    · exact Nat.le_of_lt_succ hLess
    · -- a place with this offset would split the break
      have hSize :
          Text.byteSize (before ++ ['\r']) =
            Text.byteSize before + 1 := by
        rw [Text.byteSize_append]
        rfl
      rw [List.append_cons] at hPlace hSame
      rw [← hSize] at hPlace hSame
      have hInside := eq_ofText_of_offsetOf hPlace hSame
      rw [hInside, List.append_assoc] at hPlace
      exact absurd hPlace (not_hasPlace_inBreak before behind)
  · rw [le_positionOf_iff hStart, offsetOf_ofText hStart]
    exact Nat.le_succ _

end Line

end Bracketry

------------------------------------------------------------
-- Order
------------------------------------------------------------

namespace Bracketry

namespace Line

theorem positionOf_mono
    (text : List Char)
    {offset later : Nat}
    (h : offset ≤ later) :
    positionOf (split text) offset ≤
      positionOf (split text) later :=
  (le_positionOf_iff (hasPlace_positionOf text offset)
    later).2 ((offsetOf_positionOf_le text offset).trans h)

/- Of two places the later one has no smaller offset. -/
theorem offsetOf_le_of_places
    {text : List Char}
    {place later : Position}
    (hPlace : HasPlace (split text) place)
    (hLater : HasPlace (split text) later)
    (h : place ≤ later) :
    offsetOf (split text) place ≤
      offsetOf (split text) later := by
  rw [← le_positionOf_iff hPlace,
    (positionOf_offsetOf_iff text later).2 hLater]
  exact h

/- The place of a line that a position is clamped to. -/
def clampColumn
    (lines : List Line)
    (position : Position) :
    Position :=
  ⟨position.lines,
    min position.columns
      (Text.byteSize (textAt lines position.lines))⟩

section Clamped

variable {lines : List Line} {position later : Position}

theorem hasPlace_clampColumn
    (h : position.lines < lines.length) :
    HasPlace lines (clampColumn lines position) := by
  have hLine := List.getElem?_eq_getElem h
  refine ⟨lines[position.lines], hLine, ?_⟩
  rw [clampColumn, textAt_of_getElem? hLine]
  exact Nat.min_le_right _ _

theorem offsetOf_clampColumn
    (h : position.lines < lines.length) :
    offsetOf lines (clampColumn lines position) =
      offsetOf lines position := by
  have hLine :
      min position.lines (lines.length - 1) =
        position.lines := by
    omega
  simp only [offsetOf, clampColumn]
  rw [offsetFrom_eq,
    offsetFrom_eq lines position.lines position.columns,
    hLine, Nat.min_assoc, Nat.min_self]

theorem clampColumn_mono
    (h : position ≤ later) :
    clampColumn lines position ≤ clampColumn lines later := by
  rw [Length.le_def] at h ⊢
  rcases h with hLess | ⟨hSame, hColumns⟩
  · exact .inl hLess
  · refine .inr ⟨hSame, ?_⟩
    simp only [clampColumn, hSame]
    omega

end Clamped

/- Positions of lines that exist keep their order. -/
theorem offsetOf_mono
    {text : List Char}
    {position later : Position}
    (hLater : later.lines < (split text).length)
    (h : position ≤ later) :
    offsetOf (split text) position ≤
      offsetOf (split text) later := by
  have hPosition : position.lines < (split text).length := by
    rcases Length.le_def.1 h with hLess | ⟨hSame, _⟩ <;> omega
  rw [← offsetOf_clampColumn hPosition,
    ← offsetOf_clampColumn hLater]
  exact offsetOf_le_of_places
    (hasPlace_clampColumn hPosition)
    (hasPlace_clampColumn hLater) (clampColumn_mono h)

end Line

end Bracketry

------------------------------------------------------------
-- Lines and Their Breaks
------------------------------------------------------------

namespace Bracketry

namespace Line

/-
  A line that ends with a line break, to which a carriage
  return right before the line feed belongs.
-/
def IsBroken
    (line : Line) :
    Prop :=
  '\n' ∉ line.text ∧
    (line.ending = ['\r', '\n'] ∨
      line.ending = ['\n'] ∧ line.text.getLast? ≠ some '\r')

/- The last line ends the text, and the others are broken. -/
def AreBroken : List Line → Prop
  | [] => False
  | [last] => '\n' ∉ last.text ∧ last.ending = []
  | first :: rest => first.IsBroken ∧ AreBroken rest

theorem areBroken_cons
    {first : Line}
    {rest : List Line}
    (hFirst : first.IsBroken)
    (hRest : AreBroken rest) :
    AreBroken (first :: rest) := by
  cases rest with
  | nil => exact hRest.elim
  | cons second others => exact ⟨hFirst, hRest⟩

theorem areBroken_split
    (text : List Char) :
    AreBroken (split text) := by
  fun_induction split text with
  | case1 => exact ⟨by simp, rfl⟩
  | case2 rest ih =>
      exact areBroken_cons ⟨by simp, .inr ⟨rfl, by simp⟩⟩ ih
  | case3 rest ih =>
      exact areBroken_cons ⟨by simp, .inl rfl⟩ ih
  | case4 c rest _ _ hNil =>
      exact absurd hNil (split_ne_nil rest)
  | case5 c rest hBreak hReturn first lines hCons ih =>
      rw [hCons] at ih
      have hFeed :
          '\n' ∉ first.text → '\n' ∉ c :: first.text := by
        intro hFirst hMem
        rcases List.mem_cons.1 hMem with rfl | hMem
        · exact hBreak rfl
        · exact hFirst hMem
      cases lines with
      | nil => exact ⟨hFeed ih.1, ih.2⟩
      | cons second others =>
          rcases ih with ⟨⟨hFirst, hEnding⟩, hRest⟩
          refine ⟨⟨hFeed hFirst, hEnding.imp_right ?_⟩, hRest⟩
          rintro ⟨hOnly, hLast⟩
          refine ⟨hOnly, ?_⟩
          cases hText : first.text with
          | nil =>
              -- the line feed stands right behind the character
              have hJoin := join_split rest
              rw [hCons, join, List.flatMap_cons, hText,
                hOnly] at hJoin
              intro hSame
              have hC : c = '\r' := by simpa using hSame
              exact hReturn _ hC hJoin.symm
          | cons d more =>
              rw [hText] at hLast
              simpa [List.getLast?_cons_cons] using hLast

end Line

end Bracketry

------------------------------------------------------------
-- Documents
------------------------------------------------------------

namespace Bracketry

namespace Document

variable {document : Document} {offset : Nat}
variable {position : Position}

theorem IsCounted.positionOf_eq
    (hCounted : document.IsCounted)
    (offset : Nat) :
    document.positionOf offset =
      if Text.HasCut document.text
          (min offset document.size) then
        .ok (Line.positionOf document.lines
          (min offset document.size))
      else .error .splitCharacter := by
  simp only [positionOf, ← Text.splitAt?_isSome_iff,
    Line.AreCounted.countedPosition_eq hCounted]
  cases Text.splitAt? (min offset document.size)
    document.text <;> simp

/- Exactly the offsets that cut the text have a position. -/
theorem positionOf_eq_ok_iff_hasCut
    (hCounted : document.IsCounted) :
    document.positionOf offset = .ok position ↔
      Text.HasCut document.text (min offset document.size) ∧
        Line.positionOf document.lines
          (min offset document.size) = position := by
  rw [hCounted.positionOf_eq]
  split <;> simp [*]

/- The position of a cut outside the breaks leads back. -/
theorem offsetOf_of_cut
    {before behind : List Char}
    (hCounted : document.IsCounted)
    (hText : document.text = before ++ behind)
    (hBreak :
      ¬Text.IsInBreak document.text (Text.byteSize before)) :
    document.positionOf (Text.byteSize before) =
        .ok (Length.ofText before) ∧
      document.offsetOf (Length.ofText before) =
        Text.byteSize before := by
  have hSize :
      min (Text.byteSize before) document.size =
        Text.byteSize before := by
    rw [size, hText, Text.byteSize_append]
    omega
  have hCut :
      Text.HasCut document.text
        (min (Text.byteSize before) document.size) :=
    ⟨before, behind, hText, hSize.symm⟩
  rw [hText, Text.isInBreak_iff] at hBreak
  rw [hCounted.positionOf_eq, if_pos hCut, hSize,
    hCounted.offsetOf_eq, lines, hText,
    Line.positionOf_cut hBreak,
    Line.offsetOf_ofText (Line.hasPlace_of_cut hBreak)]
  exact ⟨rfl, rfl⟩

/- Inside a break, the position leads to its start. -/
theorem offsetOf_of_inBreak
    (hCounted : document.IsCounted)
    (hBreak : Text.IsInBreak document.text offset)
    (h : document.positionOf offset = .ok position) :
    document.offsetOf position + 1 = offset := by
  rcases hBreak with ⟨before, behind, hText, rfl⟩
  have hBehind :
      Text.byteSize ('\r' :: '\n' :: behind) =
        2 + Text.byteSize behind := by
    have hBoth : Text.byteSize ['\r', '\n'] = 2 := rfl
    rw [← hBoth, ← Text.byteSize_append]
    rfl
  have hSize :
      min (Text.byteSize before + 1) document.size =
        Text.byteSize before + 1 := by
    rw [size, hText, Text.byteSize_append, hBehind]
    omega
  have hCut :
      ¬(before.getLast? = some '\r' ∧
        ('\r' :: '\n' :: behind).head? = some '\n') := by
    simp
  rcases (positionOf_eq_ok_iff_hasCut hCounted).1 h with
    ⟨_, rfl⟩
  rw [hSize, hCounted.offsetOf_eq, lines, hText,
    Line.positionOf_inBreak,
    Line.offsetOf_ofText (Line.hasPlace_of_cut hCut)]

theorem IsCounted.offsetOf_eq_add
    (hCounted : document.IsCounted)
    (position : Position) :
    document.offsetOf position =
      document.offsetOf
          ⟨min position.lines (document.lines.length - 1), 0⟩ +
        min position.columns
          (Text.byteSize
            (document.line
              (min position.lines
                (document.lines.length - 1)))) := by
  rw [hCounted.offsetOf_eq, hCounted.offsetOf_eq,
    Line.offsetOf, Line.offsetFrom_eq]
  rfl

/-
  Offsets and positions of a document whose lines and columns
  are counts, however it was made and edited.  The offsets
  inside a character are refused.  All others have a position,
  which is the length of the text before the offset and leads
  back to it; between the two characters of a break it is that
  of the end of the line.
  Each place that cuts the text has an offset that leads back
  to it.  Both translations keep the order, the lines with
  their breaks are the text, and the end is where the length
  of the text says.
-/
theorem offsets_and_positions
    {document : Document}
    (hCounted : document.IsCounted) :
    (∀ offset,
        (∃ position,
            document.positionOf offset = .ok position) ↔
          Text.HasCut document.text
            (min offset document.size)) ∧
      (∀ offset position,
        offset ≤ document.size →
          document.positionOf offset = .ok position →
            (¬Text.IsInBreak document.text offset →
                document.offsetOf position = offset) ∧
              (Text.IsInBreak document.text offset →
                document.offsetOf position + 1 = offset)) ∧
      (∀ position,
        Line.HasPlace document.lines position →
          Text.HasCut document.text
              (document.offsetOf position) →
            document.positionOf (document.offsetOf position) =
              .ok position) ∧
      (∀ before behind,
        document.text = before ++ behind →
          ¬Text.IsInBreak document.text
              (Text.byteSize before) →
            document.positionOf (Text.byteSize before) =
              .ok (Length.ofText before)) ∧
      (∀ position,
        let line :=
          min position.lines (document.lines.length - 1)
        document.offsetOf position =
          document.offsetOf ⟨line, 0⟩ +
            min position.columns
              (Text.byteSize (document.line line))) ∧
      (∀ offset later position laterPosition,
        offset ≤ later →
          document.positionOf offset = .ok position →
            document.positionOf later = .ok laterPosition →
              position ≤ laterPosition) ∧
      (∀ position later,
        later.lines < document.lines.length →
          position ≤ later →
            document.offsetOf position ≤
              document.offsetOf later) ∧
      Line.join document.lines = document.text ∧
      Line.AreBroken document.lines ∧
      document.endPosition = Length.ofText document.text := by
  refine ⟨?_, ?_, ?_, fun before behind hText hBreak =>
      (offsetOf_of_cut hCounted hText hBreak).1,
    hCounted.offsetOf_eq_add, ?_, ?_,
    Line.join_split _, Line.areBroken_split _, ?_⟩
  · intro offset
    simp only [positionOf_eq_ok_iff_hasCut hCounted]
    simp
  · intro offset position hOffset h
    refine ⟨fun hBreak => ?_,
      fun hBreak =>
        offsetOf_of_inBreak hCounted hBreak h⟩
    rcases ((positionOf_eq_ok_iff_hasCut hCounted).1 h).1 with
      ⟨before, behind, hText, hSize⟩
    rw [Nat.min_eq_left hOffset] at hSize
    subst hSize
    rcases offsetOf_of_cut hCounted hText hBreak with
      ⟨hPosition, hBack⟩
    rw [hPosition] at h
    rwa [← Except.ok.inj h]
  · intro position hPlace hCut
    exact (positionOf_eq_ok_iff hCounted
      (Text.splitAt?_isSome_iff.2 hCut)).2 hPlace
  · intro offset later position laterPosition hLe h hLater
    rcases (positionOf_eq_ok_iff_hasCut hCounted).1 h with
      ⟨_, rfl⟩
    rcases (positionOf_eq_ok_iff_hasCut hCounted).1 hLater with
      ⟨_, rfl⟩
    exact Line.positionOf_mono _ (by omega)
  · intro position later hLater h
    rw [hCounted.offsetOf_eq, hCounted.offsetOf_eq]
    exact Line.offsetOf_mono hLater h
  · rw [hCounted.endPosition_eq]
    exact Line.endPosition_split document.text

/- A break behind a character of two bytes. -/
theorem offsets_and_positions_twoLines :
    let document := ofText ['é', '\r', '\n', 'b']
    document.IsCounted ∧
      document.positionOf 3 = .ok ⟨0, 2⟩ ∧
      document.offsetOf ⟨0, 2⟩ + 1 = 3 ∧
      document.positionOf 4 = .ok ⟨1, 0⟩ ∧
      document.offsetOf ⟨1, 0⟩ = 4 := by
  intro document
  have hCounted : document.IsCounted := by decide
  rcases offsets_and_positions hCounted with ⟨_, hBack, _⟩
  have hInside : document.positionOf 3 = .ok ⟨0, 2⟩ := by
    decide
  have hBehind : document.positionOf 4 = .ok ⟨1, 0⟩ := by
    decide
  refine ⟨hCounted, hInside, ?_, hBehind, ?_⟩
  · exact (hBack 3 _ (by decide) hInside).2
      ⟨['é'], ['b'], rfl, rfl⟩
  · refine (hBack 4 _ (by decide) hBehind).1 fun hBreak => ?_
    have hChars :=
      (Text.isInBreak_iff : _ ↔
        ['é', '\r', '\n'].getLast? = some '\r' ∧
          ['b'].head? = some '\n').1 hBreak
    exact absurd hChars (by decide)

end Document

end Bracketry
