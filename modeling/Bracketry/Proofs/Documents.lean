import Bracketry.Proofs.CountedLines
import Bracketry.Proofs.Scans

/-
  Edits of a document.

  A position of a document that is no place inside a
  character cuts its text in two.  Replacing what is between
  two such positions is one edit of the pieces of the text,
  whatever the pieces are.

  Key definitions include:
    * `Document.HasPosition`
    * `Document.edited`

  Main declarations:
    * `Line.exists_of_hasPlace`
    * `Document.exists_of_replace`
-/

------------------------------------------------------------
-- Offsets of Places
------------------------------------------------------------

namespace Bracketry

open Measured

namespace Line

/- A place on the first line, and one on a later line. -/
theorem offsetOf_cons
    {first : Line}
    {rest : List Line}
    {place : Position}
    (h : HasPlace (first :: rest) place) :
    offsetOf (first :: rest) place =
      if place.lines = 0 then place.columns
      else
        first.size +
          offsetOf rest ⟨place.lines - 1, place.columns⟩ := by
  rcases hasPlace_cons.1 h with
    ⟨hLines, hColumns⟩ | ⟨line, hLines, last, hLast, hColumns⟩
  · rw [if_pos hLines]
    cases rest <;>
      simp [offsetOf, offsetFrom, hLines, hColumns]
  · cases rest with
    | nil => simp at hLast
    | cons second others =>
        simp [offsetOf, offsetFrom, hLines]

theorem offsetOf_zero
    {lines : List Line}
    (h : HasPlace lines 0) :
    offsetOf lines 0 = 0 := by
  cases lines with
  | nil => rfl
  | cons first rest => exact offsetOf_cons h

/- A character in front of a line counts with its bytes. -/
theorem offsetOf_char
    {c : Char}
    {line : Line}
    {lines : List Line}
    {inner : Position}
    (h : HasPlace (line :: lines) inner) :
    offsetOf (⟨c :: line.text, line.ending⟩ :: lines)
        (⟨0, c.utf8Size⟩ + inner) =
      c.utf8Size + offsetOf (line :: lines) inner := by
  have hPlace :
      HasPlace (⟨c :: line.text, line.ending⟩ :: lines)
        (⟨0, c.utf8Size⟩ + inner) :=
    TextByte.hasPlace_char.2 (.inr ⟨inner, rfl, h⟩)
  rw [offsetOf_cons hPlace, offsetOf_cons h]
  simp only [Length.add_lines, Length.add_columns, Line.size,
    Text.byteSize, Nat.zero_add]
  split_ifs
  · rfl
  · omega

/- A place behind the break of an empty first line. -/
theorem offsetOf_break
    {ending : List Char}
    {rest : List Line}
    {line column : Nat}
    (h : HasPlace rest ⟨line, column⟩) :
    offsetOf (⟨[], ending⟩ :: rest) ⟨line + 1, column⟩ =
      Text.byteSize ending +
        offsetOf rest ⟨line, column⟩ := by
  have hPlace :
      HasPlace (⟨[], ending⟩ :: rest) ⟨line + 1, column⟩ :=
    hasPlace_cons.2 (.inr ⟨line, rfl, h⟩)
  rw [offsetOf_cons hPlace]
  simp [Line.size]

/- The offset of a place counts the bytes before it. -/
theorem exists_of_hasPlace
    {text : List Char}
    {place : Position}
    (h : HasPlace (split text) place) :
    ∃ before behind,
      TextByte.ofText text = before ++ behind ∧
        extent before = place ∧
        before.length = offsetOf (split text) place := by
  rcases place with ⟨line, column⟩
  fun_induction split text generalizing line column with
  | case1 =>
      rcases TextByte.hasPlace_break.1 h with
        hPlace | ⟨_, _, _, hNone, _⟩
      · rw [hPlace] at h ⊢
        exact ⟨[], [], rfl, rfl, (offsetOf_zero h).symm⟩
      · simp at hNone
  | case2 rest ih =>
      rcases TextByte.hasPlace_break.1 h with
        hPlace | ⟨below, rfl, hRest⟩
      · rw [hPlace] at h ⊢
        exact ⟨[], _, rfl, rfl, (offsetOf_zero h).symm⟩
      · rcases ih below column hRest with
          ⟨before, behind, hBytes, hExtent, hLength⟩
        refine ⟨.lineFeed :: before, behind, ?_, ?_, ?_⟩
        · rw [TextByte.ofText_cons, hBytes]
          rfl
        · rw [extent_cons, hExtent]
          exact Length.break_add _
        · rw [offsetOf_break hRest, List.length_cons, hLength,
            Nat.add_comm]
          rfl
  | case3 rest ih =>
      rcases TextByte.hasPlace_break.1 h with
        hPlace | ⟨below, rfl, hRest⟩
      · rw [hPlace] at h ⊢
        exact ⟨[], _, rfl, rfl, (offsetOf_zero h).symm⟩
      · rcases ih below column hRest with
          ⟨before, behind, hBytes, hExtent, hLength⟩
        refine ⟨.carriage :: .lineFeed :: before, behind, ?_,
          ?_, ?_⟩
        · rw [TextByte.ofText_cons, TextByte.ofText_cons, hBytes]
          rfl
        · rw [extent_cons, extent_cons, ← add_assoc, hExtent]
          exact Length.break_add _
        · have hSize : Text.byteSize ['\r', '\n'] = 2 := rfl
          rw [offsetOf_break hRest, List.length_cons,
            List.length_cons, hLength, hSize, Nat.add_comm 2]
  | case4 c rest hBreak hReturn hNil ih =>
      exact absurd hNil (split_ne_nil rest)
  | case5 c rest hBreak hReturn first lines hCons ih =>
      rw [hCons] at ih
      rcases TextByte.ofChar_flat hBreak with ⟨hFlat, hSize⟩
      rcases TextByte.hasPlace_char.1 h with
        ⟨hLines, hColumns⟩ | ⟨inner, hPlace, hInner⟩
      · simp only at hLines hColumns
        refine ⟨(TextByte.ofChar c).take column,
          (TextByte.ofChar c).drop column ++ TextByte.ofText rest,
          ?_, ?_, ?_⟩
        · rw [← List.append_assoc, List.take_append_drop]
          exact TextByte.ofText_cons _ _
        · rw [TextByte.extent_eq_of_flat (fun byte hByte =>
            hFlat byte (List.mem_of_mem_take hByte)),
            List.length_take, hSize,
            Nat.min_eq_left (Nat.le_of_lt hColumns), hLines]
        · rw [offsetOf_cons h, if_pos hLines,
            List.length_take, hSize,
            Nat.min_eq_left (Nat.le_of_lt hColumns)]
      · rcases ih inner.lines inner.columns hInner with
          ⟨before, behind, hBytes, hExtent, hLength⟩
        refine ⟨TextByte.ofChar c ++ before, behind, ?_, ?_, ?_⟩
        · rw [TextByte.ofText_cons, hBytes, List.append_assoc]
        · rw [extent_append, hExtent, hPlace,
            TextByte.extent_eq_of_flat hFlat, hSize]
        · rw [hPlace, offsetOf_char hInner,
            List.length_append, hLength, hSize]

end Line

end Bracketry

------------------------------------------------------------
-- Positions of a Document
------------------------------------------------------------

namespace Bracketry

open Measured

namespace Document

/-
  The position lies inside the document, and not inside a
  character.
-/
def HasPosition
    (document : Document)
    (position : Position) :
    Prop :=
  Line.HasPlace document.lines position ∧
    (Text.splitAt? (document.offsetOf position)
      document.text).isSome = true

instance
    (lines : List Line)
    (place : Position) :
    Decidable (Line.HasPlace lines place) :=
  match hLine : lines[place.lines]? with
  | none => .isFalse (by rintro ⟨_, hSome, _⟩; simp_all)
  | some line =>
      if hColumn : place.columns ≤ line.columns then
        .isTrue ⟨line, hLine, hColumn⟩
      else .isFalse (by
        rintro ⟨other, hSome, hOther⟩
        rw [hLine] at hSome
        rw [Option.some.inj hSome] at hColumn
        exact hColumn hOther)

instance
    (document : Document)
    (position : Position) :
    Decidable (document.HasPosition position) :=
  inferInstanceAs (Decidable (_ ∧ _))

/- A position cuts the text in two. -/
theorem HasPosition.exists_cut
    {document : Document}
    {position : Position}
    (hCounted : document.IsCounted)
    (h : document.HasPosition position) :
    ∃ before behind,
      document.text = before ++ behind ∧
        extent before = position ∧
        Text.byteSize before = document.offsetOf position := by
  rcases h with ⟨hPlace, hCut⟩
  rcases Option.isSome_iff_exists.1 hCut with
    ⟨⟨before, behind⟩, hSplit⟩
  rcases Text.splitAt?_eq_some.1 hSplit with ⟨hText, hSize⟩
  rcases Line.exists_of_hasPlace hPlace with
    ⟨first, last, hBytes, hExtent, hLength⟩
  refine ⟨before, behind, hText, ?_, hSize⟩
  have hSame :
      TextByte.ofText before ++ TextByte.ofText behind =
        first ++ last := by
    rw [← TextByte.ofText_append, ← hText, hBytes]
  have hFirst :
      (TextByte.ofText before).length = first.length := by
    rw [TextByte.length_ofText, hSize, hLength,
      hCounted.offsetOf_eq]
    rfl
  rcases List.append_inj hSame hFirst with ⟨hBefore, _⟩
  rw [extent_chars, ← TextByte.extent_ofText, hBefore, hExtent]

/- The document whose text was edited once more. -/
def edited
    (document : Document)
    (text : List Char) :
    Document :=
  { document with
    text := text, version := document.version + 1 }

/-
  What a replacement between two positions cuts from the
  text and puts in its place.
-/
theorem exists_of_replace
    {document : Document}
    {start stop : Position}
    (inserted : List Char)
    (hCounted : document.IsCounted)
    (hStart : document.HasPosition start)
    (hStop : document.HasPosition stop)
    (hOrder : start ≤ stop) :
    ∃ before cut behind,
      document.text = before ++ (cut ++ behind) ∧
        extent before = start ∧
        start + extent cut = stop ∧
        document.replace start stop inserted =
          .ok (document.edited
            (before ++ (inserted ++ behind))) := by
  rcases hStart.exists_cut hCounted with
    ⟨before, rest, hFirst, hBefore, hStartSize⟩
  rcases hStop.exists_cut hCounted with
    ⟨passed, behind, hSecond, hPassed, hStopSize⟩
  have hSame : before ++ rest = passed ++ behind := by
    rw [← hFirst, hSecond]
  rcases exists_of_extent_le hSame
      (by rwa [hBefore, hPassed]) with
    ⟨cut, rfl, rfl⟩
  refine ⟨before, cut, behind, hFirst, hBefore, ?_, ?_⟩
  · rw [← hBefore, ← extent_append, hPassed]
  · have hStartCut :
        Text.splitAt? (Text.byteSize before)
            document.text =
          some (before, cut ++ behind) := by
      rw [hFirst]
      exact Text.splitAt?_append _ _
    have hStopCut :
        Text.splitAt? (Text.byteSize (before ++ cut))
            document.text =
          some (before ++ cut, behind) := by
      rw [hSecond]
      exact Text.splitAt?_append _ _
    have hSize : document.size = Text.byteSize before +
        (Text.byteSize cut + Text.byteSize behind) := by
      rw [size, hFirst, Text.byteSize_append,
        Text.byteSize_append]
    have hStartMin :
        min (Text.byteSize before) document.size =
          Text.byteSize before := by
      omega
    have hStopMin :
        min (Text.byteSize (before ++ cut)) document.size =
          Text.byteSize (before ++ cut) := by
      rw [Text.byteSize_append]
      omega
    rw [replace, replaceRange, ← hStartSize, ← hStopSize,
      hStartMin, hStopMin, Text.splice, hStartCut, hStopCut]
    simp [bind, Except.bind, pure, Except.pure, edited]

end Document

end Bracketry

------------------------------------------------------------
-- One Edit
------------------------------------------------------------

namespace Bracketry

open Measured

/- One edit between texts that are kept around it. -/
theorem Turns.single
    {α β : Type}
    [Measured α]
    [Measured β]
    {rel : α → β → Prop}
    {gap cut old : List α}
    {same added new : List β}
    {edit : Edit}
    (hGap : List.Forall₂ rel gap same)
    (hOld : List.Forall₂ rel old new)
    (hStart : edit.start = extent gap)
    (hStop : edit.stop = edit.start + extent cut)
    (hInserted : edit.inserted = extent added) :
    Turns rel 0 [edit] (gap ++ (cut ++ old))
      (same ++ (added ++ new)) :=
  .edit hGap (by rw [hStart, zero_add]) hStop hInserted
    (.kept hOld)

end Bracketry
