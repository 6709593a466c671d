import Bracketry.Index.Offset
import Bracketry.Proofs.Overlays
import Bracketry.Proofs.PairLookups
import Bracketry.Proofs.Positions

/-
  Records of pairs over the bytes of a text.

  A place of a text is at most the position of an offset just
  if its offset is at most that offset.  So a bracket is at a
  position where its bytes are over the offset, inside a line
  break and behind the end of the text as well.  The records
  of closed pairs are told from the text alone.

  Key definitions include:
    * `Text.HasSlice`
    * `PairedBracket.covers`, `PairedBracket.Tells`
    * `PairInfo.IsOver`

  Main declarations:
    * `Line.le_positionOf_iff`
    * `PairInfo.forall₂_tells`
    * `PairInfo.filter_covers`
-/

------------------------------------------------------------
-- Places and Offsets
------------------------------------------------------------

namespace Bracketry

open Measured

namespace Line

/-
  The induction is on the lines.  An offset inside a break has
  the position of the end of its line, which no place of the
  line is behind.
-/
theorem le_positionFrom_iff
    {lines : List Line}
    {place : Position}
    (hPlace : HasPlace lines place)
    (number offset : Nat) :
    (⟨number + place.lines, place.columns⟩ : Position) ≤
        positionFrom number offset lines ↔
      offsetOf lines place ≤ offset := by
  induction lines generalizing place number offset with
  | nil => simp [HasPlace] at hPlace
  | cons first rest ih =>
      rw [offsetOf_cons hPlace]
      rcases hasPlace_cons.1 hPlace with
        ⟨hLines, hColumns⟩ | ⟨line, hLines, hRest⟩
      · rw [if_pos hLines, hLines, Nat.add_zero]
        have hHere :
            (⟨number, place.columns⟩ : Position) ≤
                ⟨number, min offset first.columns⟩ ↔
              place.columns ≤ offset := by
          rw [Length.le_def]
          simp only [Nat.lt_irrefl, true_and, false_or]
          omega
        cases rest with
        | nil => exact hHere
        | cons second others =>
            rw [positionFrom]
            · split_ifs with hFirst
              · exact hHere
              · rcases exists_of_positionFrom second others
                    (number + 1) (offset - first.size) with
                  ⟨other, _, hSame⟩
                have hSize : first.columns ≤ first.size := by
                  simp [columns, size]
                rw [hSame, Length.le_def]
                simp only
                omega
            · simp
      · rw [if_neg (by omega), hLines, Nat.add_sub_cancel]
        cases rest with
        | nil => simp [HasPlace] at hRest
        | cons second others =>
            rw [positionFrom]
            · split_ifs with hFirst
              · rw [Length.le_def]
                simp only
                omega
              · have hNext :=
                  ih hRest (number + 1) (offset - first.size)
                simp only at hNext
                have hNumber :
                    number + (line + 1) =
                      number + 1 + line := by
                  omega
                rw [hNumber, hNext]
                omega
            · simp

/- A place is passed where its offset is. -/
theorem le_positionOf_iff
    {lines : List Line}
    {place : Position}
    (hPlace : HasPlace lines place)
    (offset : Nat) :
    place ≤ positionOf lines offset ↔
      offsetOf lines place ≤ offset := by
  have h := le_positionFrom_iff hPlace 0 offset
  rwa [Nat.zero_add] at h

/- The offset of the place behind a part of a text. -/
theorem offsetOf_ofText
    {before behind : List Char}
    (hPlace :
      HasPlace (split (before ++ behind))
        (Length.ofText before)) :
    offsetOf (split (before ++ behind))
        (Length.ofText before) =
      Text.byteSize before := by
  rcases exists_of_hasPlace hPlace with
    ⟨first, last, hBytes, hExtent, hLength⟩
  rw [TextByte.ofText_append] at hBytes
  rw [← TextByte.extent_ofText] at hExtent
  rcases eq_of_extent_eq hBytes hExtent.symm with ⟨rfl, _⟩
  rw [← hLength, TextByte.length_ofText]

/- The column of an offset is at most the offset. -/
theorem columns_positionFrom_le
    (number offset : Nat)
    (lines : List Line) :
    (positionFrom number offset lines).columns ≤ offset := by
  induction lines generalizing number offset with
  | nil => exact Nat.zero_le _
  | cons first rest ih =>
      cases rest with
      | nil => exact Nat.min_le_left _ _
      | cons second others =>
          rw [positionFrom]
          · split_ifs
            · exact Nat.min_le_left _ _
            · exact (ih _ _).trans (Nat.sub_le _ _)
          · simp

/- A part of a text ends at a place, but for half a break. -/
theorem hasPlace_ofText
    {before behind : List Char}
    (h :
      (∀ c, before.getLast? = some c → ¬IsBreak c) ∨
        ∀ c, behind.head? = some c → ¬IsBreak c) :
    HasPlace (split (before ++ behind))
      (Length.ofText before) := by
  rw [TextByte.hasPlace_iff]
  refine ⟨TextByte.ofText before, TextByte.ofText behind,
    TextByte.ofText_append _ _, TextByte.extent_ofText _, ?_⟩
  rintro ⟨hLast, hHead⟩
  rcases h with hBefore | hBehind
  · exact TextByte.getLast?_ofText_ne hBefore hLast
  · refine TextByte.head?_ofText_ne ?_ hHead
    rintro rest rfl
    exact hBehind '\n' rfl (.inl rfl)

end Line

namespace Content

variable {content : Content} {text : List Char}

/- Clamping leaves the end of the content where it is. -/
theorem clamp_endPosition
    (content : Content) :
    content.clamp content.endPosition =
      content.endPosition := by
  have hLine :
      min content.endPosition.lines (content.lineCount - 1) =
        content.lineCount - 1 :=
    Nat.min_self _
  rw [clamp, hLine]
  exact Length.ext rfl (Nat.min_self _)

theorem clamp_zero
    (content : Content) :
    content.clamp 0 = 0 := by
  simp [clamp, Length.ext_iff]

/- The end of a text is at the number of its bytes. -/
theorem Counts.offsetOf_endPosition
    (h : content.Counts text) :
    content.offsetOf content.endPosition =
      Text.byteSize text := by
  have hPlace :
      Line.HasPlace (Line.split (text ++ []))
        (Length.ofText text) :=
    Line.hasPlace_ofText (.inr nofun)
  have hOffset := Line.offsetOf_ofText hPlace
  rw [List.append_nil] at hOffset
  rw [h.offsetOf_eq, h.endPosition_eq, hOffset]

end Content

end Bracketry

------------------------------------------------------------
-- Records of Pairs
------------------------------------------------------------

namespace Bracketry

open Measured

namespace Text

/-
  Some bytes of a text from an offset on lie in a range of
  places, and are a literal up to case.
-/
def HasSlice
    (text : List Char)
    (start length : Nat)
    (range : Range)
    (literal : List Char) :
    Prop :=
  ∃ before found behind,
    text = before ++ (found ++ behind) ∧
      byteSize before = start ∧ byteSize found = length ∧
      Length.ofText before = range.start ∧
      Length.ofText (before ++ found) = range.stop ∧
      (∀ c ∈ found, ¬IsBreak c) ∧
      lowercase found = lowercase literal

/- Of two fronts of a text, the shorter begins the longer. -/
theorem exists_of_byteSize_le
    {before behind first rest : List Char}
    (h : before ++ behind = first ++ rest)
    (hLe : byteSize first ≤ byteSize before) :
    ∃ between,
      before = first ++ between ∧
        rest = between ++ behind := by
  rcases List.append_eq_append_iff.1 h with
    ⟨more, rfl, rfl⟩ | ⟨between, rfl, rfl⟩
  · have hNil : more = [] := by
      by_contra hSome
      have hPos := byteSize_pos hSome
      rw [byteSize_append] at hLe
      omega
    subst hNil
    exact ⟨[], by simp, rfl⟩
  · exact ⟨between, rfl, rfl⟩

variable {text literal : List Char} {range : Range}

/- The bytes of a slice are bytes of the text, but no break. -/
theorem HasSlice.lt_byteSize
    {start length offset : Nat}
    (h : HasSlice text start length range literal)
    (hStart : start ≤ offset)
    (hStop : offset < start + length) :
    offset < byteSize text ∧
      ∀ before c behind,
        text = before ++ c :: behind →
          byteSize before = offset → ¬IsBreak c := by
  rcases h with
    ⟨first, found, rest, rfl, rfl, rfl, _, _, hFlat, _⟩
  constructor
  · rw [byteSize_append, byteSize_append]
    omega
  · rintro before c behind hText rfl
    rcases exists_of_byteSize_le hText.symm hStart with
      ⟨passed, rfl, hRest⟩
    rw [byteSize_append] at hStop
    rcases exists_of_byteSize_le hRest (by omega) with
      ⟨left, rfl, hLeft⟩
    cases left with
    | nil =>
        rw [byteSize_append, byteSize_nil] at hStop
        omega
    | cons d others =>
        rcases List.cons.inj hLeft with ⟨rfl, _⟩
        exact hFlat c (by simp)

/- A literal lies between two places of the text. -/
theorem HasLiteral.hasPlace
    (h : HasLiteral text range literal) :
    Line.HasPlace (Line.split text) range.start ∧
      Line.HasPlace (Line.split text) range.stop := by
  rcases h with
    ⟨before, found, behind, rfl, hStart, hStop, hSome, hFlat, _⟩
  constructor
  · rw [← hStart]
    refine Line.hasPlace_ofText (.inr fun c hHead => ?_)
    rw [List.head?_append_of_ne_nil _ hSome] at hHead
    exact hFlat c (List.mem_of_mem_head? hHead)
  · rw [← hStop, ← List.append_assoc]
    refine Line.hasPlace_ofText (.inl fun c hLast => ?_)
    rw [List.getLast?_append_of_ne_nil _ hSome] at hLast
    exact hFlat c (List.mem_of_getLast? hLast)

variable {content : Content}

/- The bytes of a range are those of its literal. -/
theorem HasLiteral.hasSlice
    (hContent : content.Counts text)
    (h : HasLiteral text range literal) :
    HasSlice text (PairedBracket.bytesOf content range).1
        (PairedBracket.bytesOf content range).2 range
        literal ∧
      (PairedBracket.bytesOf content range).2 ≠ 0 := by
  rcases h.hasPlace with ⟨hFirst, hLast⟩
  rcases h with
    ⟨before, found, behind, rfl, hStart, hStop, hSome, hFlat,
      hLiteral⟩
  have hBefore :
      content.offsetOf range.start = byteSize before := by
    rw [hContent.offsetOf_eq, ← hStart]
    rw [← hStart] at hFirst
    exact Line.offsetOf_ofText hFirst
  have hFound :
      content.offsetOf range.stop =
        byteSize before + byteSize found := by
    rw [hContent.offsetOf_eq, ← hStop, ← byteSize_append]
    rw [← hStop] at hLast
    rw [← List.append_assoc] at hLast ⊢
    exact Line.offsetOf_ofText hLast
  have hBytes :
      PairedBracket.bytesOf content range =
        (byteSize before, byteSize found) := by
    rw [PairedBracket.bytesOf, hBefore, hFound,
      Nat.add_sub_cancel_left]
  rw [hBytes]
  refine ⟨⟨before, found, behind, rfl, rfl, rfl, hStart, hStop,
    hFlat, hLiteral⟩, ?_⟩
  exact (byteSize_pos hSome).ne'

/- A bracket covers the position of the bytes it covers. -/
theorem HasLiteral.contains_iff
    (hContent : content.Counts text)
    (h : HasLiteral text range literal)
    (offset : Nat) :
    range.contains
          (Line.positionOf (Line.split text) offset) =
        true ↔
      (PairedBracket.bytesOf content range).1 ≤ offset ∧
        offset <
          (PairedBracket.bytesOf content range).1 +
            (PairedBracket.bytesOf content range).2 := by
  rcases h.hasPlace with ⟨hFirst, hLast⟩
  rcases h.hasSlice hContent with ⟨_, hSome⟩
  have hStop := Line.le_positionOf_iff hLast offset
  rw [Range.contains_iff,
    Line.le_positionOf_iff hFirst offset, ← not_le, hStop]
  simp only [PairedBracket.bytesOf, hContent.offsetOf_eq]
    at hSome ⊢
  omega

end Text

namespace PairedBracket

/- One of the brackets is over a byte. -/
def covers
    (record : PairedBracket)
    (offset : Nat) :
    Bool :=
  decide
      (record.leftIndex ≤ offset ∧
        offset < record.leftIndex + record.leftLength) ||
    decide
      (record.rightIndex ≤ offset ∧
        offset < record.rightIndex + record.rightLength)

/-
  The record tells of a closed pair.  Its bytes lie where the
  brackets are, and are their literals up to case.
-/
structure Tells
    (text : List Char)
    (info : PairInfo)
    (record : PairedBracket) :
    Prop where
  level : record.level = info.level
  left :
    Text.HasSlice text record.leftIndex record.leftLength
      info.openingRange info.opening.literal
  right :
    ∃ range kind,
      info.closingRange = some range ∧
        info.closing = some kind ∧
        Text.HasSlice text record.rightIndex
          record.rightLength range kind.literal

/- A record is over no break, and not behind the text. -/
theorem Tells.of_covers
    {text : List Char}
    {info : PairInfo}
    {record : PairedBracket}
    {offset : Nat}
    (h : Tells text info record)
    (hCovers : record.covers offset = true) :
    offset < Text.byteSize text ∧
      ∀ before c behind,
        text = before ++ c :: behind →
          Text.byteSize before = offset → ¬IsBreak c := by
  rw [covers, Bool.or_eq_true, decide_eq_true_eq,
    decide_eq_true_eq] at hCovers
  rcases hCovers with ⟨hStart, hStop⟩ | ⟨hStart, hStop⟩
  · exact h.left.lt_byteSize hStart hStop
  · rcases h.right with ⟨_, _, _, _, hRight⟩
    exact hRight.lt_byteSize hStart hStop

end PairedBracket

/- The brackets of a pair lie over their literals. -/
structure PairInfo.IsOver
    (text : List Char)
    (info : PairInfo) :
    Prop where
  opening :
    Text.HasLiteral text info.openingRange
      info.opening.literal
  closing :
    ∀ range, info.closingRange = some range →
      ∃ kind,
        info.closing = some kind ∧
          Text.HasLiteral text range kind.literal

namespace PairInfo

variable {content : Content} {text : List Char}
variable {info : PairInfo}

/- An unclosed pair has no record. -/
theorem ofInfo?_of_unclosed
    (h : info.closingRange = none) :
    PairedBracket.ofInfo? content info = none := by
  rw [PairedBracket.ofInfo?, h]

/-
  A closed pair has a record, which tells of it and is over
  the bytes at whose position the pair has a bracket.
-/
theorem IsOver.exists_record
    {closing : Range}
    (hContent : content.Counts text)
    (h : info.IsOver text)
    (hClosed : info.closingRange = some closing) :
    ∃ record,
      PairedBracket.ofInfo? content info = some record ∧
        PairedBracket.Tells text info record ∧
        ∀ offset,
          record.covers offset =
            info.hasBracketAt
              (Line.positionOf (Line.split text) offset) := by
  rcases h.closing closing hClosed with ⟨kind, hKind, hRight⟩
  rcases h.opening.hasSlice hContent with ⟨hOpening, hLeftSome⟩
  rcases hRight.hasSlice hContent with ⟨hClosing, hRightSome⟩
  let record : PairedBracket :=
    ⟨(PairedBracket.bytesOf content info.openingRange).1,
      (PairedBracket.bytesOf content info.openingRange).2,
      (PairedBracket.bytesOf content closing).1,
      (PairedBracket.bytesOf content closing).2, info.level⟩
  have hTells : PairedBracket.Tells text info record :=
    ⟨rfl, hOpening, closing, kind, hClosed, hKind, hClosing⟩
  refine ⟨record, ?_, hTells, fun offset => ?_⟩
  · rw [PairedBracket.ofInfo?, hClosed]
    simp [hLeftSome, hRightSome, record]
  · have hLeft := h.opening.contains_iff hContent offset
    have hOther := hRight.contains_iff hContent offset
    rw [hasBracketAt, hClosed, Option.any_some,
      PairedBracket.covers]
    rw [Bool.eq_iff_iff, Bool.or_eq_true, Bool.or_eq_true,
      hLeft, hOther, decide_eq_true_eq, decide_eq_true_eq]

variable {pairs : List PairInfo}

/- The records of a list tell of its closed pairs in order. -/
theorem forall₂_tells
    (hContent : content.Counts text)
    (h : ∀ info ∈ pairs, info.IsOver text) :
    List.Forall₂ (PairedBracket.Tells text)
      (pairs.filter (·.closingRange.isSome))
      (pairs.filterMap (PairedBracket.ofInfo? content)) := by
  induction pairs with
  | nil => exact .nil
  | cons info rest ih =>
      rw [List.forall_mem_cons] at h
      have hRest := ih h.2
      cases hClosed : info.closingRange with
      | none =>
          rw [List.filter_cons_of_neg (by simp [hClosed]),
            List.filterMap_cons_none
              (ofInfo?_of_unclosed hClosed)]
          exact hRest
      | some closing =>
          rcases h.1.exists_record hContent hClosed with
            ⟨record, hRecord, hTells, _⟩
          rw [List.filter_cons_of_pos (by simp [hClosed]),
            List.filterMap_cons_some hRecord]
          exact .cons hTells hRest

/- Each record of a list tells of a pair. -/
theorem exists_tells_of_mem
    {record : PairedBracket}
    (hContent : content.Counts text)
    (h : ∀ info ∈ pairs, info.IsOver text)
    (hRecord :
      record ∈
        pairs.filterMap (PairedBracket.ofInfo? content)) :
    ∃ info, PairedBracket.Tells text info record := by
  rcases List.mem_filterMap.1 hRecord with ⟨info, hInfo, hOf⟩
  cases hClosed : info.closingRange with
  | none =>
      rw [ofInfo?_of_unclosed hClosed] at hOf
      cases hOf
  | some closing =>
      rcases (h info hInfo).exists_record hContent hClosed with
        ⟨other, hOther, hTells, _⟩
      rw [hOther] at hOf
      rcases Option.some.inj hOf with rfl
      exact ⟨info, hTells⟩

/- The records over a byte are those of the pairs there. -/
theorem filter_covers
    (offset : Nat)
    (hContent : content.Counts text)
    (h : ∀ info ∈ pairs, info.IsOver text) :
    (pairs.filterMap
        (PairedBracket.ofInfo? content)).filter
          (·.covers offset) =
      (pairs.filter
        (·.hasBracketAt
          (Line.positionOf (Line.split text) offset))).filterMap
            (PairedBracket.ofInfo? content) := by
  rw [List.filter_filterMap, List.filterMap_filter]
  refine List.filterMap_congr fun info hInfo => ?_
  cases hClosed : info.closingRange with
  | none => simp [ofInfo?_of_unclosed hClosed]
  | some closing =>
      rcases (h info hInfo).exists_record hContent hClosed with
        ⟨record, hRecord, _, hCovers⟩
      rw [hRecord, ← hCovers offset]
      cases hHere : record.covers offset <;> simp [hHere]

end PairInfo

variable {declaration : BracketDeclaration}
variable {text : List Char} {root : Node}

/- A tree that follows a text is over it. -/
theorem BracketDeclaration.Follows.isOver
    (hFlat : declaration.IsFlat)
    (h : declaration.Follows text root []) :
    ∀ info ∈ root.plainPairs, info.IsOver text := by
  intro info hListed
  have hShown :=
    h.1.describes.isShown info (List.mem_filter.1 hListed).1
  refine ⟨CharByte.hasLiteral_of_stands hFlat hShown.opening, ?_⟩
  intro range hRange
  rcases hShown.closing range hRange with ⟨kind, hKind, hStands⟩
  exact ⟨kind, hKind,
    CharByte.hasLiteral_of_stands hFlat hStands⟩

/- It is as long as the text, too. -/
theorem BracketDeclaration.Follows.length_eq
    (h : declaration.Follows text root []) :
    root.length = Length.ofText text := by
  rcases h.1.describes with ⟨forest, hRoot, hShape, _, hSpells⟩
  rw [Node.length_of_isRoot hRoot hShape.symm,
    ← CharByte.extent_ofText, hSpells.extent_eq]
  rfl

end Bracketry
