import Bracketry.Proofs.Associativity
import Bracketry.Proofs.Composition
import Bracketry.Proofs.Scans
import Mathlib.Data.List.Infix

/-
  Splices of text, and the batches that tell of them.

  A splice puts a text in the place of a range.  A row of
  them is applied from left to right, each to the text
  behind the one before it, and is refused when a range does
  not lie there.  The edits of two rows compose to edits
  that some row of splices has, which turns the first text
  into the last at once.

  Key definitions include:
    * `Splice`, `Splice.edit`
    * `Text.cutAt?`
    * `Splice.result?`

  Main declarations:
    * `Splice.turns_iff`
    * `Splice.result?_compose`
-/

------------------------------------------------------------
-- Cuts of a Text
------------------------------------------------------------

namespace Bracketry

open Measured

namespace Text

/- Cut a text behind a length, if a character ends there. -/
def cutAt?
    (length : Length) :
    List Char → Option (List Char × List Char)
  | [] => if length = 0 then some ([], []) else none
  | c :: rest =>
      if length = 0 then some ([], c :: rest)
      else if Length.ofChar c ≤ length then do
        let (before, behind) ←
          cutAt? ((Length.ofChar c).upTo length) rest
        return (c :: before, behind)
      else none

/- Behind a first part, a text can be cut. -/
theorem cutAt?_append
    (before behind : List Char) :
    cutAt? (Length.ofText before) (before ++ behind) =
      some (before, behind) := by
  induction before with
  | nil => cases behind <;> simp [cutAt?]
  | cons c rest ih =>
      have hSome :
          Length.ofChar c + Length.ofText rest ≠ 0 := by
        intro hZero
        have hLe := Length.le_add_right (Length.ofChar c)
          (Length.ofText rest)
        rw [hZero, Length.le_zero] at hLe
        exact Length.ofChar_ne_zero c hLe
      rw [List.cons_append, Length.ofText_cons, cutAt?,
        if_neg hSome, if_pos (Length.le_add_right _ _),
        Length.upTo_add, ih]
      rfl

theorem cutAt?_eq_some_iff
    {length : Length}
    {text before behind : List Char} :
    cutAt? length text = some (before, behind) ↔
      text = before ++ behind ∧
        Length.ofText before = length := by
  constructor
  · intro h
    induction text generalizing length before behind with
    | nil =>
        unfold cutAt? at h
        split_ifs at h with hZero
        cases h
        exact ⟨rfl, hZero.symm⟩
    | cons c rest ih =>
        unfold cutAt? at h
        split_ifs at h with hZero hFirst
        · cases h
          exact ⟨rfl, hZero.symm⟩
        · rcases Option.bind_eq_some_iff.1 h with
            ⟨⟨more, last⟩, hRest, hSame⟩
          cases hSame
          rcases ih hRest with ⟨rfl, hMore⟩
          refine ⟨rfl, ?_⟩
          rw [Length.ofText_cons, hMore,
            Length.add_upTo hFirst]
  · rintro ⟨rfl, rfl⟩
    exact cutAt?_append before behind

/-
  All places of the text can be told in 32 bits, so that
  every position in it is one that can be written down.
-/
def IsCounted
    (text : List Char) :
    Prop :=
  ∀ before ∈ text.inits, (Length.ofText before).Fits

instance (text : List Char) : Decidable (IsCounted text) :=
  inferInstanceAs (Decidable (∀ _ ∈ _, _))

theorem IsCounted.fitsFrom
    {text : List Char}
    (h : IsCounted text) :
    FitsFrom 0 text := by
  rintro before behind rfl
  rw [zero_add, extent_chars]
  exact h before ((List.mem_inits _ _).2
    (List.prefix_append before behind))

/- The length of each stretch of the text can be told. -/
theorem IsCounted.fits_of_isInfix
    {text part : List Char}
    (h : IsCounted text)
    (hPart : part <:+: text) :
    (Length.ofText part).Fits := by
  rcases hPart with ⟨before, behind, rfl⟩
  have hFront := h (before ++ part)
    ((List.mem_inits _ _).2 (List.prefix_append _ behind))
  rw [Length.ofText_append] at hFront
  exact Length.fits_of_add hFront

end Text

end Bracketry

------------------------------------------------------------
-- Splices
------------------------------------------------------------

namespace Bracketry

open Measured

/- A range of a text and what takes its place. -/
structure Splice where
  start : Position
  stop : Position
  text : List Char
deriving DecidableEq, Repr, Inhabited

namespace Splice

/- The lengths that the splice tells of. -/
def edit
    (splice : Splice) :
    Edit :=
  .replace splice.start splice.stop splice.text

/-
  The text that sorted splices make of the one that follows
  the place `low`.  They are refused where a range begins
  before the end of the last one, ends before its start, or
  ends at no place of the text.
-/
def resultFrom?
    (low : Position)
    (text : List Char) :
    List Splice → Option (List Char)
  | [] => some text
  | splice :: rest =>
      if low ≤ splice.start ∧
          splice.start ≤ splice.stop then do
        let (gap, ahead) ←
          Text.cutAt? (low.upTo splice.start) text
        let (_, behind) ←
          Text.cutAt? (splice.start.upTo splice.stop) ahead
        let new ← resultFrom? splice.stop behind rest
        return gap ++ (splice.text ++ new)
      else none

/- The text that sorted splices make of a text. -/
def result?
    (text : List Char)
    (splices : List Splice) :
    Option (List Char) :=
  resultFrom? 0 text splices

/- What is replaced lies between what is kept. -/
theorem resultFrom?_cons_iff
    {low : Position}
    {text new : List Char}
    {first : Splice}
    {rest : List Splice} :
    resultFrom? low text (first :: rest) = some new ↔
      ∃ gap cut behind more,
        text = gap ++ (cut ++ behind) ∧
          new = gap ++ (first.text ++ more) ∧
          first.start = low + extent gap ∧
          first.stop = first.start + extent cut ∧
          resultFrom? first.stop behind rest = some more := by
  rw [resultFrom?]
  constructor
  · intro h
    split_ifs at h with hOrder
    rcases Option.bind_eq_some_iff.1 h with
      ⟨⟨gap, ahead⟩, hGap, h⟩
    rcases Option.bind_eq_some_iff.1 h with
      ⟨⟨cut, behind⟩, hCut, h⟩
    rcases Option.bind_eq_some_iff.1 h with ⟨more, hMore, hNew⟩
    rcases Text.cutAt?_eq_some_iff.1 hGap with ⟨rfl, hGapSize⟩
    rcases Text.cutAt?_eq_some_iff.1 hCut with ⟨rfl, hCutSize⟩
    refine ⟨gap, cut, behind, more, rfl, ?_, ?_, ?_, hMore⟩
    · exact (Option.some.inj hNew).symm
    · rw [extent_chars, hGapSize, Length.add_upTo hOrder.1]
    · rw [extent_chars, hCutSize, Length.add_upTo hOrder.2]
  · rintro ⟨gap, cut, behind, more, rfl, rfl, hStart, hStop,
      hMore⟩
    have hOrder :
        low ≤ first.start ∧ first.start ≤ first.stop := by
      rw [hStop, hStart]
      exact ⟨Length.le_add_right _ _,
        Length.le_add_right _ _⟩
    have hGap : low.upTo first.start = Length.ofText gap := by
      rw [hStart, Length.upTo_add, extent_chars]
    have hCut :
        first.start.upTo first.stop = Length.ofText cut := by
      rw [hStop, Length.upTo_add, extent_chars]
    rw [if_pos hOrder, hGap, hCut, Text.cutAt?_append]
    simp [Text.cutAt?_append, hMore]

/- What a splice puts in stands in the text it makes. -/
theorem isInfix_of_resultFrom?
    {low : Position}
    {text new : List Char}
    {splice : Splice}
    {splices : List Splice}
    (h : resultFrom? low text splices = some new)
    (hMem : splice ∈ splices) :
    splice.text <:+: new := by
  induction splices generalizing low text new with
  | nil => cases hMem
  | cons first rest ih =>
      rcases resultFrom?_cons_iff.1 h with
        ⟨gap, _, _, more, rfl, rfl, _, _, hMore⟩
      rcases List.mem_cons.1 hMem with rfl | hRest
      · exact List.infix_append' gap splice.text more
      · refine (ih hMore hRest).trans ?_
        rw [← List.append_assoc]
        exact (List.suffix_append _ more).isInfix

/-
  A batch turns one text into another when the edits are
  those of splices that do so.
-/
theorem turns_iff
    {low : Position}
    {edits : List Edit}
    {old new : List Char} :
    Turns Eq low edits old new ↔
      ∃ splices : List Splice,
        splices.map edit = edits ∧
          resultFrom? low old splices = some new := by
  constructor
  · intro h
    induction h with
    | kept hKept =>
        rw [List.forall₂_eq_eq_eq] at hKept
        exact ⟨[], rfl, congrArg some hKept⟩
    | @edit low edit edits gap same cut added old new hGap
        hStart hStop hInserted hRest ih =>
        rw [List.forall₂_eq_eq_eq] at hGap
        subst hGap
        rcases ih with ⟨rest, rfl, hResult⟩
        refine ⟨⟨edit.start, edit.stop, added⟩ :: rest, ?_,
          resultFrom?_cons_iff.2 ⟨gap, cut, old, new, rfl, rfl,
            hStart, hStop, hResult⟩⟩
        rw [List.map_cons, Splice.edit, Edit.replace,
          ← extent_chars, ← hInserted]
  · rintro ⟨splices, rfl, hResult⟩
    induction splices generalizing low old new with
    | nil =>
        rcases Option.some.inj hResult with rfl
        refine .kept ?_
        rw [List.forall₂_eq_eq_eq]
    | cons first rest ih =>
        rcases resultFrom?_cons_iff.1 hResult with
          ⟨gap, cut, behind, more, rfl, rfl, hStart, hStop,
            hMore⟩
        refine .edit ?_ hStart hStop ?_ (ih hMore)
        · rw [List.forall₂_eq_eq_eq]
        · exact (extent_chars _).symm

end Splice

end Bracketry

------------------------------------------------------------
-- Composition of Splices
------------------------------------------------------------

namespace Bracketry

open Measured

/- Edits that turn one text into another are a batch. -/
theorem Turns.isBatchFrom
    {α β : Type}
    [Measured α]
    [Measured β]
    {rel : α → β → Prop}
    {low : Position}
    {edits : List Edit}
    {old : List α}
    {new : List β}
    (h : Turns rel low edits old new) :
    Edit.IsBatchFrom low edits := by
  induction h with
  | kept _ => trivial
  | edit _ hStart hStop _ _ ih =>
      refine ⟨?_, ?_, ih⟩
      · rw [hStart]
        exact Length.le_add_right _ _
      · rw [hStop]
        exact Length.le_add_right _ _

namespace Splice

/-
  The composed edits of two rows of splices are those of one
  row, which makes the last text of the first at once.  If
  both rows have splices, there is text between any two of
  its own.  All that the edits tell of fits into 32 bits.
-/
theorem result?_compose
    {old middle new : List Char}
    {first second : List Splice}
    (hOld : Text.IsCounted old)
    (hBetween : Text.IsCounted middle)
    (hNew : Text.IsCounted new)
    (hFirst : result? old first = some middle)
    (hSecond : result? middle second = some new) :
    ∃ third : List Splice,
      Edit.compose (first.map edit) (second.map edit) =
          .ok (third.map edit) ∧
        Edit.IsBatch (third.map edit) ∧
        (first ≠ [] → second ≠ [] →
          Edit.AreApart (third.map edit)) ∧
        result? old third = some new ∧
        ∀ splice ∈ first ++ (second ++ third),
          (Length.ofText splice.text).Fits := by
  have hMiddle : Turns Eq 0 (first.map edit) old middle :=
    turns_iff.2 ⟨first, rfl, hFirst⟩
  have hLast : Turns Eq 0 (second.map edit) middle new :=
    turns_iff.2 ⟨second, rfl, hSecond⟩
  rcases Turns.compose sameSize_eq sameSize_eq hMiddle hLast
      hOld.fitsFrom hNew.fitsFrom with
    ⟨composed, hCompose, _, hTurns⟩
  rw [via_eq] at hTurns
  rcases turns_iff.1 hTurns with ⟨third, rfl, hThird⟩
  refine ⟨third, hCompose, hTurns.isBatchFrom, ?_, hThird, ?_⟩
  · intro hFirstSome hSecondSome
    exact (Edit.compose_spec hMiddle.isBatchFrom
      hLast.isBatchFrom (by simpa using hFirstSome)
      (by simpa using hSecondSome) hCompose).areApart
  · intro splice hMem
    rw [List.mem_append, List.mem_append] at hMem
    rcases hMem with hMem | hMem | hMem
    · exact hBetween.fits_of_isInfix
        (isInfix_of_resultFrom? hFirst hMem)
    · exact hNew.fits_of_isInfix
        (isInfix_of_resultFrom? hSecond hMem)
    · exact hNew.fits_of_isInfix
        (isInfix_of_resultFrom? hThird hMem)

/-
  A letter is put before a line break that goes; then the
  letter goes and the next line is replaced.
-/
theorem result?_compose_lines :
    ∃ third : List Splice,
      Edit.compose
          ([⟨⟨0, 1⟩, ⟨0, 1⟩, ['x']⟩,
            ⟨⟨0, 1⟩, ⟨1, 0⟩, []⟩].map edit)
          ([⟨⟨0, 1⟩, ⟨0, 2⟩, []⟩,
            ⟨⟨0, 2⟩, ⟨0, 3⟩, ['\n', 'c']⟩].map edit) =
          .ok (third.map edit) ∧
        Edit.IsBatch (third.map edit) ∧
        Edit.AreApart (third.map edit) ∧
        result? ['a', '\n', 'b'] third =
          some ['a', '\n', 'c'] := by
  have hFirst :
      result? ['a', '\n', 'b']
          [⟨⟨0, 1⟩, ⟨0, 1⟩, ['x']⟩, ⟨⟨0, 1⟩, ⟨1, 0⟩, []⟩] =
        some ['a', 'x', 'b'] := by decide
  have hSecond :
      result? ['a', 'x', 'b']
          [⟨⟨0, 1⟩, ⟨0, 2⟩, []⟩,
            ⟨⟨0, 2⟩, ⟨0, 3⟩, ['\n', 'c']⟩] =
        some ['a', '\n', 'c'] := by decide
  rcases result?_compose (by decide) (by decide) (by decide)
      hFirst hSecond with
    ⟨third, hCompose, hBatch, hApart, hThird, _⟩
  exact ⟨third, hCompose, hBatch,
    hApart (by decide) (by decide), hThird⟩

end Splice

end Bracketry
