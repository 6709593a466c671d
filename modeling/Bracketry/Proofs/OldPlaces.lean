import Bracketry.Proofs.Batches
import Bracketry.Proofs.Mapping

/-
  Where the places of a new text come from.

  A batch of edits is walked in both texts at once: between
  two edits both texts go on alike, and an edit ends in the
  old text where its range does and in the new one behind
  what it inserted.  A position map that is asked for ever
  later offsets says of each where it lies in that walk: how
  far behind the last edit that was passed, how far before
  the next one, and so where it was in the old text.  What
  the map was asked before does not matter.

  An edit is passed as soon as its new text ends by the
  offset.  At the place of text that was only cut out, the
  map stands behind the cut.

  Key definitions include:
    * `Edit.Border`, `Edit.Border.passAll`
    * `Edit.Border.AllFit`
    * `Edit.IsCut`
    * `PositionMap.IsAsked`, `PositionMap.Answers`
    * `PositionMap.Inverts`

  Main declarations:
    * `PositionMap.stands_passEdits`
    * `PositionMap.IsAsked.advance_eq`
    * `PositionMap.Answers.oldOffset_le`
    * `PositionMap.inverts_ofEdits`
-/

------------------------------------------------------------
-- Walks through Both Texts
------------------------------------------------------------

namespace Bracketry

namespace Edit

/- How far both texts are read. -/
structure Border where
  old : Position
  new : Position
deriving DecidableEq, Repr, Inhabited

namespace Border

/- The start of both texts. -/
def start : Border :=
  ⟨0, 0⟩

/- Where an edit ahead starts in the new text. -/
def newStart
    (border : Border)
    (edit : Edit) :
    Position :=
  border.new + border.old.upTo edit.start

/- The ends of an edit in both texts. -/
def pass
    (border : Border)
    (edit : Edit) :
    Border :=
  ⟨edit.stop, border.newStart edit + edit.inserted⟩

/- The ends of the last of some edits. -/
def passAll
    (border : Border)
    (edits : List Edit) :
    Border :=
  edits.foldl pass border

theorem passAll_append
    (border : Border)
    (a b : List Edit) :
    border.passAll (a ++ b) =
      (border.passAll a).passAll b := by
  simp [passAll]

/-
  The edit has an end that fits, and in the new text all of
  its places fit, that of the end of its range before it is
  replaced included.
-/
structure HasRoom
    (border : Border)
    (edit : Edit) :
    Prop where
  stop : (edit.start + edit.inserted).Fits
  newStart : (border.newStart edit).Fits
  oldStop : (border.new + border.old.upTo edit.stop).Fits
  newStop : (border.newStart edit + edit.inserted).Fits

/- All edits behind a border have room. -/
def AllFit
    (border : Border) :
    List Edit → Prop
  | [] => True
  | edit :: rest =>
      border.HasRoom edit ∧ (border.pass edit).AllFit rest

instance (border : Border) (edit : Edit) :
    Decidable (border.HasRoom edit) :=
  decidable_of_iff
    ((edit.start + edit.inserted).Fits ∧
      (border.newStart edit).Fits ∧
      (border.new + border.old.upTo edit.stop).Fits ∧
      (border.newStart edit + edit.inserted).Fits)
    ⟨fun h => ⟨h.1, h.2.1, h.2.2.1, h.2.2.2⟩,
      fun h => ⟨h.stop, h.newStart, h.oldStop, h.newStop⟩⟩

instance decidableAllFit :
    (border : Border) → (edits : List Edit) →
      Decidable (border.AllFit edits)
  | _, [] => inferInstanceAs (Decidable True)
  | border, edit :: rest =>
      have := decidableAllFit (border.pass edit) rest
      inferInstanceAs (Decidable (_ ∧ _))

theorem AllFit.drop
    {border : Border}
    {passed ahead : List Edit}
    (h : border.AllFit (passed ++ ahead)) :
    (border.passAll passed).AllFit ahead := by
  induction passed generalizing border with
  | nil => exact h
  | cons edit rest ih => exact ih h.2

/- Edits move the border of the new text forward. -/
theorem new_le_pass
    (border : Border)
    (edit : Edit) :
    border.new ≤ (border.pass edit).new :=
  (Length.le_add_right _ _).trans (Length.le_add_right _ _)

theorem new_le_passAll
    (border : Border)
    (edits : List Edit) :
    border.new ≤ (border.passAll edits).new := by
  induction edits generalizing border with
  | nil => exact le_refl _
  | cons edit rest ih =>
      exact (border.new_le_pass edit).trans
        (ih (border.pass edit))

/- And that of the old text, where they are in order. -/
theorem old_le_passAll
    {edits : List Edit}
    (border : Border)
    (h : IsBatchFrom border.old edits) :
    border.old ≤ (border.passAll edits).old := by
  induction edits generalizing border with
  | nil => exact le_refl _
  | cons edit rest ih =>
      rcases h with ⟨hLow, hOrder, hRest⟩
      exact (hLow.trans hOrder).trans
        (ih (border.pass edit) hRest)

end Border

theorem IsBatchFrom.left
    {low : Position}
    {a b : List Edit}
    (h : IsBatchFrom low (a ++ b)) :
    IsBatchFrom low a := by
  induction a generalizing low with
  | nil => trivial
  | cons edit rest ih => exact ⟨h.1, h.2.1, ih h.2.2⟩

theorem IsBatchFrom.drop
    {passed ahead : List Edit}
    (border : Border)
    (h : IsBatchFrom border.old (passed ++ ahead)) :
    IsBatchFrom (border.passAll passed).old ahead := by
  induction passed generalizing border with
  | nil => exact h
  | cons edit rest ih =>
      exact ih (border.pass edit) h.2.2

end Edit

end Bracketry

------------------------------------------------------------
-- Cuts at an Offset
------------------------------------------------------------

namespace Bracketry

namespace Edit

/-
  The edits whose new text ends by an offset, and those
  ahead of it.
-/
structure IsCut
    (border : Border)
    (passed ahead : List Edit)
    (offset : Position) :
    Prop where
  reached : (border.passAll passed).new ≤ offset
  next :
    ∀ edit, ahead.head? = some edit →
      offset < ((border.passAll passed).pass edit).new

/- Every offset behind a border cuts the edits there. -/
theorem exists_isCut
    {border : Border}
    {offset : Position}
    (edits : List Edit)
    (h : border.new ≤ offset) :
    ∃ passed ahead,
      edits = passed ++ ahead ∧
        IsCut border passed ahead offset := by
  induction edits generalizing border with
  | nil => exact ⟨[], [], rfl, h, by simp⟩
  | cons edit rest ih =>
      by_cases hPassed : (border.pass edit).new ≤ offset
      · rcases ih hPassed with ⟨passed, ahead, rfl, hCut⟩
        exact ⟨edit :: passed, ahead, rfl, hCut.reached,
          hCut.next⟩
      · refine ⟨[], edit :: rest, rfl, h, ?_⟩
        rintro _ ⟨⟩
        exact not_le.1 hPassed

/- A later offset cuts behind at least as many edits. -/
theorem IsCut.exists_append
    {border : Border}
    {passed ahead passedLater aheadLater : List Edit}
    {offset later : Position}
    (hSame : passed ++ ahead = passedLater ++ aheadLater)
    (hLater : offset ≤ later)
    (h : IsCut border passed ahead offset)
    (hCut : IsCut border passedLater aheadLater later) :
    ∃ between,
      passedLater = passed ++ between ∧
        ahead = between ++ aheadLater := by
  rcases List.append_eq_append_iff.1 hSame with
    ⟨between, rfl, rfl⟩ | ⟨between, rfl, rfl⟩
  · exact ⟨between, rfl, rfl⟩
  · cases between with
    | nil => exact ⟨[], by simp, by simp⟩
    | cons edit rest =>
        -- The edit would be passed early and not late.
        have hNext := hCut.next edit rfl
        have hReached := h.reached
        rw [Border.passAll_append] at hReached
        have hEdit :=
          Border.new_le_passAll
            ((border.passAll passedLater).pass edit) rest
        have hEarly := hEdit.trans hReached
        exact absurd (hEarly.trans hLater) (not_le.2 hNext)

end Edit

end Bracketry

------------------------------------------------------------
-- Maps at a Cut
------------------------------------------------------------

namespace Bracketry

namespace PositionMap

open Edit

/- The map has passed the edits up to a border. -/
structure Stands
    (map : PositionMap)
    (border : Border)
    (lastStop : Option Position)
    (ahead : List Edit) :
    Prop where
  ahead_eq : map.ahead = ahead.map Edit.ends
  isExact : map.shift.IsExact border.old border.new
  lastStop_eq : map.lastStop = lastStop

/- The end of the last of some edits in the new text. -/
def lastStopOf
    (border : Border)
    (lastStop : Option Position)
    (passed : List Edit) :
    Option Position :=
  if passed = [] then lastStop
  else some (border.passAll passed).new

/- The end of an edit lies behind its start. -/
theorem upTo_stop
    {border : Border}
    {edit : Edit}
    (hLow : border.old ≤ edit.start)
    (hOrder : edit.start ≤ edit.stop) :
    border.old.upTo edit.start + edit.start.upTo edit.stop =
      border.old.upTo edit.stop := by
  apply Length.add_left_cancel (a := border.old)
  rw [← add_assoc, Length.add_upTo hLow,
    Length.add_upTo hOrder,
    Length.add_upTo (hLow.trans hOrder)]

/- What an edit shows of itself behind a border. -/
theorem ends_eq
    {border : Border}
    {edit : Edit}
    (hLow : border.old ≤ edit.start)
    (hOrder : edit.start ≤ edit.stop) :
    edit.ends =
      ⟨border.old + border.old.upTo edit.start,
        border.old +
          (border.old.upTo edit.start +
            edit.start.upTo edit.stop),
        border.old +
          (border.old.upTo edit.start + edit.inserted)⟩ := by
  rw [upTo_stop hLow hOrder, ← add_assoc,
    Length.add_upTo hLow,
    Length.add_upTo (hLow.trans hOrder)]
  rfl

section Steps

variable {shift : Shift}
variable {border : Border}
variable {edit : Edit}

/- The start of an edit is found in the new text. -/
theorem toNew_start
    (hExact : shift.IsExact border.old border.new)
    (hLow : border.old ≤ edit.start)
    (hRoom : border.HasRoom edit) :
    shift.toNew edit.start = border.newStart edit := by
  have hMoved := Shift.toNew_add hExact hRoom.newStart
  rwa [Length.add_upTo hLow] at hMoved

/- So is the end of what it inserted. -/
theorem toNew_newStop
    (hExact : shift.IsExact border.old border.new)
    (hLow : border.old ≤ edit.start)
    (hRoom : border.HasRoom edit) :
    shift.toNew edit.ends.newStop = (border.pass edit).new
    := by
  have hFits := hRoom.newStop
  rw [Border.newStart, add_assoc] at hFits
  have hMoved := Shift.toNew_add hExact hFits
  rwa [← add_assoc, Length.add_upTo hLow, ← add_assoc]
    at hMoved

/- Behind the edit the shift is exact again. -/
theorem isExact_pass_ends
    (hExact : shift.IsExact border.old border.new)
    (hLow : border.old ≤ edit.start)
    (hOrder : edit.start ≤ edit.stop)
    (hRoom : border.HasRoom edit) :
    (shift.pass edit.ends).IsExact (border.pass edit).old
      (border.pass edit).new := by
  have hCut := hRoom.oldStop
  have hAdded := hRoom.newStop
  rw [← upTo_stop hLow hOrder] at hCut
  rw [Border.newStart, add_assoc] at hAdded
  have hPass := Shift.isExact_pass hExact hCut hAdded
  rw [← ends_eq hLow hOrder, upTo_stop hLow hOrder,
    Length.add_upTo (hLow.trans hOrder), ← add_assoc]
    at hPass
  exact hPass

end Steps

/-
  Passing edits up to an offset ends at its cut.  The
  induction is on the edits in front of the cut: the new
  text of each ends by the offset, since that of the last
  one does.
-/
theorem stands_passEdits
    {border : Border}
    {shift : Shift}
    {lastStop : Option Position}
    {passed ahead : List Edit}
    {offset : Position}
    (hBatch : IsBatchFrom border.old (passed ++ ahead))
    (hFits : border.AllFit (passed ++ ahead))
    (hCut : IsCut border passed ahead offset)
    (hExact : shift.IsExact border.old border.new) :
    Stands
      (passEdits offset shift lastStop
        ((passed ++ ahead).map Edit.ends))
      (border.passAll passed)
      (lastStopOf border lastStop passed) ahead := by
  induction passed generalizing border shift lastStop with
  | nil =>
      rw [List.nil_append] at hBatch hFits ⊢
      cases ahead with
      | nil => exact ⟨rfl, hExact, rfl⟩
      | cons edit rest =>
          have hNext := hCut.next edit rfl
          have hNot :
              ¬ shift.toNew edit.ends.newStop ≤ offset := by
            rw [toNew_newStop hExact hBatch.1 hFits.1]
            exact not_le.2 hNext
          rw [List.map_cons, passEdits_cons_of_not_le hNot]
          exact ⟨rfl, hExact, rfl⟩
  | cons edit rest ih =>
      rcases hBatch with ⟨hLow, hOrder, hRest⟩
      have hStop := toNew_newStop hExact hLow hFits.1
      have hPassed : (border.pass edit).new ≤ offset :=
        ((border.pass edit).new_le_passAll rest).trans
          hCut.reached
      have hPass : shift.toNew edit.ends.newStop ≤ offset := by
        rwa [hStop]
      have hRestCut :
          IsCut (border.pass edit) rest ahead offset :=
        ⟨hCut.reached, hCut.next⟩
      have hMoved :=
        isExact_pass_ends hExact hLow hOrder hFits.1
      have hStands :=
        @ih (border.pass edit) (shift.pass edit.ends)
          (some (border.pass edit).new) hRest hFits.2 hRestCut
          hMoved
      rw [List.cons_append, List.map_cons,
        passEdits_cons_of_le hPass, hStop]
      refine ⟨hStands.ahead_eq, hStands.isExact, ?_⟩
      rw [hStands.lastStop_eq]
      cases rest with
      | nil => rfl
      | cons second others => rfl

end PositionMap

end Bracketry

------------------------------------------------------------
-- Questions to a Map
------------------------------------------------------------

namespace Bracketry

namespace PositionMap

open Edit

/-
  The maps that a first one becomes by being asked, each
  with the last offset.
-/
inductive IsAsked
    (first : PositionMap) :
    PositionMap → Position → Prop where
  | start : IsAsked first first 0
  | oldOffset
      {map : PositionMap}
      {last offset : Position}
      (hAsked : IsAsked first map last)
      (hOffset : last ≤ offset) :
      IsAsked first (map.oldOffset offset).2 offset
  | distanceToNext
      {map : PositionMap}
      {last offset : Position}
      (hAsked : IsAsked first map last)
      (hOffset : last ≤ offset) :
      IsAsked first (map.distanceToNext? offset).2 offset
  | isRightAfterEdit
      {map : PositionMap}
      {last offset : Position}
      (hAsked : IsAsked first map last)
      (hOffset : last ≤ offset) :
      IsAsked first (map.isRightAfterEdit offset).2 offset

theorem distanceToNext?_snd
    (map : PositionMap)
    (offset : Position) :
    (map.distanceToNext? offset).2 = map.advance offset := by
  unfold distanceToNext?
  simp only
  split <;> rfl

/- What a map was asked before does not matter. -/
theorem IsAsked.advance_eq
    {first map : PositionMap}
    {last offset : Position}
    (h : IsAsked first map last)
    (hOffset : last ≤ offset) :
    map.advance offset = first.advance offset := by
  induction h generalizing offset with
  | start => rfl
  | oldOffset _ hBefore ih =>
      rw [PositionMap.oldOffset, advance_of_le _ hOffset]
      exact ih (hBefore.trans hOffset)
  | distanceToNext _ hBefore ih =>
      rw [distanceToNext?_snd, advance_of_le _ hOffset]
      exact ih (hBefore.trans hOffset)
  | isRightAfterEdit _ hBefore ih =>
      rw [PositionMap.isRightAfterEdit, advance_of_le _ hOffset]
      exact ih (hBefore.trans hOffset)

end PositionMap

end Bracketry

------------------------------------------------------------
-- Answers of a Map
------------------------------------------------------------

namespace Bracketry

/-
  The offset lies in no text that was inserted, and its
  place in the old text fits.
-/
def Edit.IsCopied
    (edits : List Edit)
    (offset : Position) :
    Prop :=
  ∃ passed ahead gap,
    edits = passed ++ ahead ∧
      Edit.IsCut .start passed ahead offset ∧
      (∀ edit, ahead.head? = some edit →
        offset ≤
          (Edit.Border.start.passAll passed).newStart edit) ∧
      offset =
        (Edit.Border.start.passAll passed).new + gap ∧
      ((Edit.Border.start.passAll passed).old + gap).Fits

namespace PositionMap

open Edit

/-
  What a map says of an offset, between the last edit that
  was passed and the next one.
-/
structure Answers
    (map : PositionMap)
    (passed ahead : List Edit)
    (offset : Position) :
    Prop where
  oldOffset :
    ∀ gap,
      offset = (Border.start.passAll passed).new + gap →
      ((Border.start.passAll passed).old + gap).Fits →
        (map.oldOffset offset).1 =
          (Border.start.passAll passed).old + gap
  last :
    ahead = [] → (map.distanceToNext? offset).1 = none
  next :
    ∀ edit, ahead.head? = some edit →
      ∃ gap,
        (map.distanceToNext? offset).1 = some gap ∧
          (offset ≤
              (Border.start.passAll passed).newStart edit →
            offset + gap =
              (Border.start.passAll passed).newStart edit) ∧
          ((Border.start.passAll passed).newStart edit ≤
              offset →
            gap = 0)
  isRightAfter :
    (map.isRightAfterEdit offset).1 = true ↔
      passed ≠ [] ∧
        offset = (Border.start.passAll passed).new

/-
  However the map was asked before, it says of each offset
  where it lies among the edits, and keeps the order of all
  offsets that lie in no inserted text.
-/
structure Inverts
    (edits : List Edit)
    (first : PositionMap) :
    Prop where
  exists_cut :
    ∀ offset,
      ∃ passed ahead,
        edits = passed ++ ahead ∧
          IsCut .start passed ahead offset
  answers :
    ∀ map last offset passed ahead,
      IsAsked first map last → last ≤ offset →
      edits = passed ++ ahead →
      IsCut .start passed ahead offset →
        Answers map passed ahead offset
  ordered :
    ∀ map last offset mapLater lastLater later,
      IsAsked first map last → last ≤ offset →
      IsAsked first mapLater lastLater → lastLater ≤ later →
      IsCopied edits offset → IsCopied edits later →
      offset ≤ later →
        (map.oldOffset offset).1 ≤
          (mapLater.oldOffset later).1

/- A map that has moved to a cut answers from there. -/
theorem Stands.answers
    {map : PositionMap}
    {passed ahead : List Edit}
    {offset : Position}
    (hBatch : IsBatch (passed ++ ahead))
    (hFits : Border.start.AllFit (passed ++ ahead))
    (h :
      Stands (map.advance offset)
        (Border.start.passAll passed)
        (lastStopOf .start none passed) ahead) :
    Answers map passed ahead offset := by
  have hAheadBatch := IsBatchFrom.drop .start hBatch
  have hAheadFits := hFits.drop
  rcases h with ⟨hAhead, hExact, hLast⟩
  refine ⟨?_, ?_, ?_, ?_⟩
  · intro gap hOffset hOldFits
    rw [PositionMap.oldOffset]
    simp only
    generalize map.advance offset = moved at hExact
    rw [hOffset]
    exact Shift.toOld_add hExact hOldFits
  · rintro rfl
    rw [distanceToNext?]
    simp only [hAhead, List.map_nil]
  · intro edit hEdit
    rcases List.head?_eq_some_iff.1 hEdit with ⟨rest, rfl⟩
    rcases hAheadBatch with ⟨hLow, _, _⟩
    have hStart := toNew_start hExact hLow hAheadFits.1
    refine ⟨offset.upTo
      ((Border.start.passAll passed).newStart edit), ?_,
      Length.add_upTo, Length.upTo_eq_zero.2⟩
    rw [distanceToNext?, ← hStart]
    simp only [hAhead, List.map_cons]
    rfl
  · rw [isRightAfterEdit]
    simp only [hLast, lastStopOf, decide_eq_true_eq]
    split_ifs with hNone
    · simp [hNone]
    · simp [hNone, eq_comm]

/- Offsets in order that are copied have places in order. -/
theorem Answers.oldOffset_le
    {map mapLater : PositionMap}
    {edits : List Edit}
    {offset later : Position}
    (hBatch : IsBatch edits)
    (hOffset : IsCopied edits offset)
    (hLater : IsCopied edits later)
    (hOrder : offset ≤ later)
    (h :
      ∀ passed ahead, edits = passed ++ ahead →
        IsCut .start passed ahead offset →
          Answers map passed ahead offset)
    (hAnswers :
      ∀ passed ahead, edits = passed ++ ahead →
        IsCut .start passed ahead later →
          Answers mapLater passed ahead later) :
    (map.oldOffset offset).1 ≤ (mapLater.oldOffset later).1
    := by
  rcases hOffset with
    ⟨passed, ahead, gap, hSame, hCut, hOutside, hGap, hFits⟩
  rcases hLater with
    ⟨passedLater, aheadLater, gapLater, hSameLater, hCutLater,
      _, hGapLater, hFitsLater⟩
  rw [(h passed ahead hSame hCut).oldOffset gap hGap hFits,
    (hAnswers passedLater aheadLater hSameLater
      hCutLater).oldOffset gapLater hGapLater hFitsLater]
  rcases hCut.exists_append (hSame.symm.trans hSameLater) hOrder
      hCutLater with
    ⟨between, rfl, rfl⟩
  subst hSame
  have hAhead := IsBatchFrom.drop .start hBatch
  cases between with
  | nil =>
      -- No edit lies between the two offsets.
      rw [List.append_nil] at hGapLater ⊢
      rw [hGap, hGapLater, Length.add_le_add_left_iff]
        at hOrder
      exact Length.add_le_add_left_iff.2 hOrder
  | cons edit rest =>
      rcases hAhead with ⟨hLow, hStop, hRest⟩
      have hBefore := hOutside edit rfl
      rw [hGap, Border.newStart,
        Length.add_le_add_left_iff] at hBefore
      rw [Border.passAll_append]
      generalize Border.start.passAll passed = border at *
      have hStart : border.old + gap ≤ edit.start := by
        rw [← Length.add_upTo hLow]
        exact Length.add_le_add_left_iff.2 hBefore
      have hReached :
          edit.stop ≤ (border.passAll (edit :: rest)).old :=
        (border.pass edit).old_le_passAll
          (IsBatchFrom.left hRest)
      exact (hStart.trans hStop).trans
        (hReached.trans (Length.le_add_right _ _))

/- The ends of edits that fit are made. -/
theorem mapM_ofEdit
    {border : Border}
    {edits : List Edit}
    (h : border.AllFit edits) :
    edits.mapM EditEnds.ofEdit =
      .ok (edits.map Edit.ends) := by
  induction edits generalizing border with
  | nil => rfl
  | cons edit rest ih =>
      rw [List.mapM_cons, EditEnds.ofEdit, Edit.newStop,
        Length.plus_eq_ok h.1.stop, ih h.2]
      rfl

/-
  A batch of edits whose places fit has a map, which inverts
  the edits.
-/
theorem inverts_ofEdits
    {edits : List Edit}
    (hBatch : IsBatch edits)
    (hFits : Border.start.AllFit edits) :
    ∃ first,
      ofEdits edits = .ok first ∧ Inverts edits first := by
  let first : PositionMap :=
    ⟨edits.map Edit.ends, Shift.identity, none⟩
  have hMade : ofEdits edits = .ok first := by
    rw [ofEdits, mapM_ofEdit hFits]
    rfl
  have hAnswers :
      ∀ map last offset passed ahead,
        IsAsked first map last → last ≤ offset →
        edits = passed ++ ahead →
        IsCut .start passed ahead offset →
          Answers map passed ahead offset := by
    rintro map last offset passed ahead hAsked hLast rfl hCut
    refine Stands.answers hBatch hFits ?_
    rw [hAsked.advance_eq hLast]
    exact stands_passEdits hBatch hFits hCut
      Shift.isExact_identity
  refine ⟨first, hMade, ?_, hAnswers, ?_⟩
  · intro offset
    exact exists_isCut edits (Length.zero_le offset)
  · intro map last offset mapLater lastLater later hAsked
      hLast hAskedLater hLastLater hOffset hLater hOrder
    exact Answers.oldOffset_le hBatch hOffset hLater hOrder
      (fun passed ahead hSame hCut =>
        hAnswers map last offset passed ahead hAsked hLast
          hSame hCut)
      (fun passed ahead hSame hCut =>
        hAnswers mapLater lastLater later passed ahead
          hAskedLater hLastLater hSame hCut)

/-
  An edit that joins two lines, with another behind it on
  the joined line.
-/
theorem inverts_ofEdits_lines :
    let edits : List Edit :=
      [⟨⟨0, 1⟩, ⟨1, 2⟩, ⟨0, 3⟩⟩, ⟨⟨1, 4⟩, ⟨1, 4⟩, ⟨1, 1⟩⟩]
    IsBatch edits ∧ Border.start.AllFit edits ∧
      ∃ first,
        ofEdits edits = .ok first ∧ Inverts edits first := by
  intro edits
  have hBatch : IsBatch edits := by decide
  have hFits : Border.start.AllFit edits := by decide
  exact ⟨hBatch, hFits, inverts_ofEdits hBatch hFits⟩

/-
  Where text was only cut out, the new text of the cut ends
  where it starts.  The map stands behind the cut, though
  the place lies as well behind the edit before it.
-/
theorem oldOffset_of_cut :
    let edit : Edit := ⟨⟨0, 1⟩, ⟨0, 2⟩, ⟨0, 1⟩⟩
    let cut : Edit := ⟨⟨0, 4⟩, ⟨0, 6⟩, 0⟩
    let border := Border.start.pass edit
    let offset : Position := ⟨0, 4⟩
    IsBatch [edit, cut] ∧
      Border.start.AllFit [edit, cut] ∧
      border.new ≤ offset ∧ offset ≤ border.newStart cut ∧
      ∃ first,
        ofEdits [edit, cut] = .ok first ∧
          (first.oldOffset offset).1 ≠
            border.old + border.new.upTo offset ∧
          (first.distanceToNext? offset).1 ≠
            some (offset.upTo (border.newStart cut)) := by
  intro edit cut border offset
  exact ⟨by decide, by decide, by decide, by decide, _, rfl,
    by decide, by decide⟩

end PositionMap

end Bracketry
