import Bracketry.Edit.PositionMap
import Bracketry.Proofs.Turns

/-
  Where a place of the new text was in the old one.

  Behind an edit, the shift of a position map moves places
  exactly: what lies some way behind the end of the edit in
  one text lies as far behind it in the other.  So a place
  that no edit touches is found in the old text, and what is
  kept behind it reaches up to the next edit.

  Key definitions include:
    * `Shift.IsExact`
    * `Maps`, `Located`

  Main declarations:
    * `Shift.toNew_add`, `Shift.toOld_add`
    * `Maps.advance`
    * `Maps.locate`
-/

------------------------------------------------------------
-- Exact Shifts
------------------------------------------------------------

namespace Bracketry

theorem shiftCount_eq
    {count shifted : Nat}
    {difference : Int}
    (hSum : (count : Int) + difference = shifted)
    (hFits : shifted < countLimit) :
    shiftCount count difference = shifted := by
  unfold shiftCount
  rw [hSum, Int.toNat_natCast]
  unfold countLimit at hFits
  unfold maxCount
  omega

namespace Shift

/-
  The shift moves an end of the old text to an end of the
  new one; before the first edit, both are the start.
-/
def IsExact
    (shift : Shift)
    (oldEnd newEnd : Position) :
    Prop :=
  shift.lines = (newEnd.lines - oldEnd.lines : Int) ∧
    ((shift.line = none ∧ oldEnd = 0 ∧ newEnd = 0) ∨
      (shift.line = some oldEnd.lines ∧
        shift.columns =
          (newEnd.columns - oldEnd.columns : Int)))

theorem isExact_identity :
    identity.IsExact 0 0 :=
  ⟨rfl, .inl ⟨rfl, rfl, rfl⟩⟩

/- Lines behind one place move as far behind the other. -/
theorem shiftCount_lines
    {start stop : Position}
    {length : Length}
    {lines : Int}
    (hLines : lines = (stop.lines - start.lines : Int))
    (hFits : (stop + length).Fits) :
    shiftCount (start + length).lines lines =
      (stop + length).lines := by
  apply shiftCount_eq _ hFits.1
  rw [hLines, Length.add_lines, Length.add_lines]
  omega

/- On the line of the place, columns move; below, they stay. -/
theorem shiftCount_columns
    {start stop : Position}
    {length : Length}
    {columns : Int}
    (hColumns : columns = (stop.columns - start.columns : Int))
    (hFits : (stop + length).Fits) :
    (if length.lines = 0 then
        shiftCount (start + length).columns columns
      else (start + length).columns) =
      (stop + length).columns := by
  have hFirst := Length.add_columns start length
  have hSecond := Length.add_columns stop length
  split_ifs at hFirst hSecond ⊢ with hFlat
  · apply shiftCount_eq _ hFits.2
    rw [hColumns, hFirst, hSecond]
    omega
  · rw [hFirst, hSecond]

/- The end of the edit tells if something is on its line. -/
theorem line_eq_iff
    {shift : Shift}
    {oldEnd : Position}
    {length : Length}
    (hLine : shift.line = some oldEnd.lines) :
    shift.line = some (oldEnd + length).lines ↔
      length.lines = 0 := by
  rw [hLine, Option.some.injEq, Length.add_lines]
  omega

/- What lies behind the end is moved as far behind it. -/
theorem toNew_add
    {shift : Shift}
    {oldEnd newEnd : Position}
    {length : Length}
    (h : shift.IsExact oldEnd newEnd)
    (hFits : (newEnd + length).Fits) :
    shift.toNew (oldEnd + length) = newEnd + length := by
  rcases h with ⟨hLines, hColumns⟩
  unfold toNew
  simp only [shiftCount_lines hLines hFits]
  rcases hColumns with ⟨hNone, rfl, rfl⟩ | ⟨hSome, hMoved⟩
  · rw [hNone, if_neg (by simp)]
  · simp only [line_eq_iff hSome]
    rw [← apply_ite (Length.mk (newEnd + length).lines),
      shiftCount_columns hMoved hFits]

/- And it is found again. -/
theorem toOld_add
    {shift : Shift}
    {oldEnd newEnd : Position}
    {length : Length}
    (h : shift.IsExact oldEnd newEnd)
    (hFits : (oldEnd + length).Fits) :
    shift.toOld (newEnd + length) = oldEnd + length := by
  rcases h with ⟨hLines, hColumns⟩
  have hBack :
      -shift.lines = (oldEnd.lines - newEnd.lines : Int) := by
    omega
  unfold toOld
  simp only [shiftCount_lines hBack hFits]
  rcases hColumns with ⟨hNone, rfl, rfl⟩ | ⟨hSome, hMoved⟩
  · rw [hNone, if_neg (by simp)]
  · have hColumn :
        -shift.columns =
          (oldEnd.columns - newEnd.columns : Int) := by
      omega
    simp only [line_eq_iff hSome]
    rw [← apply_ite (Length.mk (oldEnd + length).lines),
      shiftCount_columns hColumn hFits]

/- Passing an edit moves its old end to its new one. -/
theorem isExact_pass
    {shift : Shift}
    {oldEnd newEnd : Position}
    {gap cut added : Length}
    (h : shift.IsExact oldEnd newEnd)
    (hCut : (newEnd + (gap + cut)).Fits)
    (hAdded : (newEnd + (gap + added)).Fits) :
    (shift.pass
      ⟨oldEnd + gap, oldEnd + (gap + cut),
        oldEnd + (gap + added)⟩).IsExact
      (oldEnd + (gap + cut)) (newEnd + (gap + added)) := by
  have hNew := toNew_add h hAdded
  have hOld := toNew_add h hCut
  rcases h with ⟨hLines, hColumns⟩
  unfold pass
  simp only [hNew, hOld]
  refine ⟨?_, .inr ⟨rfl, ?_⟩⟩
  · simp only [hLines, Length.add_lines]
    omega
  · have hFirst := Length.add_columns oldEnd (gap + cut)
    have hSecond := Length.add_columns newEnd (gap + cut)
    simp only
    rcases hColumns with
      ⟨hNone, rfl, rfl⟩ | ⟨hSome, hMoved⟩
    · rw [hNone, if_neg (by simp)]
      omega
    · simp only [line_eq_iff hSome]
      split_ifs at hFirst hSecond ⊢ with hFlat
      · rw [hMoved, hFirst, hSecond]
        omega
      · rw [hFirst, hSecond]
        omega

end Shift

end Bracketry

------------------------------------------------------------
-- Maps between Two Texts
------------------------------------------------------------

namespace Bracketry

open Measured

variable {α β : Type} [Measured α] [Measured β]

/- The three ends of an edit. -/
def Edit.ends
    (edit : Edit) :
    EditEnds :=
  ⟨edit.start, edit.stop, edit.start + edit.inserted⟩

/-
  A map that has passed the edits up to some end of both
  texts.  `seen` is an old place that was asked for; it does
  not lie behind the one that belongs to `place`.
-/
structure Passed
    (rel : α → β → Prop)
    (map : PositionMap)
    (seen place : Position)
    (oldDone oldRest : List α)
    (newDone newRest : List β)
    (edits : List Edit) :
    Prop where
  turns : Turns rel (extent oldDone) edits oldRest newRest
  ahead : map.ahead = edits.map Edit.ends
  isExact :
    map.shift.IsExact (extent oldDone) (extent newDone)
  last :
    (map.lastStop = none ∧ oldDone = [] ∧ newDone = []) ∨
      map.lastStop = some (extent newDone)
  reached : extent newDone ≤ place
  asked :
    ∃ more,
      seen ≤ extent oldDone + more ∧
        (∀ edit, edits.head? = some edit →
          extent oldDone + more ≤ edit.start) ∧
        extent newDone + more ≤ place

/- The map leads from the new text to the old one. -/
def Maps
    (rel : α → β → Prop)
    (old : List α)
    (new : List β)
    (map : PositionMap)
    (seen place : Position) :
    Prop :=
  ∃ oldDone oldRest newDone newRest edits,
    old = oldDone ++ oldRest ∧ new = newDone ++ newRest ∧
      Passed rel map seen place oldDone oldRest newDone
        newRest edits

/- An edit begins behind the place where the texts do. -/
theorem Turns.low_le
    {rel : α → β → Prop}
    {low : Position}
    {edit : Edit}
    {edits : List Edit}
    {old : List α}
    {new : List β}
    (h : Turns rel low edits old new)
    (hEdit : edits.head? = some edit) :
    low ≤ edit.start := by
  cases h with
  | kept hKept => cases hEdit
  | edit hGap hStart hStop hInserted hRest =>
      rcases Option.some.inj hEdit with rfl
      rw [hStart]
      exact Length.le_add_right _ _

/- The map of a batch is in front of its first edit. -/
theorem maps_ofEdits
    {rel : α → β → Prop}
    {edits : List Edit}
    {old : List α}
    {new : List β}
    (hTurns : Turns rel 0 edits old new)
    (hOld : IsSmall old)
    (hNew : IsSmall new) :
    ∃ map,
      PositionMap.ofEdits edits = .ok map ∧
        Maps rel old new map 0 0 := by
  have hEnds :
      ∀ (before : List α) (first : List β) {low edits}
        {old new},
        Turns rel low edits old new →
          low = extent before →
          IsSmall (before ++ old) →
          IsSmall (first ++ new) →
          edits.mapM EditEnds.ofEdit =
            .ok (edits.map Edit.ends) := by
    intro before first low edits old new h
    induction h generalizing before first with
    | kept _ => exact fun _ _ _ => rfl
    | @edit low edit edits gap same cut added old new hGap
        hStart hStop hInserted _ ih =>
        intro hLow hOld hNew
        have hRest := ih (before ++ (gap ++ cut))
          (first ++ (same ++ added))
          (by
            rw [hStop, hStart, hLow]
            simp [add_assoc])
          (by simpa using hOld) (by simpa using hNew)
        have hFits :
            (edit.start + edit.inserted).Fits := by
          rw [hStart, hInserted, hLow, ← extent_append]
          refine fits_add
            (hOld (before ++ gap) (cut ++ old) (by simp)) ?_
          rw [← List.append_assoc] at hNew
          exact hNew.part
        rw [List.mapM_cons, EditEnds.ofEdit, Edit.newStop,
          Length.plus_eq_ok hFits, hRest]
        rfl
  refine ⟨⟨edits.map Edit.ends, Shift.identity, none⟩, ?_,
    [], old, [], new, edits, rfl, rfl, ?_⟩
  · have hAll :=
      hEnds [] [] hTurns rfl hOld hNew
    rw [PositionMap.ofEdits, hAll]
    rfl
  · refine ⟨hTurns, rfl, Shift.isExact_identity,
      .inl ⟨rfl, rfl, rfl⟩, le_refl _, 0, le_refl _, ?_,
      le_refl _⟩
    intro edit hEdit
    exact Length.zero_le _

theorem passEdits_cons_of_le
    {place : Position}
    {shift : Shift}
    {lastStop : Option Position}
    {edit : EditEnds}
    {rest : List EditEnds}
    (h : shift.toNew edit.newStop ≤ place) :
    PositionMap.passEdits place shift lastStop
        (edit :: rest) =
      PositionMap.passEdits place (shift.pass edit)
        (some (shift.toNew edit.newStop)) rest := by
  simp [PositionMap.passEdits, h]

theorem passEdits_cons_of_not_le
    {place : Position}
    {shift : Shift}
    {lastStop : Option Position}
    {edit : EditEnds}
    {rest : List EditEnds}
    (h : ¬shift.toNew edit.newStop ≤ place) :
    PositionMap.passEdits place shift lastStop
        (edit :: rest) =
      ⟨edit :: rest, shift, lastStop⟩ := by
  simp [PositionMap.passEdits, h]

/- Moving forward in two steps is doing so in one. -/
theorem advance_of_le
    (map : PositionMap)
    {place later : Position}
    (h : place ≤ later) :
    (map.advance place).advance later =
      map.advance later := by
  rcases map with ⟨ahead, shift, lastStop⟩
  unfold PositionMap.advance
  simp only
  induction ahead generalizing shift lastStop with
  | nil => rfl
  | cons edit rest ih =>
      by_cases hPass : shift.toNew edit.newStop ≤ place
      · rw [passEdits_cons_of_le hPass,
          passEdits_cons_of_le (hPass.trans h)]
        exact ih _ _
      · rw [passEdits_cons_of_not_le hPass]

/- Moving forward to the same place changes nothing. -/
theorem advance_advance
    (map : PositionMap)
    (place : Position) :
    (map.advance place).advance place = map.advance place :=
  advance_of_le map (le_refl place)

/-
  Passing edits up to a place of the new text.  The next
  edit, if there is one, ends behind the place.
-/
theorem Passed.advance
    {rel : α → β → Prop}
    {map : PositionMap}
    {seen place : Position}
    {oldDone oldRest : List α}
    {newDone newRest : List β}
    {edits : List Edit}
    (hSize : SameSize rel)
    (hOld : IsSmall (oldDone ++ oldRest))
    (hNew : IsSmall (newDone ++ newRest))
    (h :
      Passed rel map seen place oldDone oldRest newDone
        newRest edits) :
    ∃ oldFirst oldLast newFirst newLast others,
      oldDone ++ oldRest = oldFirst ++ oldLast ∧
        newDone ++ newRest = newFirst ++ newLast ∧
        Passed rel (map.advance place) seen place oldFirst
          oldLast newFirst newLast others ∧
        ∀ edit, others.head? = some edit →
          place <
            (map.advance place).shift.toNew
              (edit.start + edit.inserted) := by
  rcases h with
    ⟨hTurns, hAhead, hExact, hLast, hReached, hAsked⟩
  rcases map with ⟨ahead, shift, lastStop⟩
  simp only at hAhead hExact hLast
  subst hAhead
  rw [PositionMap.advance]
  simp only
  induction edits generalizing shift lastStop oldDone oldRest
    newDone newRest with
  | nil =>
      exact ⟨oldDone, oldRest, newDone, newRest, [], rfl, rfl,
        ⟨hTurns, rfl, hExact, hLast, hReached, hAsked⟩,
        by simp⟩
  | cons edit rest ih =>
      rw [List.map_cons]
      by_cases hPass : shift.toNew edit.ends.newStop ≤ place
      · rw [passEdits_cons_of_le hPass]
        cases hTurns with
        | @edit _ _ _ gap same cut added old new hGap hStart
            hStop hInserted hRest =>
            have hSame := extent_eq_of_forall₂ hSize hGap
            have hEnds :
                edit.ends =
                  ⟨extent oldDone + extent gap,
                    extent oldDone + (extent gap + extent cut),
                    extent oldDone +
                      (extent gap + extent added)⟩ := by
              simp [Edit.ends, hStop, hStart, hInserted,
                add_assoc]
            have hAddedFits :
                (extent newDone +
                  (extent gap + extent added)).Fits := by
              have hPlace := hNew.fitsFrom
                (newDone ++ (same ++ added)) new (by simp)
              simpa [hSame] using hPlace
            have hCutFits :
                (extent newDone +
                  (extent gap + extent cut)).Fits := by
              refine fits_add (hNew newDone _ rfl) ?_
              rw [← List.append_assoc gap] at hOld
              simpa using hOld.part
            have hNewStop :
                shift.toNew edit.ends.newStop =
                  extent (newDone ++ (same ++ added)) := by
              rw [hEnds, Shift.toNew_add hExact hAddedFits]
              simp [hSame]
            have hOldStop :
                edit.stop =
                  extent (oldDone ++ (gap ++ cut)) := by
              simp [hStop, hStart, add_assoc]
            rw [hOldStop] at hRest
            rw [hNewStop] at hPass ⊢
            rcases hAsked with ⟨more, hSeen, hFirst, _⟩
            have hDone :=
              Shift.isExact_pass hExact hCutFits hAddedFits
            rw [← hEnds] at hDone
            have hReach :
                ∃ more,
                  seen ≤
                      extent (oldDone ++ (gap ++ cut)) +
                        more ∧
                    (∀ next, rest.head? = some next →
                      extent (oldDone ++ (gap ++ cut)) +
                        more ≤ next.start) ∧
                    extent (newDone ++ (same ++ added)) +
                      more ≤ place := by
              refine ⟨0, ?_, ?_, ?_⟩
              · rw [add_zero, ← hOldStop]
                refine (hSeen.trans (hFirst edit rfl)).trans ?_
                rw [hStop]
                exact Length.le_add_right _ _
              · intro next hNext
                rw [add_zero]
                exact hRest.low_le hNext
              · rw [add_zero]
                exact hPass
            have hStep := ih (by simpa using hOld)
              (by simpa using hNew) hRest hPass hReach
              (shift.pass edit.ends) (some _)
              (by simpa [hSame] using hDone) (.inr rfl)
            simpa using hStep
      · rw [passEdits_cons_of_not_le hPass]
        refine ⟨oldDone, oldRest, newDone, newRest,
          edit :: rest, rfl, rfl,
          ⟨hTurns, rfl, hExact, hLast, hReached, hAsked⟩, ?_⟩
        intro next hNext
        rcases Option.some.inj hNext with rfl
        exact not_le.1 hPass

/- The map still leads to the old text once it moved. -/
theorem Maps.advance
    {rel : α → β → Prop}
    {old : List α}
    {new : List β}
    {map : PositionMap}
    {seen place : Position}
    (hSize : SameSize rel)
    (hOld : IsSmall old)
    (hNew : IsSmall new)
    (h : Maps rel old new map seen place) :
    Maps rel old new (map.advance place) seen place := by
  rcases h with
    ⟨oldDone, oldRest, newDone, newRest, edits, rfl, rfl,
      hPassed⟩
  rcases hPassed.advance hSize hOld hNew with
    ⟨oldFirst, oldLast, newFirst, newLast, others, hOldSame,
      hNewSame, hMoved, _⟩
  exact ⟨oldFirst, oldLast, newFirst, newLast, others,
    hOldSame, hNewSame, hMoved⟩

/- It also leads there from any later place. -/
theorem Maps.later
    {rel : α → β → Prop}
    {old : List α}
    {new : List β}
    {map : PositionMap}
    {seen place later : Position}
    (hLater : place ≤ later)
    (h : Maps rel old new map seen place) :
    Maps rel old new map seen later := by
  rcases h with
    ⟨oldDone, oldRest, newDone, newRest, edits, hOld, hNew,
      hTurns, hAhead, hExact, hLast, hReached, more, hSeen,
      hFirst, hMore⟩
  exact ⟨oldDone, oldRest, newDone, newRest, edits, hOld,
    hNew, hTurns, hAhead, hExact, hLast,
    hReached.trans hLater, more, hSeen, hFirst,
    hMore.trans hLater⟩

end Bracketry

------------------------------------------------------------
-- Places in the Old Text
------------------------------------------------------------

namespace Bracketry

open Measured

variable {α β : Type}

/- Both texts are empty, or end in related pieces. -/
def SameEnd
    (rel : α → β → Prop)
    (a : List α)
    (b : List β) :
    Prop :=
  (a = [] ∧ b = []) ∨
    ∃ first x others y,
      a = first ++ [x] ∧ b = others ++ [y] ∧ rel x y

theorem sameEnd_of_forall₂
    {rel : α → β → Prop}
    {a : List α}
    {b : List β}
    (h : List.Forall₂ rel a b)
    (hSome : b ≠ []) :
    SameEnd rel a b := by
  rcases List.eq_nil_or_concat b |>.resolve_left hSome with
    ⟨others, y, rfl⟩
  rw [List.concat_eq_append] at h ⊢
  rcases exists_of_forall₂_append h with
    ⟨first, last, rfl, _, hLast⟩
  cases hLast with
  | cons hHead hNil =>
      cases hNil
      exact .inr ⟨first, _, others, y, rfl, rfl, hHead⟩

theorem SameEnd.getLast?_eq
    {a b : List α}
    (h : SameEnd Eq a b) :
    a.getLast? = b.getLast? := by
  rcases h with
    ⟨rfl, rfl⟩ | ⟨first, x, others, _, rfl, rfl, rfl⟩
  · rfl
  · simp

theorem SameEnd.append
    {rel : α → β → Prop}
    {a c : List α}
    {b d : List β}
    (h : SameEnd rel c d)
    (hSome : d ≠ []) :
    SameEnd rel (a ++ c) (b ++ d) := by
  rcases h with ⟨_, hNil⟩ | ⟨first, x, others, y, hc, hd, hRel⟩
  · exact absurd hNil hSome
  · exact .inr ⟨a ++ first, x, b ++ others, y,
      by rw [hc, List.append_assoc],
      by rw [hd, List.append_assoc], hRel⟩

variable [Measured α] [Measured β]

/-
  A place of the new text that no edit touches, with the
  place of the old one that belongs to it.  What is kept
  behind it reaches to the next edit or to the end.
-/
structure Located
    (rel : α → β → Prop)
    (room : Option Length)
    (oldBefore gap oldBehind : List α)
    (newBefore same newBehind : List β) :
    Prop where
  kept : List.Forall₂ rel gap same
  sameEnd : SameEnd rel oldBefore newBefore
  room :
    room = some (extent gap) ∨
      (room = none ∧ oldBehind = [] ∧ newBehind = [])

/- What is kept behind the last edit passed is found. -/
theorem Passed.locate
    {rel : α → β → Prop}
    {map : PositionMap}
    {seen : Position}
    {oldDone past oldRest : List α}
    {newDone done newRest : List β}
    {edits : List Edit}
    (hSize : SameSize rel)
    (hPast : List.Forall₂ rel past done)
    (hOld : IsSmall (oldDone ++ (past ++ oldRest)))
    (hFirst :
      ∀ edit, edits.head? = some edit →
        extent (oldDone ++ past) ≤ edit.start)
    (hLast :
      map.lastStop ≠ some (extent (newDone ++ done)))
    (h :
      Passed rel map seen (extent (newDone ++ done)) oldDone
        (past ++ oldRest) newDone (done ++ newRest) edits) :
    SameEnd rel (oldDone ++ past) (newDone ++ done) ∧
      map.shift.toOld (extent (newDone ++ done)) =
        extent (oldDone ++ past) ∧
      seen ≤ extent (oldDone ++ past) ∧
      Passed rel map (extent (oldDone ++ past))
        (extent (newDone ++ done)) oldDone
        (past ++ oldRest) newDone (done ++ newRest)
        edits := by
  rcases h with
    ⟨hTurns, hAhead, hExact, hStops, hReached, more, hSeen, _,
      hMore⟩
  have hLength := extent_eq_of_forall₂ hSize hPast
  refine ⟨?_, ?_, ?_, ?_⟩
  · by_cases hNone : done = []
    · subst hNone
      cases hPast
      simp only [List.append_nil] at hLast ⊢
      rcases hStops with ⟨_, hOldNil, hNewNil⟩ | hStop
      · exact .inl ⟨hOldNil, hNewNil⟩
      · exact absurd hStop hLast
    · exact (sameEnd_of_forall₂ hPast hNone).append hNone
  · have hFits := hOld.fitsFrom (oldDone ++ past) oldRest
      (List.append_assoc _ _ _).symm
    rw [zero_add, extent_append] at hFits
    rw [extent_append, extent_append, ← hLength]
    exact Shift.toOld_add hExact hFits
  · rw [extent_append] at hMore ⊢
    rw [Length.add_le_add_left_iff, ← hLength] at hMore
    exact hSeen.trans (Length.add_le_add_left_iff.2 hMore)
  · refine ⟨hTurns, hAhead, hExact, hStops, hReached,
      extent past, ?_, ?_, ?_⟩
    · rw [extent_append]
    · intro edit hEdit
      rw [← extent_append]
      exact hFirst edit hEdit
    · rw [hLength, extent_append]

/-
  Where no edit begins and none has just ended, the map
  finds the old place.
-/
theorem Maps.locate
    {rel : α → β → Prop}
    {old : List α}
    {newBefore newAhead : List β}
    {map : PositionMap}
    {seen : Position}
    (hSize : SameSize rel)
    (hOld : IsSmall old)
    (hNew : IsSmall (newBefore ++ newAhead))
    (h :
      Maps rel old (newBefore ++ newAhead) map seen
        (extent newBefore))
    (hRoom :
      (map.distanceToNext? (extent newBefore)).1 ≠ some 0)
    (hLast :
      (map.advance (extent newBefore)).lastStop ≠
        some (extent newBefore)) :
    ∃ oldBefore gap oldBehind same newBehind,
      old = oldBefore ++ (gap ++ oldBehind) ∧
        newAhead = same ++ newBehind ∧
        Located rel
          (map.distanceToNext? (extent newBefore)).1
          oldBefore gap oldBehind newBefore same newBehind ∧
        (map.advance (extent newBefore)).shift.toOld
          (extent newBefore) = extent oldBefore ∧
        seen ≤ extent oldBefore ∧
        Maps rel old (newBefore ++ newAhead)
          (map.advance (extent newBefore))
          (extent oldBefore) (extent newBefore) := by
  rcases h with
    ⟨oldDone, oldRest, newDone, newRest, edits, rfl, hWhole,
      hPassed⟩
  have hSmall := hNew
  rw [hWhole] at hSmall
  rcases hPassed.advance hSize hOld hSmall with
    ⟨oldFirst, oldLast, newFirst, newLast, others, hOldSame,
      hNewSame, hMoved, hBehind⟩
  rw [← hWhole] at hNewSame
  rw [hOldSame] at hOld ⊢
  rcases exists_of_extent_le hNewSame.symm hMoved.reached with
    ⟨done, rfl, rfl⟩
  rcases id hMoved with ⟨hTurns, hAhead, hExact, _⟩
  unfold PositionMap.distanceToNext? at hRoom ⊢
  simp only [hAhead] at hRoom ⊢
  generalize hTail : done ++ newAhead = tail at hTurns
  cases hTurns with
  | kept hKept =>
      subst hTail
      rcases exists_of_forall₂_append hKept with
        ⟨past, gap, rfl, hPast, hGap⟩
      rcases hMoved.locate hSize hPast hOld (by simp) hLast with
        ⟨hEnd, hFound, hSeen, hNext⟩
      refine ⟨oldFirst ++ past, gap, [], newAhead, [],
        by simp, by simp, ⟨hGap, hEnd, .inr ⟨rfl, rfl, rfl⟩⟩,
        hFound, hSeen, ?_⟩
      exact ⟨oldFirst, past ++ gap, newFirst,
        done ++ newAhead, [], rfl, by simp, hNext⟩
  | @edit _ edit rest all same cut added old new hAll
      hStart hStop hInserted hRest =>
      have hSame := extent_eq_of_forall₂ hSize hAll
      have hStartNew :
          (map.advance (extent (newFirst ++ done))).shift.toNew
              edit.start =
            extent newFirst + extent same := by
        have hFits := hNew.fitsFrom (newFirst ++ same)
          (added ++ new) (by simp [hTail])
        rw [zero_add, extent_append] at hFits
        rw [hStart, hSame]
        exact Shift.toNew_add hExact hFits
      simp only [List.map_cons, Edit.ends, hStartNew,
        ne_eq, Option.some.injEq, Length.upTo_eq_zero]
        at hRoom ⊢
      rw [extent_append, Length.add_le_add_left_iff, not_le]
        at hRoom
      rcases exists_of_extent_le hTail hRoom.le with
        ⟨kept, rfl, rfl⟩
      rcases exists_of_forall₂_append hAll with
        ⟨past, gap, rfl, hPast, hGap⟩
      rw [List.append_assoc] at hMoved hOld
      rcases hMoved.locate hSize hPast hOld
          (by
            rintro _ ⟨⟩
            rw [hStart, extent_append, extent_append,
              ← add_assoc]
            exact Length.le_add_right _ _)
          hLast with
        ⟨hEnd, hFound, hSeen, hNext⟩
      refine ⟨oldFirst ++ past, gap, cut ++ old, kept,
        added ++ new, by simp, rfl,
        ⟨hGap, hEnd, .inl ?_⟩, hFound, hSeen, ?_⟩
      · rw [extent_append, extent_append, ← add_assoc,
          Length.upTo_add,
          extent_eq_of_forall₂ hSize hGap]
      · exact ⟨oldFirst, _, newFirst, _, edit :: rest,
          by simp, by simp, hNext⟩

end Bracketry
