import Bracketry.Edit.Basic

/-
  Places of the new text, found in the old one.

  A `PositionMap` walks a batch of edits together with the
  offsets that it is asked for, which must not decrease.  It
  keeps by how much lines are shifted behind the edits that
  were passed, and by how much columns are shifted on the
  one old line where the last of them ended.

  Key definitions include:
    * `PositionMap`
    * `PositionMap.ofEdits`
    * `PositionMap.oldOffset`
    * `PositionMap.distanceToNext?`
    * `PositionMap.isRightAfterEdit`
-/

------------------------------------------------------------
-- Shifts
------------------------------------------------------------

namespace Bracketry

/- Move a count by a difference, kept within 32 bits. -/
def shiftCount
    (count : Nat)
    (difference : Int) :
    Nat :=
  min (count + difference).toNat maxCount

/- The three ends of an edit that a map works with. -/
structure EditEnds where
  start : Position
  oldStop : Position
  newStop : Position
deriving DecidableEq, Repr, Inhabited

/- The ends of an edit; the new end must fit. -/
def EditEnds.ofEdit
    (edit : Edit) :
    Checked EditEnds := do
  let newStop ← edit.newStop
  return ⟨edit.start, edit.stop, newStop⟩

/-
  The shift behind the edits that were passed: of all lines,
  and of the columns of one old line.
-/
structure Shift where
  lines : Int
  columns : Int
  line : Option Nat
deriving DecidableEq, Repr, Inhabited

namespace Shift

/- The shift in front of the first edit. -/
def identity : Shift :=
  ⟨0, 0, none⟩

/- The new place of an old one. -/
def toNew
    (shift : Shift)
    (old : Position) :
    Position :=
  let line := shiftCount old.lines shift.lines
  if shift.line = some old.lines then
    ⟨line, shiftCount old.columns shift.columns⟩
  else ⟨line, old.columns⟩

/- The old place of a new one. -/
def toOld
    (shift : Shift)
    (new : Position) :
    Position :=
  let line := shiftCount new.lines (-shift.lines)
  if shift.line = some line then
    ⟨line, shiftCount new.columns (-shift.columns)⟩
  else ⟨line, new.columns⟩

/- The shift behind one more edit. -/
def pass
    (shift : Shift)
    (edit : EditEnds) :
    Shift :=
  let newStop := shift.toNew edit.newStop
  let oldStop := shift.toNew edit.oldStop
  let columns :=
    if shift.line = some edit.oldStop.lines then
      shift.columns
    else 0
  { lines :=
      shift.lines + (newStop.lines - oldStop.lines : Int)
    columns :=
      columns + (newStop.columns - oldStop.columns : Int)
    line := some edit.oldStop.lines }

end Shift

end Bracketry

------------------------------------------------------------
-- Position Maps
------------------------------------------------------------

namespace Bracketry

/- The edits still ahead, and the shift behind the others. -/
structure PositionMap where
  ahead : List EditEnds
  shift : Shift
  lastStop : Option Position
deriving DecidableEq, Repr, Inhabited

namespace PositionMap

/- The map of a batch, in front of its first edit. -/
def ofEdits
    (edits : List Edit) :
    Checked PositionMap := do
  let ahead ← edits.mapM EditEnds.ofEdit
  return ⟨ahead, Shift.identity, none⟩

/- Pass the edits whose new text ends by an offset. -/
def passEdits
    (offset : Position)
    (shift : Shift)
    (lastStop : Option Position) :
    List EditEnds → PositionMap
  | [] => ⟨[], shift, lastStop⟩
  | edit :: rest =>
      let newStop := shift.toNew edit.newStop
      if newStop ≤ offset then
        passEdits offset (shift.pass edit)
          (some newStop) rest
      else ⟨edit :: rest, shift, lastStop⟩

/- Move the map forward to an offset of the new text. -/
def advance
    (map : PositionMap)
    (offset : Position) :
    PositionMap :=
  passEdits offset map.shift map.lastStop map.ahead

/- The old place of an offset, and the map behind it. -/
def oldOffset
    (map : PositionMap)
    (offset : Position) :
    Position × PositionMap :=
  let map := map.advance offset
  (map.shift.toOld offset, map)

/-
  The length of text from an offset to the next edit; none
  when no edit is ahead.
-/
def distanceToNext?
    (map : PositionMap)
    (offset : Position) :
    Option Length × PositionMap :=
  let map := map.advance offset
  match map.ahead with
  | [] => (none, map)
  | edit :: _ =>
      (some (offset.upTo (map.shift.toNew edit.start)), map)

/- An edit ends exactly at the offset. -/
def isRightAfterEdit
    (map : PositionMap)
    (offset : Position) :
    Bool × PositionMap :=
  let map := map.advance offset
  (map.lastStop = some offset, map)

end PositionMap

end Bracketry
