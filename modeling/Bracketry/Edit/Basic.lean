import Bracketry.Length

/-
  Edits of a text, seen as lengths.

  An `Edit` replaces the range from `start` to `stop` of the
  old text by a text of length `inserted`.  A batch of edits
  is sorted and its ranges do not overlap.  A batch is also
  a list of `Run`s: stretches that are copied, and stretches
  that are replaced, from left to right.

  Key definitions include:
    * `Edit`
    * `Edit.IsBatch`
    * `Run`, `Run.splitAt`
    * `Run.ofEdits`
    * `Run.take`
-/

------------------------------------------------------------
-- Edits
------------------------------------------------------------

namespace Bracketry

/- The replacement of a range by a text of some length. -/
structure Edit where
  start : Position
  stop : Position
  inserted : Length
deriving DecidableEq, Repr, Inhabited

namespace Edit

/- The edit that replaces a range by a given text. -/
def replace
    (start stop : Position)
    (text : List Char) :
    Edit :=
  ⟨start, stop, Length.ofText text⟩

/- The end of the inserted text in the new text. -/
def newStop
    (edit : Edit) :
    Checked Position :=
  edit.start.plus edit.inserted

/- An edit written for a reader. -/
def render
    (edit : Edit) :
    String :=
  "[" ++ edit.start.renderPosition ++ "..." ++
    edit.stop.renderPosition ++ ") -> " ++
    edit.inserted.renderPosition

/-
  The edits are in order, each from a start to a later or
  equal stop, and none begins before `low` or inside the
  edit before it.
-/
def IsBatchFrom
    (low : Position) :
    List Edit → Prop
  | [] => True
  | edit :: rest =>
      low ≤ edit.start ∧ edit.start ≤ edit.stop ∧
        IsBatchFrom edit.stop rest

/- The edits are in order and do not overlap. -/
def IsBatch
    (edits : List Edit) :
    Prop :=
  IsBatchFrom 0 edits

end Edit

end Bracketry

------------------------------------------------------------
-- Runs
------------------------------------------------------------

namespace Bracketry

/- A stretch of text that is copied or replaced. -/
structure Run where
  changed : Bool
  before : Length
  after : Length
deriving DecidableEq, Repr, Inhabited

namespace Run

/- A stretch that is copied. -/
def copied
    (length : Length) :
    Run :=
  ⟨false, length, length⟩

/-
  Split a run by a length of new text.  The first half of a
  replacement keeps all of the replaced text.
-/
def splitAt
    (run : Run)
    (length : Length) :
    Run × Option Run :=
  let remaining := length.upTo run.after
  if remaining = 0 then (run, none)
  else if run.changed then
    (⟨true, run.before, length⟩,
      some ⟨true, 0, remaining⟩)
  else (copied length, some (copied remaining))

/- A run written for a reader. -/
def render
    (run : Run) :
    String :=
  (if run.changed then "M:" else "U:") ++
    run.before.renderPosition ++ " -> " ++
    run.after.renderPosition

/- The runs of the edits that follow a position. -/
def ofEditsFrom
    (low : Position) :
    List Edit → List Run
  | [] => []
  | edit :: rest =>
      let gap := low.upTo edit.start
      let run : Run :=
        ⟨true, edit.start.upTo edit.stop, edit.inserted⟩
      let runs := run :: ofEditsFrom edit.stop rest
      if gap = 0 then runs else copied gap :: runs

/-
  The runs of a batch.  What follows the last edit is copied
  and not listed.
-/
def ofEdits
    (edits : List Edit) :
    List Run :=
  ofEditsFrom 0 edits

/-
  Take the runs that make up a length of new text, and the
  runs that are left.  What follows the last run is copied.
-/
def take
    (length : Length) :
    List Run → List Run × List Run
  | [] =>
      if length = 0 then ([], [])
      else ([copied length], [])
  | run :: rest =>
      if length = 0 then ([], run :: rest)
      else
        match run.splitAt length with
        | (item, some left) => ([item], left :: rest)
        | (item, none) =>
            let (items, left) :=
              take (item.after.upTo length) rest
            (item :: items, left)

end Run

end Bracketry
