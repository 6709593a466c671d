import Bracketry.Edit.Basic

/-
  Composition of two batches of edits.

  The first batch turns an old text into a middle text, the
  second turns the middle text into a new one.  Their
  composition turns the old text into the new one at once.
  It walks the runs of the second batch, takes the runs of
  the first that make up each, and joins edits that touch.

  Key definitions include:
    * `Edit.joinTouching`
    * `Edit.chain`
    * `Edit.compose`
-/

------------------------------------------------------------
-- Joining Touching Edits
------------------------------------------------------------

namespace Bracketry

namespace Edit

/- Join the edits that continue the current one. -/
def joinFrom
    (current : Edit) :
    List Edit → Checked (List Edit)
  | [] => .ok [current]
  | edit :: rest =>
      if current.stop = edit.start then do
        let inserted ← current.inserted.plus edit.inserted
        joinFrom ⟨current.start, edit.stop, inserted⟩ rest
      else do
        let joined ← joinFrom edit rest
        return current :: joined

/- Make one edit of those that touch. -/
def joinTouching :
    List Edit → Checked (List Edit)
  | [] => .ok []
  | edit :: rest => joinFrom edit rest

end Edit

end Bracketry

------------------------------------------------------------
-- Composition
------------------------------------------------------------

namespace Bracketry

namespace Edit

/-
  The edits of runs that the second batch copies, and the
  place in the old text behind them.
-/
def kept
    (offset : Position) :
    List Run → Checked (List Edit × Position)
  | [] => .ok ([], offset)
  | run :: rest => do
      let stop ← offset.plus run.before
      let (edits, last) ← kept stop rest
      if run.changed then
        return (⟨offset, stop, run.after⟩ :: edits, last)
      else return (edits, last)

/-
  Walk the runs of the second batch from a place in the old
  text.  The runs of the first batch that it does not reach
  are kept.
-/
def chain
    (first : List Run)
    (offset : Position) :
    List Run → Checked (List Edit)
  | [] => do
      let (edits, _) ← kept offset first
      return edits
  | run :: rest => do
      let (items, left) := Run.take run.before first
      if run.changed then
        let width ← Length.total (items.map Run.before)
        let stop ← offset.plus width
        let edits ← chain left stop rest
        return ⟨offset, stop, run.after⟩ :: edits
      else
        let (edits, stop) ← kept offset items
        let others ← chain left stop rest
        return edits ++ others

/-
  One batch for two.  The second batch is in places of the
  text after the first; the result is in places of the text
  before it.
-/
def compose
    (first second : List Edit) :
    Checked (List Edit) :=
  if first.isEmpty then .ok second
  else if second.isEmpty then .ok first
  else do
    let edits ←
      chain (Run.ofEdits first) 0 (Run.ofEdits second)
    joinTouching edits

end Edit

end Bracketry
