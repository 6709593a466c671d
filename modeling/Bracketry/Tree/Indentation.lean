import Bracketry.Content.Snapshot
import Bracketry.Tree.Basic

/-
  The least indentation of the lines inside a node.

  The indentation of a line is the visible column of its
  first character that is neither blank nor tab.  A text
  counts for the lines that it starts, a bracket for none.
  Pairs below a depth are left out, and what is computed
  without them is not complete.

  A complete result for a list is remembered under the key
  of the list.  A list that lives on in later trees keeps
  what was remembered.

  Key definitions include:
    * `visibleIndentation`
    * `Node.textIndentation`
    * `IndentationCache`
    * `Node.minIndentation`
-/

------------------------------------------------------------
-- Lines
------------------------------------------------------------

namespace Bracketry

/- The indentation of nothing: the largest count. -/
def noIndentation : Nat := maxCount

/- How many pairs a query follows into one another. -/
def maxQueryDepth : Nat := 200

/-
  The visible column of the first character behind blanks
  and tabs, counted on from a column.  A tab goes to the
  next multiple of the tab width.
-/
def visibleFrom
    (tabSize column : Nat) :
    List Char → Checked (Option Nat)
  | [] => .ok none
  | c :: rest =>
      if c = ' ' then do
        let column ← checkedSum column 1
        visibleFrom tabSize column rest
      else if c = '\t' then do
        let column ←
          checkedSum column (tabSize - column % tabSize)
        visibleFrom tabSize column rest
      else .ok (some column)

/- The indentation of a line; none of a blank line. -/
def visibleIndentation
    (tabSize : Nat)
    (line : List Char) :
    Checked (Option Nat) :=
  visibleFrom tabSize 0 line

end Bracketry

------------------------------------------------------------
-- Texts
------------------------------------------------------------

namespace Bracketry

namespace Node

/- The least indentation of some lines. -/
def linesIndentation
    (tabSize : Nat) :
    List Line → Checked Nat
  | [] => .ok noIndentation
  | line :: rest => do
      let column ← visibleIndentation tabSize line.text
      let least ← linesIndentation tabSize rest
      return min (column.getD noIndentation) least

/-
  The least indentation of the lines that a text starts.  A
  last line that the text reaches only at its start is not
  one of them.
-/
def textIndentation
    (content : Content)
    (offset : Position)
    (length : Length) :
    Checked Nat := do
  let first ←
    if offset.columns = 0 then pure offset.lines
    else checkedSum offset.lines 1
  let stop ← offset.plus length
  let last :=
    if stop.columns = 0 then stop.lines
    else stop.lines + 1
  let last := min last (max content.lineCount 1)
  linesIndentation (max content.tabSize 1)
    ((content.lines.take last).drop first)

end Node

end Bracketry

------------------------------------------------------------
-- Nodes
------------------------------------------------------------

namespace Bracketry

/- What was remembered for lists, by their keys. -/
structure IndentationCache where
  entries : List (Nat × Nat)
deriving DecidableEq, Repr, Inhabited

namespace IndentationCache

/- Nothing is remembered. -/
def empty : IndentationCache :=
  ⟨[]⟩

/- What was remembered for a list. -/
def get?
    (cache : IndentationCache)
    (key : Option Nat) :
    Option Nat :=
  match key with
  | some key => cache.entries.lookup key
  | none => none

/- Remember a value for a list that has a key. -/
def set
    (cache : IndentationCache)
    (key : Option Nat)
    (value : Nat) :
    IndentationCache :=
  match key with
  | some key => ⟨(key, value) :: cache.entries⟩
  | none => cache

end IndentationCache

/- A least indentation, and whether all pairs were seen. -/
structure Indentation where
  value : Nat
  isComplete : Bool
deriving DecidableEq, Repr, Inhabited

namespace Indentation

/- The indentation of what has no lines. -/
def none : Indentation :=
  ⟨noIndentation, true⟩

/- The indentation of what is not looked into. -/
def cutOff : Indentation :=
  ⟨noIndentation, false⟩

/- The lesser of two, complete if both are. -/
def least
    (a b : Indentation) :
    Indentation :=
  ⟨min a.value b.value, a.isComplete && b.isComplete⟩

end Indentation

namespace Node

mutual

/-
  The least indentation of a node at an offset, with so many
  pairs around it, and what is remembered afterwards.
-/
def indentationAt
    (content : Content)
    (offset : Position)
    (depth : Nat)
    (cache : IndentationCache) :
    Node → Checked (Indentation × IndentationCache)
  | .text _ length => do
      let value ← textIndentation content offset length
      return (⟨value, true⟩, cache)
  | .bracket _ => .ok (Indentation.none, cache)
  | .invalid _ _ _ => .ok (Indentation.none, cache)
  | .pair _ _ _ opening child _ =>
      if maxQueryDepth < depth then
        .ok (Indentation.cutOff, cache)
      else
        match child with
        | none => .ok (Indentation.none, cache)
        | some node => do
            let start ← offset.plus opening.length
            indentationAt content start (depth + 1) cache node
  | .list key _ _ _ items =>
      match cache.get? key with
      | some value => .ok (⟨value, true⟩, cache)
      | none => do
          let (found, cache) ←
            indentationOfAll content offset depth cache
              items
          if found.isComplete then
            return (found, cache.set key found.value)
          else return (found, cache)

/- The least indentation of nodes one behind the other. -/
def indentationOfAll
    (content : Content)
    (offset : Position)
    (depth : Nat)
    (cache : IndentationCache) :
    List Node → Checked (Indentation × IndentationCache)
  | [] => .ok (Indentation.none, cache)
  | item :: rest => do
      let (first, cache) ←
        indentationAt content offset depth cache item
      let next ← offset.plus item.length
      let (others, cache) ←
        indentationOfAll content next depth cache rest
      return (first.least others, cache)

end

/- The least indentation of a node at an offset. -/
def minIndentation
    (content : Content)
    (offset : Position)
    (cache : IndentationCache)
    (node : Node) :
    Checked (Nat × IndentationCache) := do
  let (found, cache) ←
    indentationAt content offset 0 cache node
  return (found.value, cache)

end Node

end Bracketry
