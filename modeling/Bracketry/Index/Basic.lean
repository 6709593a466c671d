import Bracketry.Content.Snapshot
import Bracketry.Edit.Compose
import Bracketry.Parse
import Bracketry.Tree.Indentation

/-
  The index of the brackets of one document.

  An index holds up to two trees: one of the plain text,
  which is there before any classification, and one of the
  classified text.  Queries read the plain tree while it
  exists.  Edits are only queued, one queue for each tree,
  until the trees are brought up to date.

  Key definitions include:
    * `Index`
    * `Index.current?`
    * `Index.queueEdit`
    * `Index.queueLines`, `LineSpan.merge`
    * `Index.completeClassification`
-/

------------------------------------------------------------
-- The Index
------------------------------------------------------------

namespace Bracketry

/-
  The trees of a document, the edits queued for each, and
  the content and version they were made from.  `cache` and
  `nextKey` belong to the nodes of all trees.
-/
structure Index where
  table : TokenTable
  plain : Option Node
  classified : Option Node
  plainEdits : List Edit
  edits : List Edit
  content : Option Content
  version : Option Nat
  stats : ParseStats
  isDirty : Bool
  cache : IndentationCache
  nextKey : Nat
deriving Inhabited

namespace Index

/- An index that has seen no content. -/
def empty
    (table : TokenTable) :
    Index :=
  { table := table
    plain := none
    classified := none
    plainEdits := []
    edits := []
    content := none
    version := none
    stats := ParseStats.none
    isDirty := false
    cache := IndentationCache.empty
    nextKey := 0 }

/- The tree that queries read. -/
def current?
    (index : Index) :
    Option Node :=
  index.plain.or index.classified

end Index

end Bracketry

------------------------------------------------------------
-- Edits
------------------------------------------------------------

namespace Bracketry

namespace Index

/-
  Queue edits for the classified tree and, where it exists
  and is meant too, for the plain tree.
-/
def queueEdits
    (index : Index)
    (edits : List Edit)
    (forPlain : Bool) :
    Checked Index := do
  let queued ← Edit.compose index.edits edits
  let index := { index with edits := queued }
  if forPlain && index.plain.isSome then
    let queued ← Edit.compose index.plainEdits edits
    return { index with plainEdits := queued }
  else return index

/- Queue the replacement of a range by a text. -/
def queueEdit
    (index : Index)
    (start stop : Position)
    (text : List Char) :
    Checked Index := do
  let index ←
    index.queueEdits [Edit.replace start stop text] true
  return { index with isDirty := true }

end Index

end Bracketry

------------------------------------------------------------
-- Lines Classified Anew
------------------------------------------------------------

namespace Bracketry

/- The lines from one up to and with another. -/
structure LineSpan where
  first : Nat
  last : Nat
deriving DecidableEq, Repr, Inhabited

namespace LineSpan

/- The next line, or the last that can be counted. -/
def after
    (line : Nat) :
    Nat :=
  min (line + 1) maxCount

/- The span has a line. -/
def isProper
    (span : LineSpan) :
    Bool :=
  span.first ≤ span.last

/- The span starts before the other, or ends before it. -/
def isBefore
    (a b : LineSpan) :
    Bool :=
  a.first < b.first ||
    (a.first = b.first && a.last ≤ b.last)

/- Enter a span into a sorted list. -/
def enter
    (span : LineSpan) :
    List LineSpan → List LineSpan
  | [] => [span]
  | first :: rest =>
      if isBefore span first then span :: first :: rest
      else first :: enter span rest

/- Join the spans that touch the current one. -/
def joinFrom
    (current : LineSpan) :
    List LineSpan → List LineSpan
  | [] => [current]
  | span :: rest =>
      if span.first ≤ after current.last then
        joinFrom
          ⟨current.first, max current.last span.last⟩ rest
      else current :: joinFrom span rest

/- The lines of spans as sorted spans that do not touch. -/
def merge
    (spans : List LineSpan) :
    List LineSpan :=
  match (spans.filter isProper).foldr enter [] with
  | [] => []
  | span :: rest => joinFrom span rest

/- The replacement of lines by as many lines. -/
def toEdit
    (span : LineSpan) :
    Edit :=
  let stop := after span.last
  ⟨⟨span.first, 0⟩, ⟨stop, 0⟩, ⟨stop - span.first, 0⟩⟩

end LineSpan

namespace Index

/-
  Queue lines whose classification changed.  Only the
  classified tree is concerned.
-/
def queueLines
    (index : Index)
    (spans : List LineSpan) :
    Checked Index :=
  let edits := (LineSpan.merge spans).map LineSpan.toEdit
  if edits.isEmpty || index.classified.isNone then .ok index
  else do
    let index ← index.queueEdits edits false
    return { index with isDirty := true }

/- Drop the plain tree; the classified one is read now. -/
def completeClassification
    (index : Index) :
    Index :=
  { index with plain := none, plainEdits := [] }

end Index

end Bracketry
