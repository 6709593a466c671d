import Bracketry.Index.Basic

/-
  Bringing the trees of an index up to date.

  A tree is parsed again when edits are queued for it or
  when the content has moved on.  Queued edits tell which
  parts of the old tree can stay.  Content that moved on
  without any edit is parsed from scratch.

  Key definitions include:
    * `ParseJob`
    * `Index.classifiedJob?`, `Index.plainJob?`
    * `Index.parse`
    * `Index.flush`
    * `Index.ofSnapshot`
-/

------------------------------------------------------------
-- Parsing
------------------------------------------------------------

namespace Bracketry

/- An old tree, if it can be used, and the edits since. -/
structure ParseJob where
  old : Option Node
  edits : List Edit
deriving Inhabited

namespace Index

/-
  The tree of content.  Without a classification and an old
  tree, the whole text is scanned at once.
-/
def parse
    (table : TokenTable)
    (content : Content)
    (spans : Option SpanTable)
    (job : ParseJob) :
    Checked (Node × ParseStats) :=
  match spans, job.old with
  | none, none =>
      parseDocument (TokenStream.ofText table content.text)
        [] none
  | spans, old =>
      parseDocument
        (TokenStream.ofLines
          ⟨content, spans.getD SpanTable.plain, table⟩)
        job.edits old

/- Parse, and give keys to the nodes that are new. -/
def parseWithKeys
    (index : Index)
    (content : Content)
    (spans : Option SpanTable)
    (job : ParseJob) :
    Checked (Node × ParseStats × Index) := do
  let (root, stats) ← parse index.table content spans job
  let (root, next) := root.giveKeys index.nextKey
  return (root, stats, { index with nextKey := next })

end Index

end Bracketry

------------------------------------------------------------
-- Work
------------------------------------------------------------

namespace Bracketry

namespace Index

/- The version of the content is not the known one. -/
def hasMoved
    (index : Index)
    (content : Content) :
    Bool :=
  index.version != some content.version

/- The work on one tree, given whether there is any. -/
def job?
    (isNeeded : Bool)
    (tree : Option Node)
    (edits : List Edit) :
    Option ParseJob :=
  if isNeeded then
    some ⟨if edits.isEmpty then none else tree, edits⟩
  else none

/- The work on the classified tree. -/
def classifiedJob?
    (index : Index)
    (content : Content) :
    Option ParseJob :=
  job?
    (index.classified.isNone || !index.edits.isEmpty ||
      index.hasMoved content)
    index.classified index.edits

/- The work on the plain tree. -/
def plainJob?
    (index : Index)
    (content : Content) :
    Option ParseJob :=
  job?
    (index.plain.isSome &&
      (!index.plainEdits.isEmpty || index.hasMoved content))
    index.plain index.plainEdits

/- Both trees are to be parsed, and from the same input. -/
def isSameWork
    (snapshot : Snapshot)
    (a b : ParseJob) :
    Bool :=
  let sameTree :=
    match a.old, b.old with
    | some x, some y => x.isSame y
    | none, none => true
    | _, _ => false
  snapshot.spans.isNone && sameTree &&
    decide (a.edits = b.edits)

/- Do the work on the classified tree. -/
def updateClassified
    (index : Index)
    (snapshot : Snapshot)
    (job : Option ParseJob) :
    Checked Index :=
  match job with
  | none => .ok index
  | some job => do
      let (root, stats, index) ←
        index.parseWithKeys snapshot.content snapshot.spans
          job
      return { index with
        classified := some root
        stats := stats }

/- Do the work on the plain tree. -/
def updatePlain
    (index : Index)
    (snapshot : Snapshot)
    (job : Option ParseJob) :
    Checked Index :=
  match job with
  | none => .ok index
  | some job => do
      let (root, stats, index) ←
        index.parseWithKeys snapshot.content none job
      return { index with
        plain := some root
        stats := stats }

/- Do the work on both trees at once. -/
def updateBoth
    (index : Index)
    (snapshot : Snapshot)
    (job : ParseJob) :
    Checked Index := do
  let (root, stats, index) ←
    index.parseWithKeys snapshot.content none job
  return { index with
    classified := some root
    plain := some root
    stats := stats }

end Index

end Bracketry

------------------------------------------------------------
-- Flushing
------------------------------------------------------------

namespace Bracketry

namespace Index

/- Do the work, if any, and note what it was done for. -/
def update
    (index : Index)
    (snapshot : Snapshot) :
    Checked Index := do
  let classifiedJob := index.classifiedJob? snapshot.content
  let plainJob := index.plainJob? snapshot.content
  let index :=
    { index with
      edits :=
        if classifiedJob.isSome then [] else index.edits
      plainEdits :=
        if plainJob.isSome then [] else index.plainEdits }
  if classifiedJob.isNone && plainJob.isNone then return index
  else
    let index ←
      match classifiedJob, plainJob with
      | some a, some b =>
          if isSameWork snapshot a b then
            index.updateBoth snapshot a
          else do
            let index ←
              index.updateClassified snapshot (some a)
            index.updatePlain snapshot (some b)
      | a, b => do
          let index ← index.updateClassified snapshot a
          index.updatePlain snapshot b
    return { index with
      version := some snapshot.content.version
      content := some snapshot.content }

/-
  Bring the trees up to date with the live content.  Without
  content, nothing happens.
-/
def flush
    (index : Index)
    (live : Option Snapshot) :
    Checked Index :=
  match live with
  | none => .ok index
  | some snapshot => do
      let index ← index.update snapshot
      return { index with isDirty := false }

/-
  The index of live content.  Without a classification the
  one tree is both the plain and the classified one.
-/
def ofSnapshot
    (table : TokenTable)
    (live : Option Snapshot) :
    Checked Index :=
  let index := empty table
  match live with
  | none => .ok index
  | some snapshot => do
      let (root, stats, index) ←
        index.parseWithKeys snapshot.content snapshot.spans
          ⟨none, []⟩
      return { index with
        plain :=
          if snapshot.spans.isNone then some root else none
        classified := some root
        version := some snapshot.content.version
        content := some snapshot.content
        stats := stats }

end Index

end Bracketry
