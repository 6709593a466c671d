import Bracketry.Index.Offset

/-
  A document together with its index.

  An edit changes the document and is queued for the index
  in one step.  Queries see it once the session was flushed.

  Key definitions include:
    * `Session`
    * `Session.ofDocument`, `Session.withSpans`
    * `Session.applyEdit`, `Session.replace`
    * `Session.updateSpans`
    * `Session.flush`
-/

------------------------------------------------------------
-- Sessions
------------------------------------------------------------

namespace Bracketry

/- A document that is edited, and the index of it. -/
structure Session where
  document : SharedDocument
  index : Index
deriving Inhabited

namespace Session

/- A session over a document as it is. -/
def ofShared
    (table : TokenTable)
    (document : SharedDocument) :
    Checked Session := do
  let index ←
    Index.ofSnapshot table (some document.snapshot)
  return ⟨document, index⟩

/- A session over a document that is not classified. -/
def ofDocument
    (table : TokenTable)
    (document : Document) :
    Checked Session :=
  ofShared table (SharedDocument.ofDocument document)

/- A session over a classified document. -/
def withSpans
    (table : TokenTable)
    (document : Document)
    (spans : SpanTable) :
    Checked Session :=
  ofShared table ⟨document, some spans⟩

/- The content that the index follows. -/
def live
    (session : Session) :
    Snapshot :=
  session.document.snapshot

/- The version of the content that the index follows. -/
def liveVersion
    (session : Session) :
    Option Nat :=
  some session.document.document.version

/- The whole document as one range. -/
def fullRange
    (session : Session) :
    Range :=
  ⟨0, session.document.document.endPosition⟩

/- Change the document without telling the index. -/
def replace
    (session : Session)
    (start stop : Position)
    (text : List Char) :
    Checked Session := do
  let document ← session.document.replace start stop text
  return { session with document := document }

/- Change the document and queue the edit. -/
def applyEdit
    (session : Session)
    (start stop : Position)
    (text : List Char) :
    Checked Session := do
  let session ← session.replace start stop text
  let index ← session.index.queueEdit start stop text
  return { session with index := index }

/- Classify anew and queue the lines that changed. -/
def updateSpans
    (session : Session)
    (spans : SpanTable)
    (changed : List LineSpan) :
    Checked Session := do
  let index ← session.index.queueLines changed
  return ⟨session.document.setSpans (some spans), index⟩

/- Remove the classification without telling the index. -/
def clearSpans
    (session : Session) :
    Session :=
  { session with document := session.document.setSpans none }

/- Let queries read the classified tree. -/
def completeClassification
    (session : Session) :
    Session :=
  { session with
    index := session.index.completeClassification }

/- Bring the index up to date. -/
def flush
    (session : Session) :
    Checked Session := do
  let index ← session.index.flush (some session.live)
  return { session with index := index }

end Session

end Bracketry
