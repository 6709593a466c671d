import Bracketry.Content.LineAccess
import Bracketry.Content.Spans

/-
  Content at one point in time, read line by line.

  `Content` is what the index sees of a document, or of a
  plain list of lines.  A `Snapshot` is content with its
  classification, and a `SharedDocument` is where snapshots
  come from.

  Key definitions include:
    * `Content`
    * `Content.ofDocument`, `Content.ofLines`
    * `Snapshot`
    * `SharedDocument`
-/

------------------------------------------------------------
-- Content
------------------------------------------------------------

namespace Bracketry

/-
  The lines of a text with its version and tab width.
  `wholeCharacters` tells that they are those of a document:
  offsets inside a character are refused then.  Otherwise
  nothing but access to the lines is known.
-/
structure Content where
  lines : List Line
  version : Nat
  tabSize : Nat
  wholeCharacters : Bool
deriving DecidableEq, Repr, Inhabited

namespace Content

/- The content of a document. -/
def ofDocument
    (document : Document) :
    Content :=
  { lines := document.lines
    version := document.version
    tabSize := document.tabSize
    wholeCharacters := true }

/- The content of lines with a line feed between them. -/
def ofLines
    (texts : List (List Char))
    (version : Nat) :
    Content :=
  { lines := Line.ofTexts texts
    version := version
    tabSize := Document.defaultTabSize
    wholeCharacters := false }

/- The number of lines. -/
def lineCount
    (content : Content) :
    Nat :=
  Line.count content.lines

/- The text of a line, empty behind the last. -/
def line
    (content : Content)
    (number : Nat) :
    List Char :=
  Line.textAt content.lines number

/- The number of columns of a line. -/
def columnCount
    (content : Content)
    (number : Nat) :
    Nat :=
  Line.width content.lines number

/- The content line by line. -/
def access
    (content : Content) :
    LineAccess :=
  { lineCount := content.lineCount
    columnCount := content.columnCount
    line := content.line
    version := content.version
    tabSize := content.tabSize }

/- The whole text. -/
def text
    (content : Content) :
    List Char :=
  if content.wholeCharacters then Line.join content.lines
  else content.access.text

/- The offset of a position, clamped to the text. -/
def offsetOf
    (content : Content)
    (position : Position) :
    Nat :=
  if content.wholeCharacters then
    Line.countedOffset content.lines position
  else content.access.offsetOf position

/- The position of an offset, clamped to the text. -/
def positionOf
    (content : Content)
    (offset : Nat) :
    Checked Position :=
  if content.wholeCharacters then
    let text := Line.join content.lines
    let clamped := min offset (Text.byteSize text)
    match Text.splitAt? clamped text with
    | some _ =>
        .ok (Line.countedPosition content.lines clamped)
    | none => .error .splitCharacter
  else .ok (content.access.positionOf offset)

/- The end of the text. -/
def endPosition
    (content : Content) :
    Position :=
  Line.countedEnd content.lines

end Content

end Bracketry

------------------------------------------------------------
-- Snapshots
------------------------------------------------------------

namespace Bracketry

/- Content with its classification, if there is one. -/
structure Snapshot where
  content : Content
  spans : Option SpanTable
deriving DecidableEq, Repr, Inhabited

/- A document with its classification, if there is one. -/
structure SharedDocument where
  document : Document
  spans : Option SpanTable
deriving DecidableEq, Repr, Inhabited

namespace SharedDocument

/- A document that is not classified. -/
def ofDocument
    (document : Document) :
    SharedDocument :=
  ⟨document, none⟩

/- Replace what is between two positions. -/
def replace
    (shared : SharedDocument)
    (start stop : Position)
    (inserted : List Char) :
    Checked SharedDocument := do
  let document ←
    shared.document.replace start stop inserted
  return { shared with document := document }

/- Set or remove the classification. -/
def setSpans
    (shared : SharedDocument)
    (spans : Option SpanTable) :
    SharedDocument :=
  { shared with spans := spans }

/- The document as it is now. -/
def snapshot
    (shared : SharedDocument) :
    Snapshot :=
  ⟨Content.ofDocument shared.document, shared.spans⟩

end SharedDocument

end Bracketry
