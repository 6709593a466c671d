import Bracketry.Content.Line

/-
  A text that is edited by replacing ranges of it.

  Positions are clamped to the text before they are used.
  Every replacement raises the version.  A range whose start
  lies behind its end keeps what is before the start and
  what is behind the end.

  Key definitions include:
    * `Document`
    * `Document.ofText`, `Document.ofBytes?`
    * `Document.offsetOf`, `Document.positionOf`
    * `Document.replace`, `Document.replaceRange`
-/

------------------------------------------------------------
-- Documents
------------------------------------------------------------

namespace Bracketry

/- A text, how often it was changed, and its tab width. -/
structure Document where
  text : List Char
  version : Nat
  tabSize : Nat
deriving DecidableEq, Repr, Inhabited

namespace Document

/- The tab width of a document that sets none. -/
def defaultTabSize : Nat := 4

/- A document that was not changed yet. -/
def ofText
    (text : List Char) :
    Document :=
  ⟨text, 0, defaultTabSize⟩

/- A document of bytes, which must be UTF-8. -/
def ofBytes?
    (bytes : List Nat) :
    Except Utf8.DecodeError Document := do
  let text ← Utf8.decode? bytes
  return ofText text

/- The same document with a tab width of at least one. -/
def withTabSize
    (document : Document)
    (tabSize : Nat) :
    Document :=
  { document with tabSize := max tabSize 1 }

/- The number of bytes. -/
def size
    (document : Document) :
    Nat :=
  Text.byteSize document.text

/- The lines of the document. -/
def lines
    (document : Document) :
    List Line :=
  Line.split document.text

/- The text of a line, empty behind the last. -/
def line
    (document : Document)
    (number : Nat) :
    List Char :=
  Line.textAt document.lines number

/- The offset of a position, clamped to its line. -/
def offsetOf
    (document : Document)
    (position : Position) :
    Nat :=
  Line.countedOffset document.lines position

/-
  The position of an offset, clamped to the text.  An offset
  inside a character has none.
-/
def positionOf
    (document : Document)
    (offset : Nat) :
    Checked Position :=
  let offset := min offset document.size
  match Text.splitAt? offset document.text with
  | some _ => .ok (Line.countedPosition document.lines offset)
  | none => .error .splitCharacter

/- The end of the text. -/
def endPosition
    (document : Document) :
    Position :=
  Line.countedEnd document.lines

/- A document written for a reader. -/
def render
    (document : Document) :
    String :=
  "TextDocument \x7b len: " ++ toString document.size ++
    ", version: " ++ toString document.version ++ " \x7d"

end Document

end Bracketry

------------------------------------------------------------
-- Replacement
------------------------------------------------------------

namespace Bracketry

/-
  Keep what is before one offset and what is behind another,
  with a text between them.
-/
def Text.splice
    (start stop : Nat)
    (inserted text : List Char) :
    Checked (List Char) :=
  match Text.splitAt? start text, Text.splitAt? stop text with
  | some (before, _), some (_, after) =>
      .ok (before ++ inserted ++ after)
  | _, _ => .error .splitCharacter

namespace Document

/- Replace a range of offsets, clamped to the text. -/
def replaceRange
    (document : Document)
    (start stop : Nat)
    (inserted : List Char) :
    Checked Document := do
  let text ←
    Text.splice (min start document.size)
      (min stop document.size) inserted document.text
  return { document with
    text := text, version := document.version + 1 }

/- Replace what is between two positions. -/
def replace
    (document : Document)
    (start stop : Position)
    (inserted : List Char) :
    Checked Document :=
  document.replaceRange (document.offsetOf start)
    (document.offsetOf stop) inserted

end Document

end Bracketry
