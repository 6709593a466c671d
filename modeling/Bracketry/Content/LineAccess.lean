import Bracketry.Content.Document

/-
  Access to content that is known line by line.

  How many lines there are, how long each is and what it
  reads decide the rest: the whole text has one line feed
  between two lines, and offsets and positions translate
  into each other by adding up the lines.

  Key definitions include:
    * `LineAccess`, `LineAccess.ofTexts`
    * `LineAccess.text`
    * `LineAccess.offsetOf`, `LineAccess.positionOf`
-/

------------------------------------------------------------
-- Access
------------------------------------------------------------

namespace Bracketry

/-
  The lines of some content, each without its break, and
  their lengths in bytes.
-/
structure LineAccess where
  lineCount : Nat
  columnCount : Nat → Nat
  line : Nat → List Char
  version : Nat
  tabSize : Nat := Document.defaultTabSize

namespace LineAccess

/- Access to given lines. -/
def ofTexts
    (texts : List (List Char))
    (version : Nat) :
    LineAccess :=
  { lineCount := wrapCount texts.length
    columnCount := fun line =>
      wrapCount (Text.byteSize (texts.getD line []))
    line := fun line => texts.getD line []
    version := version }

/- The number of the last line. -/
def lastLine
    (access : LineAccess) :
    Nat :=
  access.lineCount - 1

/- The whole text, with a line feed between two lines. -/
def text
    (access : LineAccess) :
    List Char :=
  (List.range access.lineCount).flatMap fun line =>
    (if 0 < line then ['\n'] else []) ++ access.line line

/- The bytes of the lines before a line, with their breaks. -/
def bytesBefore
    (access : LineAccess) :
    Nat → Nat
  | 0 => 0
  | line + 1 =>
      access.bytesBefore line + (access.columnCount line + 1)

/- The offset of a position, clamped to the content. -/
def offsetOf
    (access : LineAccess)
    (position : Position) :
    Nat :=
  let line := min position.lines access.lastLine
  access.bytesBefore line +
    min position.columns (access.columnCount line)

/-
  The position of what remains of an offset at a line, which
  has so many lines behind it.
-/
def positionFrom
    (access : LineAccess)
    (line remaining : Nat) :
    Nat → Position
  | 0 => ⟨line, min remaining (access.columnCount line)⟩
  | more + 1 =>
      let width := access.columnCount line
      if remaining ≤ width then ⟨line, remaining⟩
      else
        positionFrom access (line + 1)
          (remaining - (width + 1)) more

/- The position of an offset, clamped to the content. -/
def positionOf
    (access : LineAccess)
    (offset : Nat) :
    Position :=
  access.positionFrom 0 offset access.lastLine

/- The position behind the last character. -/
def endPosition
    (access : LineAccess) :
    Position :=
  ⟨access.lastLine, access.columnCount access.lastLine⟩

end LineAccess

end Bracketry
