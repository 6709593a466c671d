import Bracketry.Length
import Bracketry.Text.Utf8

/-
  Lines of a text with their line breaks.

  A line feed ends a line, and a carriage return right
  before it belongs to the break.  Offsets count bytes of
  the whole text, breaks included; columns count bytes of
  a line.  Both translations clamp to the text.

  Numbers of lines and columns are told as counts of 32
  bits.  `Line.offsetOf` and `Line.positionOf` are exact.
  `Line.countedOffset` and `Line.countedPosition` go through
  such counts, and agree with them while no count is cut.

  Key definitions include:
    * `Line`
    * `Line.split`, `Line.join`
    * `Line.offsetOf`, `Line.positionOf`
    * `Line.count`, `Line.width`
    * `Line.countedOffset`, `Line.countedPosition`
-/

------------------------------------------------------------
-- Lines
------------------------------------------------------------

namespace Bracketry

/- The text of a line and the line break behind it. -/
structure Line where
  text : List Char
  ending : List Char
deriving DecidableEq, Repr, Inhabited

namespace Line

/- The lines of a text; there is at least one. -/
def split : List Char → List Line
  | [] => [⟨[], []⟩]
  | '\n' :: rest => ⟨[], ['\n']⟩ :: split rest
  | '\r' :: '\n' :: rest => ⟨[], ['\r', '\n']⟩ :: split rest
  | c :: rest =>
      match split rest with
      | [] => [⟨[c], []⟩]
      | line :: lines =>
          ⟨c :: line.text, line.ending⟩ :: lines

/- The text of lines, breaks included. -/
def join
    (lines : List Line) :
    List Char :=
  lines.flatMap fun line => line.text ++ line.ending

/-
  Lines of given texts, each but the last with a line feed
  behind it.
-/
def ofTexts : List (List Char) → List Line
  | [] => []
  | [text] => [⟨text, []⟩]
  | text :: rest => ⟨text, ['\n']⟩ :: ofTexts rest

/- The number of columns of a line. -/
def columns
    (line : Line) :
    Nat :=
  Text.byteSize line.text

/- The number of bytes of a line with its break. -/
def size
    (line : Line) :
    Nat :=
  Text.byteSize line.text + Text.byteSize line.ending

end Line

end Bracketry

------------------------------------------------------------
-- Offsets and Positions
------------------------------------------------------------

namespace Bracketry

namespace Line

/-
  The offset of a column on a line, counted from the first
  of the lines.  A line behind the last counts as the last,
  a column behind the end of a line as its end.
-/
def offsetFrom
    (line column : Nat) :
    List Line → Nat
  | [] => 0
  | [last] => min column last.columns
  | first :: rest =>
      if line = 0 then min column first.columns
      else first.size + offsetFrom (line - 1) column rest

/- The offset of a position. -/
def offsetOf
    (lines : List Line)
    (position : Position) :
    Nat :=
  offsetFrom position.lines position.columns lines

/-
  The position of an offset, where the first of the lines
  has the given number.  Inside a break it is the end of the
  line.
-/
def positionFrom
    (number offset : Nat) :
    List Line → Position
  | [] => ⟨number, 0⟩
  | [last] => ⟨number, min offset last.columns⟩
  | first :: rest =>
      if offset < first.size then
        ⟨number, min offset first.columns⟩
      else positionFrom (number + 1) (offset - first.size) rest

/- The position of an offset. -/
def positionOf
    (lines : List Line)
    (offset : Nat) :
    Position :=
  positionFrom 0 offset lines

/- The end of the last line. -/
def endPosition
    (lines : List Line) :
    Position :=
  ⟨lines.length - 1,
    match lines.getLast? with
    | some line => line.columns
    | none => 0⟩

/- Splitting loses nothing. -/
theorem join_split
    (text : List Char) :
    join (split text) = text := by
  fun_induction split text with
  | case1 => rfl
  | case2 rest ih =>
      simpa [join] using ih
  | case3 rest ih =>
      simpa [join] using ih
  | case4 c rest _ _ hNil ih =>
      rw [hNil] at ih
      simp [join, ← ih]
  | case5 c rest _ _ line lines hCons ih =>
      rw [hCons] at ih
      simp only [join, List.flatMap_cons] at ih ⊢
      simpa using ih

end Line

end Bracketry

------------------------------------------------------------
-- Counts of Lines and Columns
------------------------------------------------------------

namespace Bracketry

namespace Line

/- The number of lines, as a count. -/
def count
    (lines : List Line) :
    Nat :=
  wrapCount lines.length

/- The number of the last line that is counted. -/
def last
    (lines : List Line) :
    Nat :=
  count lines - 1

/- The text of a line, empty behind the last. -/
def textAt
    (lines : List Line)
    (number : Nat) :
    List Char :=
  match lines[number]? with
  | some line => line.text
  | none => []

/- The number of columns of a line, as a count. -/
def width
    (lines : List Line)
    (number : Nat) :
    Nat :=
  wrapCount (Text.byteSize (textAt lines number))

/- The offset of a position, on a line that is counted. -/
def countedOffset
    (lines : List Line)
    (position : Position) :
    Nat :=
  offsetOf lines
    ⟨min position.lines (last lines), position.columns⟩

/-
  The position of an offset, as counts.  An offset whose line
  number is cut down lies behind the line with the number
  that is left, and counts as the end of that line.
-/
def countedPosition
    (lines : List Line)
    (offset : Nat) :
    Position :=
  let place := positionOf lines offset
  let number := wrapCount place.lines
  let columns :=
    if number = place.lines then place.columns
    else Text.byteSize (textAt lines number)
  ⟨number, wrapCount columns⟩

/- The end of the last line that is counted. -/
def countedEnd
    (lines : List Line) :
    Position :=
  ⟨last lines, width lines (last lines)⟩

end Line

end Bracketry
