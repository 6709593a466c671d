import Bracketry.Fault

/-
  Lengths of text, counted in line breaks and columns.

  A `Length` is the distance between two places of a text:
  the number of line breaks passed, and the number of UTF-8
  bytes after the last of them.  Lengths are ordered by
  lines first.  A position is the length of the text before
  it, so positions and lengths are one type.

  `a + b` is the exact sum; `Length.plus` is the sum within
  32 bits and refuses one that does not fit.

  Key definitions include:
    * `Length`
    * `Length.add`, `Length.plus`, `Length.total`
    * `Length.ofText`
    * `Length.between`, `Length.upTo`
    * `Range`
-/

------------------------------------------------------------
-- Lengths
------------------------------------------------------------

namespace Bracketry

/- A number of line breaks and the columns after them. -/
structure Length where
  lines : Nat
  columns : Nat
deriving DecidableEq, Repr, Inhabited

/- A place in a text, given by the text before it. -/
abbrev Position := Length

namespace Length

instance : Zero Length where
  zero := ⟨0, 0⟩

/- A line break on the right forgets the left columns. -/
def add
    (a b : Length) :
    Length :=
  if b.lines = 0 then ⟨a.lines, a.columns + b.columns⟩
  else ⟨a.lines + b.lines, b.columns⟩

instance : Add Length where
  add := add

theorem add_def
    (a b : Length) :
    a + b =
      if b.lines = 0 then
        ⟨a.lines, a.columns + b.columns⟩
      else ⟨a.lines + b.lines, b.columns⟩ :=
  rfl

theorem zero_def : (0 : Length) = ⟨0, 0⟩ := rfl

instance : LE Length where
  le a b :=
    a.lines < b.lines ∨
      a.lines = b.lines ∧ a.columns ≤ b.columns

instance : LT Length where
  lt a b :=
    a.lines < b.lines ∨
      a.lines = b.lines ∧ a.columns < b.columns

theorem le_def
    {a b : Length} :
    a ≤ b ↔
      a.lines < b.lines ∨
        a.lines = b.lines ∧ a.columns ≤ b.columns :=
  Iff.rfl

theorem lt_def
    {a b : Length} :
    a < b ↔
      a.lines < b.lines ∨
        a.lines = b.lines ∧ a.columns < b.columns :=
  Iff.rfl

instance (a b : Length) : Decidable (a ≤ b) :=
  decidable_of_iff _ le_def.symm

instance (a b : Length) : Decidable (a < b) :=
  decidable_of_iff _ lt_def.symm

/- Both counts fit into 32 bits. -/
def Fits
    (a : Length) :
    Prop :=
  a.lines < countLimit ∧ a.columns < countLimit

instance (a : Length) : Decidable a.Fits :=
  inferInstanceAs (Decidable (_ ∧ _))

/- The sum, refused when it does not fit. -/
def plus
    (a b : Length) :
    Checked Length :=
  if (a + b).Fits then .ok (a + b) else .error .overflow

/- The sum of a list, added from the left. -/
def total
    (items : List Length) :
    Checked Length :=
  items.foldlM plus 0

/- The length from `a` to a later `b`; zero otherwise. -/
def upTo
    (a b : Length) :
    Length :=
  if b ≤ a then 0
  else if a.lines = b.lines then
    ⟨0, b.columns - a.columns⟩
  else ⟨b.lines - a.lines, b.columns⟩

/-
  The length from one position to another.  On one line it
  is the column difference; a negative difference counts as
  none.
-/
def between
    (start stop : Position) :
    Length :=
  if start.lines = stop.lines then
    ⟨0, stop.columns - start.columns⟩
  else ⟨stop.lines - start.lines, stop.columns⟩

/- The order of two lengths. -/
def order
    (a b : Length) :
    Ordering :=
  if a < b then .lt else if a = b then .eq else .gt

end Length

end Bracketry

------------------------------------------------------------
-- Lengths of Text
------------------------------------------------------------

namespace Bracketry

namespace Length

/- The length of one character. -/
def ofChar
    (c : Char) :
    Length :=
  if c = '\n' then ⟨1, 0⟩ else ⟨0, c.utf8Size⟩

/-
  The length of a text.  A line feed ends a line, with or
  without a carriage return before it.
-/
def ofText : List Char → Length
  | [] => 0
  | c :: rest => ofChar c + ofText rest

/- A length written for a reader. -/
def render
    (a : Length) :
    String :=
  toString a.lines ++ ":" ++ toString a.columns

/- A position written for a reader. -/
def renderPosition
    (a : Position) :
    String :=
  "(" ++ toString a.lines ++ "," ++
    toString a.columns ++ ")"

end Length

end Bracketry

------------------------------------------------------------
-- Ranges
------------------------------------------------------------

namespace Bracketry

/- The places from `start` up to, without, `stop`. -/
structure Range where
  start : Position
  stop : Position
deriving DecidableEq, Repr, Inhabited

namespace Range

/- The position lies in the half-open range. -/
def contains
    (range : Range)
    (position : Position) :
    Bool :=
  range.start ≤ position ∧ position < range.stop

/- The position lies between the two ends. -/
def strictlyContains
    (range : Range)
    (position : Position) :
    Bool :=
  range.start < position ∧ position < range.stop

/- No position lies in the range. -/
def isEmpty
    (range : Range) :
    Bool :=
  range.stop ≤ range.start

/- A range written for a reader. -/
def render
    (range : Range) :
    String :=
  "[" ++ range.start.renderPosition ++ ".." ++
    range.stop.renderPosition ++ ")"

end Range

end Bracketry
