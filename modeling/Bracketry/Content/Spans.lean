/-
  Classification of the columns of lines.

  The spans of a line are sorted by column.  A span reaches
  up to the next one or to the end of the line.  Only code
  is searched for brackets.  A line without spans is code.

  Key definitions include:
    * `SpanKind`, `Span`
    * `SpanTable`
    * `SpanTable.onLine`
    * `SpanTable.mark`
    * `bisect`
-/

------------------------------------------------------------
-- Bisection
------------------------------------------------------------

namespace Bracketry

/-
  Narrow a window that starts at `base` and holds `size`
  entries, down to one entry.
-/
def bisectFrom
    {α : Type}
    (isBefore : α → Bool)
    (entries : List α) :
    Nat → Nat → Nat → Nat
  | 0, base, _ => base
  | fuel + 1, base, size =>
      if size ≤ 1 then base
      else
        let half := size / 2
        let middle := base + half
        let base :=
          if entries[middle]?.any isBefore then middle
          else base
        bisectFrom isBefore entries fuel base (size - half)

/-
  The number of leading entries that a test accepts, found
  by halving.  The test must accept a first part of the list
  and refuse the rest; otherwise the number depends on the
  entries that the halving meets.
-/
def bisect
    {α : Type}
    (isBefore : α → Bool)
    (entries : List α) :
    Nat :=
  let base :=
    bisectFrom isBefore entries entries.length 0
      entries.length
  if entries[base]?.any isBefore then base + 1 else base

end Bracketry

------------------------------------------------------------
-- Spans
------------------------------------------------------------

namespace Bracketry

/- What a stretch of a line is. -/
inductive SpanKind where
  /- Code, which may hold brackets. -/
  | other
  | comment
  | string
  | regexp
deriving DecidableEq, Repr, Inhabited

/- The kind of a line from a column on. -/
structure Span where
  column : Nat
  kind : SpanKind
deriving DecidableEq, Repr, Inhabited

namespace Span

/- The spans of a line that is code. -/
def plain : List Span :=
  [⟨0, .other⟩]

/- The index of the span that a column lies in. -/
def indexAt
    (spans : List Span)
    (column : Nat) :
    Nat :=
  bisect (fun span => span.column ≤ column) spans - 1

/- The kind of a column; code before the first span. -/
def kindAt
    (spans : List Span)
    (column : Nat) :
    SpanKind :=
  match
    (spans.takeWhile (·.column ≤ column)).getLast? with
  | some span => span.kind
  | none => .other

/-
  Give the columns from `start` up to `stop` a kind.  What
  was there before goes on at `stop`.
-/
def mark
    (start stop : Nat)
    (kind : SpanKind)
    (spans : List Span) :
    List Span :=
  let kept :=
    spans.filter fun span =>
      span.column < start || stop < span.column
  let place := bisect (fun span => span.column < start) kept
  let before := kept.take place
  let after := kept.drop place
  let resumed : List Span :=
    if after.head?.any (·.column = stop) then []
    else [⟨stop, kindAt spans stop⟩]
  before ++ ⟨start, kind⟩ :: resumed ++ after

end Span

end Bracketry

------------------------------------------------------------
-- Span Tables
------------------------------------------------------------

namespace Bracketry

/- The spans of the lines; behind the last line is code. -/
structure SpanTable where
  lines : List (List Span)
deriving DecidableEq, Repr, Inhabited

namespace SpanTable

/- All lines are code. -/
def plain : SpanTable :=
  ⟨[]⟩

/- The spans of a line. -/
def onLine
    (table : SpanTable)
    (line : Nat) :
    List Span :=
  match table.lines[line]? with
  | some (span :: rest) => span :: rest
  | _ => Span.plain

/- Mark columns of one of the lines. -/
def markLine
    (start stop : Nat)
    (kind : SpanKind) :
    Nat → List (List Span) → List (List Span)
  | 0, [] => [Span.mark start stop kind Span.plain]
  | 0, [] :: rest =>
      Span.mark start stop kind Span.plain :: rest
  | 0, spans :: rest =>
      Span.mark start stop kind spans :: rest
  | line + 1, [] => [] :: markLine start stop kind line []
  | line + 1, spans :: rest =>
      spans :: markLine start stop kind line rest

/- Give columns of a line a kind. -/
def mark
    (table : SpanTable)
    (line start stop : Nat)
    (kind : SpanKind) :
    SpanTable :=
  ⟨markLine start stop kind line table.lines⟩

end SpanTable

end Bracketry
