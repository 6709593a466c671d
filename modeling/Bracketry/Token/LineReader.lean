import Bracketry.Content.Snapshot
import Bracketry.Token.Table

/-
  Tokens read line by line from classified content.

  Only spans of code are searched for brackets.  A text
  token ends before a bracket, at the end of the content, or
  when enough was scanned: a line break counts as much as a
  number of columns, and a token ends early behind a line
  break, so that tokens of two versions of a text meet again
  soon behind a change.

  Key definitions include:
    * `LineSource`
    * `LineReader`
    * `LineReader.ofPosition`
    * `LineReader.read`
-/

------------------------------------------------------------
-- What Is Read
------------------------------------------------------------

namespace Bracketry

/- Content, its classification and the token table. -/
structure LineSource where
  content : Content
  spans : SpanTable
  table : TokenTable
deriving Inhabited

namespace LineSource

/- The number of the last line. -/
def lastLine
    (source : LineSource) :
    Nat :=
  max source.content.lineCount 1 - 1

/- The length of the content. -/
def length
    (source : LineSource) :
    Length :=
  ⟨source.lastLine,
    source.content.columnCount source.lastLine⟩

end LineSource

/-
  A place in the content.  `spans` holds the spans of the
  line from the current one on, once the line was entered.
  `pending` is a bracket that was found behind a text token
  and not returned yet.
-/
structure LineReader where
  line : Nat
  column : Nat
  spans : Option (List Span)
  pending : Option Token
deriving DecidableEq, Inhabited

namespace LineReader

/- The start of the content. -/
def start : LineReader :=
  ⟨0, 0, none, none⟩

/- A place, with nothing read from its line. -/
def ofPosition
    (position : Position) :
    LineReader :=
  ⟨position.lines, position.columns, none, none⟩

/- How many columns a line break counts for. -/
def lineBreakWeight : Nat := 33

/- A text token ends behind a line break beyond this. -/
def softLimit : Nat := 1000

/- A text token ends behind a span beyond this. -/
def hardLimit : Nat := 1500

end LineReader

end Bracketry

------------------------------------------------------------
-- Brackets in a Span
------------------------------------------------------------

namespace Bracketry

namespace LineReader

/-
  The first bracket from one column up to another, and how
  many columns lie in front of it.  Word boundaries look at
  the line before the first column, not behind the last.
-/
def findBracket?
    (table : TokenTable)
    (line : List Char)
    (start stop : Nat) :
    Option (Nat × Token) := do
  let (searched, _) ← Text.splitAt? stop line
  let (before, rest) ← Text.splitAt? start searched
  let match_ ←
    Pattern.find? table.literals before.getLast? rest
  let token ← table.tokenOfMatch? match_.found
  return (Text.byteSize match_.skipped, token)

/- How the scan of the spans of one line ends. -/
inductive SpanScan where
  /- A bracket stands at a column of the first span left. -/
  | bracket
    (column : Nat)
    (token : Token)
    (spans : List Span)
  /- Too much was scanned. -/
  | full (column : Nat) (spans : List Span)
  /- The line ended. -/
  | lineEnd (column scanned : Nat)

/- The number of columns of a line, as a count. -/
def width
    (line : List Char) :
    Nat :=
  wrapCount (Text.byteSize line)

/- Scan the spans of a line from a column on. -/
def scanSpans
    (table : TokenTable)
    (line : List Char)
    (column scanned : Nat) :
    List Span → Checked SpanScan
  | [] => .ok (.lineEnd column scanned)
  | span :: rest =>
      if rest.head?.any (·.kind = span.kind) then
        scanSpans table line column scanned rest
      else
        let stop :=
          match rest.head? with
          | some next => min next.column (width line)
          | none => width line
        let found :=
          if span.kind = .other ∧ column < stop then
            findBracket? table line column stop
          else none
        match found with
        | some (skipped, token) =>
            .ok (.bracket (column + skipped) token
              (span :: rest))
        | none => do
            let scanned ←
              checkedSum scanned (stop - column)
            let column := max column stop
            if hardLimit < scanned then
              return .full column rest
            else scanSpans table line column scanned rest

end LineReader

end Bracketry

------------------------------------------------------------
-- Reading
------------------------------------------------------------

namespace Bracketry

namespace LineReader

/- The text from a place up to where a reader stands. -/
def textSince
    (start : Position)
    (reader : LineReader) :
    Checked (Option Token × LineReader) :=
  let length :=
    Length.between start ⟨reader.line, reader.column⟩
  if length = 0 then .error .emptyToken
  else .ok (some (.text length), reader)

/-
  Scan from a column of a line to the end of a token that
  began at `start`.  `more` is the number of lines behind.
-/
def scan
    (source : LineSource)
    (start : Position)
    (line column scanned : Nat)
    (spans : List Span)
    (more : Nat) :
    Checked (Option Token × LineReader) :=
  match more,
      scanSpans source.table (source.content.line line)
        column scanned spans with
  | _, .error fault => .error fault
  | _, .ok (.bracket column token spans) =>
      if start = ⟨line, column⟩ then
        .ok (some token,
          ⟨line, column + token.length.columns,
            some spans, none⟩)
      else
        textSince start
          ⟨line, column, some spans, some token⟩
  | _, .ok (.full column spans) =>
      textSince start ⟨line, column, some spans, none⟩
  | 0, .ok (.lineEnd column _) =>
      textSince start ⟨line, column, some [], none⟩
  | more + 1, .ok (.lineEnd _ scanned) => do
      let spans := source.spans.onLine (line + 1)
      let scanned ← checkedSum scanned lineBreakWeight
      if softLimit < scanned then
        textSince start ⟨line + 1, 0, some spans, none⟩
      else
        scan source start (line + 1) 0 scanned spans more

/- The spans from the one that a column lies in. -/
def spansAt
    (source : LineSource)
    (line column : Nat) :
    List Span :=
  let spans := source.spans.onLine line
  spans.drop (Span.indexAt spans column)

/- The next token; none at the end of the content. -/
def read
    (source : LineSource)
    (reader : LineReader) :
    Checked (Option Token × LineReader) :=
  match reader.pending with
  | some token =>
      .ok (some token,
        { reader with
          column := reader.column + token.length.columns
          pending := none })
  | none =>
      let place : Position := ⟨reader.line, reader.column⟩
      if source.length ≤ place then .ok (none, reader)
      else
        let spans :=
          reader.spans.getD
            (spansAt source reader.line reader.column)
        scan source place reader.line reader.column 0 spans
          (source.lastLine - reader.line)

end LineReader

end Bracketry
