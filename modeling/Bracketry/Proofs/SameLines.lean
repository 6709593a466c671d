import Bracketry.Index.Flush
import Bracketry.Proofs.Recalling

/-
  Contents that have the same lines.

  A parse sees of its content only the lines, and the text if
  nothing is classified.  Readers of two contents with the
  same lines read the same tokens, parsers over them take the
  same steps, and so both contents have the same tree, or
  fail alike.

  Key definitions include:
    * `LineSource.IsLike`, `TokenStream.IsLike`
    * `Parser.IsLike`
    * `Checked.SameAnd`

  Main declarations:
    * `TokenStream.IsLike.read`, `TokenStream.IsLike.peek`
    * `Parser.IsLike.parseItems`
    * `Index.parse_congr`
-/

------------------------------------------------------------
-- Readers
------------------------------------------------------------

namespace Bracketry

namespace Content

variable {content other : Content}

theorem line_congr
    (h : content.lines = other.lines) :
    content.line = other.line := by
  funext number
  rw [line, line, h]

theorem columnCount_congr
    (h : content.lines = other.lines) :
    content.columnCount = other.columnCount := by
  funext number
  rw [columnCount, columnCount, h]

end Content

/- Sources with the same lines, spans and table. -/
structure LineSource.IsLike
    (source other : LineSource) :
    Prop where
  lines : source.content.lines = other.content.lines
  spans : source.spans = other.spans
  table : source.table = other.table

namespace LineSource

open LineReader

variable {source other : LineSource}

theorem IsLike.lastLine_eq
    (h : source.IsLike other) :
    source.lastLine = other.lastLine := by
  rw [lastLine, lastLine, Content.lineCount,
    Content.lineCount, h.lines]

theorem IsLike.length_eq
    (h : source.IsLike other) :
    source.length = other.length := by
  rw [LineSource.length, LineSource.length, h.lastLine_eq,
    Content.columnCount_congr h.lines]

theorem IsLike.scan_eq
    (h : source.IsLike other)
    (start : Position)
    (line column scanned : Nat)
    (spans : List Span)
    (more : Nat) :
    scan source start line column scanned spans more =
      scan other start line column scanned spans more := by
  induction more generalizing line column scanned spans with
  | zero =>
      unfold scan
      rw [Content.line_congr h.lines, h.table]
      rcases scanSpans other.table (other.content.line line)
        column scanned spans with
        _ | (_ | _ | _) <;> rfl
  | succ more ih =>
      unfold scan
      rw [Content.line_congr h.lines, h.table]
      rcases scanSpans other.table (other.content.line line)
          column scanned spans with
        _ | (_ | _ | ⟨column, scanned⟩)
      · rfl
      · rfl
      · rfl
      · simp only [h.spans, ih]

theorem IsLike.read_eq
    (h : source.IsLike other)
    (reader : LineReader) :
    reader.read source = reader.read other := by
  simp only [LineReader.read, spansAt, h.lastLine_eq,
    h.length_eq, h.spans, h.scan_eq]

end LineSource

end Bracketry

------------------------------------------------------------
-- Streams
------------------------------------------------------------

namespace Bracketry

namespace Checked

variable {α β σ τ : Type}

/- The same answer, with states that are alike. -/
def SameAnd
    (IsLike : σ → σ → Prop)
    (a b : α × σ) :
    Prop :=
  a.1 = b.1 ∧ IsLike a.2 b.2

variable {IsLike : σ → σ → Prop} {LikeNext : τ → τ → Prop}

/- Steps that agree lead to steps that agree. -/
theorem Agree.andThen
    {a b : Checked (α × σ)}
    {f g : α × σ → Checked τ}
    (h : Agree (SameAnd IsLike) a b)
    (hNext :
      ∀ answer state other,
        IsLike state other →
          Agree LikeNext (f (answer, state))
            (g (answer, other))) :
    Agree LikeNext (a >>= f) (b >>= g) := by
  refine h.bind ?_
  rintro ⟨answer, state⟩ ⟨_, other⟩ _ _ ⟨rfl, hLike⟩
  exact hNext answer state other hLike

/- The same computation in both, and then steps that agree. -/
theorem Agree.after
    {a : Checked α}
    {f g : α → Checked τ}
    (hNext : ∀ x, Agree LikeNext (f x) (g x)) :
    Agree LikeNext (a >>= f) (a >>= g) := by
  refine (Agree.refl a).bind ?_
  rintro x _ _ _ rfl
  exact hNext x

/- With the same results, both are one computation. -/
theorem Agree.eq
    {a b : Checked α}
    (h : Agree Eq a b) :
    a = b := by
  rcases h with ⟨_, rfl, rfl⟩ | ⟨_, _, rfl, rfl, rfl⟩ <;> rfl

end Checked

/-
  Streams of classified lines that differ only in what they
  are read from.
-/
inductive TokenStream.IsLike :
    TokenStream → TokenStream → Prop where
  | lines
    {source other : LineSource}
    (hSource : source.IsLike other)
    (reader : LineReader)
    (peeked : Option (Option Token))
    (offset : Position) :
    IsLike ⟨.lines source reader peeked, offset⟩
      ⟨.lines other reader peeked, offset⟩

namespace TokenStream

open Checked

variable {stream other : TokenStream}

theorem isLike_ofLines
    {source other : LineSource}
    (h : source.IsLike other) :
    (ofLines source).IsLike (ofLines other) :=
  .lines h LineReader.start none 0

theorem IsLike.offset_eq
    (h : stream.IsLike other) :
    stream.offset = other.offset := by
  cases h
  rfl

theorem IsLike.bound_eq
    (h : stream.IsLike other) :
    stream.bound = other.bound := by
  rcases h with ⟨hSource, reader, peeked, offset⟩
  simp only [TokenStream.bound, hSource.lines]

theorem agree_passed
    {source otherSource : LineSource}
    (hSource : source.IsLike otherSource)
    (hOffset : stream.offset = other.offset)
    (reader : LineReader)
    (token : Token) :
    Agree (SameAnd IsLike)
      (stream.passed (.lines source reader none) token)
      (other.passed (.lines otherSource reader none)
        token) := by
  unfold TokenStream.passed
  rw [hOffset]
  exact .after fun offset =>
    .ok ⟨rfl, .lines hSource reader none offset⟩

theorem IsLike.read
    (h : stream.IsLike other) :
    Agree (SameAnd IsLike) stream.read other.read := by
  rcases h with ⟨hSource, reader, peeked, offset⟩
  cases peeked with
  | some token =>
      cases token with
      | none => exact .ok ⟨rfl, .lines hSource _ _ _⟩
      | some token =>
          exact agree_passed hSource rfl reader token
  | none =>
      simp only [TokenStream.read, hSource.read_eq]
      refine .after fun ⟨token, reader⟩ => ?_
      cases token with
      | none => exact .ok ⟨rfl, .lines hSource _ _ _⟩
      | some token =>
          exact agree_passed hSource rfl reader token

theorem IsLike.peek
    (h : stream.IsLike other) :
    Agree (SameAnd IsLike) stream.peek other.peek := by
  rcases h with ⟨hSource, reader, peeked, offset⟩
  cases peeked with
  | some token => exact .ok ⟨rfl, .lines hSource _ _ _⟩
  | none =>
      simp only [TokenStream.peek, hSource.read_eq]
      exact .after fun _ =>
        .ok ⟨rfl, .lines hSource _ _ _⟩

theorem IsLike.skip
    (h : stream.IsLike other)
    (length : Length) :
    Agree IsLike (stream.skip length)
      (other.skip length) := by
  rcases h with ⟨hSource, reader, peeked, offset⟩
  exact .after fun _ => .ok (.lines hSource _ _ _)

end TokenStream

end Bracketry

------------------------------------------------------------
-- Parsers
------------------------------------------------------------

namespace Bracketry

/- Parsers that differ only in what their streams read. -/
structure Parser.IsLike
    (parser other : Parser) :
    Prop where
  stream : parser.stream.IsLike other.stream
  old : parser.old = other.old
  map : parser.map = other.map
  stats : parser.stats = other.stats

namespace Parser

open Checked

variable {parser other : Parser}

theorem IsLike.withStream
    {stream otherStream : TokenStream}
    (h : parser.IsLike other)
    (hStream : stream.IsLike otherStream) :
    IsLike { parser with stream := stream }
      { other with stream := otherStream } :=
  { h with stream := hStream }

theorem IsLike.peek
    (h : parser.IsLike other) :
    Agree (SameAnd IsLike) parser.peek other.peek :=
  h.stream.peek.andThen fun _ _ _ hStream =>
    .ok ⟨rfl, h.withStream hStream⟩

theorem IsLike.read
    (h : parser.IsLike other) :
    Agree (SameAnd IsLike) parser.read other.read :=
  h.stream.read.andThen fun _ _ _ hStream =>
    .ok ⟨rfl, h.withStream hStream⟩

theorem IsLike.countConstructed
    (h : parser.IsLike other) :
    IsLike parser.countConstructed other.countConstructed :=
  { h with
    stats := by
      simp only [Parser.countConstructed, h.stats] }

theorem IsLike.countReused
    (h : parser.IsLike other) :
    IsLike parser.countReused other.countReused :=
  { h with
    stats := by
      simp only [Parser.countReused, h.stats] }

theorem IsLike.joinItems_eq
    (h : parser.IsLike other)
    (items : List Node) :
    parser.joinItems items = other.joinItems items := by
  rw [joinItems, joinItems, h.old]

theorem IsLike.reuse?
    (h : parser.IsLike other)
    (opened : IdSet) :
    Agree (SameAnd IsLike) (parser.reuse? opened)
      (other.reuse? opened) := by
  unfold Parser.reuse?
  rw [h.old, h.map, h.stream.offset_eq]
  cases other.old with
  | none => exact .ok ⟨rfl, h⟩
  | some reader =>
      dsimp only
      rcases other.map.distanceToNext? other.stream.offset
        with ⟨room, map⟩
      dsimp only
      rcases map.isRightAfterEdit other.stream.offset
        with ⟨isBehindEdit, map⟩
      dsimp only
      split
      · exact .ok ⟨rfl, h.stream, rfl, rfl, h.stats⟩
      · refine .after fun (node, reader) => ?_
        cases node with
        | none => exact .ok ⟨rfl, h.stream, rfl, rfl, h.stats⟩
        | some node =>
            refine (h.stream.skip node.length).bind ?_
            intro stream otherStream _ _ hStream
            exact .ok ⟨rfl, IsLike.countReused
              ⟨hStream, rfl, rfl, h.stats⟩⟩

theorem IsLike.readClosing
    (h : parser.IsLike other)
    (opening : Bracket)
    (id : Option Nat) :
    Agree (SameAnd IsLike) (parser.readClosing opening id)
      (other.readClosing opening id) := by
  refine h.peek.andThen fun next parser other h => ?_
  cases next with
  | none => exact .ok ⟨rfl, h⟩
  | some token =>
      cases token with
      | text length => exact .ok ⟨rfl, h⟩
      | bracket leaf leafId =>
          dsimp only
          split
          · exact h.read.andThen fun _ _ _ h => .ok ⟨rfl, h⟩
          · exact .ok ⟨rfl, h⟩

/-
  Parsers that are alike make the same items and stay alike.
  The induction is on the bound, for any two such parsers.
-/
theorem IsLike.parseItems
    (h : parser.IsLike other)
    (bound : Nat)
    (opened : IdSet)
    (level : Nat) :
    Agree (SameAnd IsLike)
      (parser.parseItems bound opened level)
      (other.parseItems bound opened level) := by
  induction bound generalizing parser other opened level with
  | zero => exact .ok ⟨rfl, h⟩
  | succ bound ih =>
      -- all cases go on alike behind the item they have made
      have hRest :
          ∀ (node : Node) {parser other : Parser},
            parser.IsLike other →
              Agree (SameAnd IsLike)
                (parser.parseItems bound opened level >>=
                  fun rest => pure (
                    if node.isEmptyList then rest.1
                    else node :: rest.1,
                    rest.2))
                (other.parseItems bound opened level >>=
                  fun rest => pure (
                    if node.isEmptyList then rest.1
                    else node :: rest.1,
                    rest.2)) :=
        fun _ _ _ h => (ih h opened level).andThen
          fun _ _ _ h => .ok ⟨rfl, h⟩
      refine (h.reuse? opened).andThen
        fun reused parser other h => ?_
      cases reused with
      | some node => exact hRest node h
      | none =>
          refine h.peek.andThen fun next parser other h => ?_
          dsimp only
          split
          · exact .ok ⟨rfl, h⟩
          · refine h.countConstructed.read.andThen
              fun token parser other h => ?_
            cases token with
            | none => exact hRest _ h
            | some token =>
                cases token with
                | text length => exact hRest _ h
                | bracket leaf id =>
                    dsimp only
                    split
                    · exact hRest _ h
                    · split
                      · exact hRest _ h
                      · -- the inside, the closing bracket, the rest
                        refine (ih h _ _).andThen
                          fun items parser other h => ?_
                        dsimp only
                        rw [h.joinItems_eq]
                        refine .after fun child => ?_
                        refine (h.readClosing leaf id).andThen
                          fun closing parser other h => ?_
                        exact .after fun pair => hRest pair h

theorem IsLike.itemBound_eq
    (h : parser.IsLike other) :
    parser.itemBound = other.itemBound := by
  rw [itemBound, itemBound, h.stream.bound_eq, h.old]

end Parser

end Bracketry

------------------------------------------------------------
-- Trees
------------------------------------------------------------

namespace Bracketry

open Checked

/- Streams that are alike have the same tree. -/
theorem parseDocument_congr
    {stream other : TokenStream}
    (h : stream.IsLike other)
    (edits : List Edit)
    (old : Option Node) :
    parseDocument stream edits old =
      parseDocument other edits old := by
  unfold parseDocument
  refine Agree.eq (.after fun map => ?_)
  let parser (stream : TokenStream) : Parser :=
    { stream := stream
      old := old.map NodeReader.ofRoot
      map := map
      stats := ParseStats.none }
  have hParser :
      (parser stream).IsLike (parser other) :=
    ⟨h, rfl, rfl, rfl⟩
  change Agree Eq
    ((parser stream).parseItems (parser stream).itemBound _ _
      >>= _)
    ((parser other).parseItems (parser other).itemBound _ _
      >>= _)
  rw [hParser.itemBound_eq]
  refine (hParser.parseItems _ _ _).andThen
    fun items parser other h => ?_
  dsimp only
  rw [h.joinItems_eq, h.stats]
  exact .refl _

namespace Index

/- The tree of content depends on its lines and its text. -/
theorem parse_congr
    {content other : Content}
    (h : content.lines = other.lines)
    (hText : content.text = other.text)
    (table : TokenTable)
    (spans : Option SpanTable)
    (job : ParseJob) :
    parse table content spans job =
      parse table other spans job := by
  have hSource (spans : SpanTable) :
      LineSource.IsLike ⟨content, spans, table⟩
        ⟨other, spans, table⟩ :=
    ⟨h, rfl, rfl⟩
  unfold parse
  split
  · rw [hText]
  · exact parseDocument_congr
      (TokenStream.isLike_ofLines (hSource _)) _ _

end Index

end Bracketry
