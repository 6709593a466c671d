import Bracketry.Proofs.WellFormed

/-
  The parts of a parse keep their contracts.

  A parse reads tokens, walks an old tree and joins what it
  finds.  Wherever it skips to, a line reader finds a token
  that is not empty or the end; what it takes from an old
  tree is proper; and what it joins has the height that it
  needs.  So besides sums that are too large, the only fault
  there may be is that an old tree is asked for an earlier
  place.

  Key definitions include:
    * `LineReader.HasSpans`
    * `TokenStream.IsReady`, `NodeReader.IsReady`
    * `Parser.IsReady`

  Main declarations:
    * `LineReader.ends_read`
    * `Parser.ends_parseItems`
    * `ends_parseDocument`
-/

------------------------------------------------------------
-- Reading Lines
------------------------------------------------------------

namespace Bracketry

open Checked

namespace LineReader

variable {MayFail : Fault → Prop}
variable {source : LineSource} {line : List Char}

/- Spans are left, or the line was read to its end. -/
def HasSpans
    (source : LineSource)
    (reader : LineReader) :
    Prop :=
  ∀ spans, reader.spans = some spans →
    spans ≠ [] ∨
      source.content.columnCount reader.line ≤ reader.column

/- What a reader knows of its line, or else looks up. -/
theorem HasSpans.getD
    {reader : LineReader}
    (h : reader.HasSpans source) :
    reader.spans.getD
          (spansAt source reader.line reader.column) ≠ [] ∨
      source.content.columnCount reader.line ≤
        reader.column := by
  cases hSpans : reader.spans with
  | none => exact .inl (spansAt_ne_nil _ _)
  | some spans => exact h spans hSpans

/- How far a scan from a column on has come at least. -/
def Advances
    (line : List Char)
    (column : Nat) :
    SpanScan → Prop
  | .bracket later _ spans => column ≤ later ∧ spans ≠ []
  | .full later spans =>
      column < later ∧
        (spans ≠ [] ∨ width line ≤ later)
  | .lineEnd later _ => column ≤ later ∧ width line ≤ later

theorem Advances.ofLater
    {column later : Nat}
    {result : SpanScan}
    (hLater : column ≤ later)
    (h : Advances line later result) :
    Advances line column result := by
  cases result with
  | bracket stop token spans =>
      exact ⟨Nat.le_trans hLater h.1, h.2⟩
  | full stop spans =>
      exact ⟨Nat.lt_of_le_of_lt hLater h.1, h.2⟩
  | lineEnd stop scanned =>
      exact ⟨Nat.le_trans hLater h.1, h.2⟩

/-
  Wherever a scan begins, also behind the end of the line,
  it is not full before it has advanced.
-/
theorem ends_scanSpans
    (hSum : MayFail .overflow)
    (table : TokenTable)
    {column scanned : Nat}
    {spans : List Span}
    (hScanned : scanned ≤ hardLimit)
    (hSpans : spans ≠ [] ∨ width line ≤ column) :
    Ends MayFail (Advances line column)
      (scanSpans table line column scanned spans) := by
  induction spans generalizing column scanned with
  | nil => exact ⟨Nat.le_refl _, hSpans.resolve_left (by simp)⟩
  | cons span rest ih =>
      rw [scanSpans_cons]
      by_cases hMerged :
          rest.head?.any (·.kind = span.kind) = true
      · rw [if_pos hMerged]
        refine ih hScanned (.inl ?_)
        rintro rfl
        cases hMerged
      · rw [if_neg hMerged]
        have hRest :
            rest ≠ [] ∨
              width line ≤
                max column (spanStop line rest) := by
          cases rest with
          | nil => exact .inr (Nat.le_max_right _ _)
          | cons next others => exact .inl (by simp)
        split
        · exact ⟨Nat.le_add_right _ _, by simp⟩
        · refine (ends_checkedSum hSum _ _).bind ?_
          rintro _ rfl
          dsimp only
          split_ifs with hFull
          · exact ⟨by omega, hRest⟩
          · exact (ih (by omega) hRest).mono fun _ =>
              .ofLater (Nat.le_max_left _ _)

/- What lies between two places is a text token. -/
theorem ends_textSince
    {start : Position}
    {reader : LineReader}
    (hLess : start < reader.place)
    (hSpans : reader.HasSpans source) :
    Ends MayFail (fun result => result.2.HasSpans source)
      (textSince start reader) := by
  rcases textSince_spec hLess with ⟨token, hText, _⟩
  rw [hText]
  exact hSpans

/-
  A scan from a place in front of the end reads a token.
  Before the first line break it has advanced on its line.
-/
theorem ends_scan
    (hSum : MayFail .overflow)
    {start : Position}
    {line column scanned more : Nat}
    {spans : List Span}
    (hEnd : start < source.length)
    (hStart : start ≤ ⟨line, column⟩)
    (hMore : line + more = source.lastLine)
    (hScanned : scanned ≤ hardLimit)
    (hSpans :
      spans ≠ [] ∨
        source.content.columnCount line ≤ column) :
    Ends MayFail (fun result => result.2.HasSpans source)
      (scan source start line column scanned spans more) := by
  have hScans :
      ∀ {line column scanned spans result},
        scanned ≤ hardLimit →
          spans ≠ [] ∨ source.content.columnCount line ≤ column →
            scanSpans source.table (source.content.line line)
                column scanned spans = result →
              Ends MayFail
                (Advances (source.content.line line) column)
                result := by
    rintro line column scanned spans _ hScanned hSpans rfl
    exact ends_scanSpans hSum source.table hScanned hSpans
  fun_induction scan source start line column scanned spans
    more with
  | case1 more line column scanned spans fault hScan =>
      have hFound := hScans hScanned hSpans hScan
      exact hFound
  | case2 more line column scanned spans later token left
      hScan hHere =>
      have hFound := hScans hScanned hSpans hScan
      rintro _ ⟨⟩
      exact .inl hFound.2
  | case3 more line column scanned spans later token left
      hScan hHere =>
      have hFound := hScans hScanned hSpans hScan
      have hLess : start < ⟨line, later⟩ :=
        lt_of_le_of_ne
          (hStart.trans (.inr ⟨rfl, hFound.1⟩)) hHere
      refine ends_textSince hLess ?_
      rintro _ ⟨⟩
      exact .inl hFound.2
  | case4 more line column scanned spans later left hScan =>
      have hFound := hScans hScanned hSpans hScan
      have hLess : start < ⟨line, later⟩ :=
        lt_of_le_of_lt hStart (.inr ⟨rfl, hFound.1⟩)
      refine ends_textSince hLess ?_
      rintro _ ⟨⟩
      exact hFound.2
  | case5 line column scanned spans later total hScan =>
      have hFound := hScans hScanned hSpans hScan
      -- The last line is read to its end.
      have hLess : start < ⟨line, later⟩ := by
        refine lt_of_lt_of_le hEnd (.inr ⟨hMore.symm, ?_⟩)
        rw [LineSource.length, ← hMore]
        exact hFound.2
      refine ends_textSince hLess ?_
      rintro _ ⟨⟩
      exact .inr hFound.2
  | case6 line column scanned spans more later total hScan
      next ih =>
      have hLess : start < ⟨line + 1, 0⟩ :=
        lt_of_le_of_lt hStart (.inl (Nat.lt_succ_self line))
      have hNext : next ≠ [] :=
        onLine_ne_nil source.spans (line + 1)
      refine (ends_checkedSum hSum _ _).bind fun sum _ => ?_
      split_ifs with hSoft
      · refine ends_textSince hLess ?_
        rintro _ ⟨⟩
        exact .inl hNext
      · refine ih sum hLess.le (by omega) ?_
          (.inl hNext)
        unfold softLimit at hSoft
        unfold hardLimit
        omega

/- A reader reads a token or finds the end. -/
theorem ends_read
    (hSum : MayFail .overflow)
    {reader : LineReader}
    (h : reader.HasSpans source) :
    Ends MayFail (fun result => result.2.HasSpans source)
      (reader.read source) := by
  rcases reader with ⟨line, column, spans, pending⟩
  unfold read
  cases pending with
  | some token =>
      rintro left hLeft
      exact (h left hLeft).imp_right fun hWidth =>
        Nat.le_add_right_of_le hWidth
  | none =>
      dsimp only
      split_ifs with hEnd
      · exact h
      · rw [not_le] at hEnd
        have hLine : line ≤ source.lastLine := by
          rcases hEnd with hLess | ⟨hSame, _⟩
          · exact Nat.le_of_lt hLess
          · exact Nat.le_of_eq hSame
        have hMore :
            line + (source.lastLine - line) =
              source.lastLine := by
          omega
        exact ends_scan hSum hEnd (le_refl _) hMore
          (Nat.zero_le _) h.getD

end LineReader

end Bracketry

------------------------------------------------------------
-- Token Streams
------------------------------------------------------------

namespace Bracketry

open Checked

namespace TokenStream

variable {MayFail : Fault → Prop} {stream : TokenStream}

/- The stream is one of lines, and not of a whole scan. -/
def canSkip
    (stream : TokenStream) :
    Bool :=
  match stream.source with
  | .scanned _ _ => false
  | .lines _ _ _ => true

/- A reader of lines has spans to read. -/
def IsReady
    (stream : TokenStream) :
    Prop :=
  match stream.source with
  | .scanned _ _ => True
  | .lines source reader _ => reader.HasSpans source

/- A stream of the same kind that is ready too. -/
def Leads
    (stream next : TokenStream) :
    Prop :=
  next.IsReady ∧ next.canSkip = stream.canSkip

theorem ends_passed
    (hSum : MayFail .overflow)
    {source : TokenSource}
    (token : Token)
    (h : stream.Leads ⟨source, stream.offset⟩) :
    Ends MayFail (fun result => stream.Leads result.2)
      (stream.passed source token) :=
  (Length.ends_plus hSum stream.offset token.length).bind
    fun _ _ => h

theorem ends_read
    (hSum : MayFail .overflow)
    (h : stream.IsReady) :
    Ends MayFail (fun result => stream.Leads result.2)
      stream.read := by
  rcases stream with ⟨source, offset⟩
  cases source with
  | scanned tokens length =>
      cases tokens with
      | nil => exact ⟨trivial, rfl⟩
      | cons token rest =>
          exact ends_passed hSum token ⟨trivial, rfl⟩
  | lines source reader peeked =>
      cases peeked with
      | some next =>
          cases next with
          | none => exact ⟨h, rfl⟩
          | some token => exact ends_passed hSum token ⟨h, rfl⟩
      | none =>
          refine (LineReader.ends_read hSum h).bind ?_
          rintro ⟨token, after⟩ hAfter
          cases token with
          | none => exact ⟨hAfter, rfl⟩
          | some token =>
              exact ends_passed hSum token ⟨hAfter, rfl⟩

theorem ends_peek
    (hSum : MayFail .overflow)
    (h : stream.IsReady) :
    Ends MayFail (fun result => stream.Leads result.2)
      stream.peek := by
  rcases stream with ⟨source, offset⟩
  cases source with
  | scanned tokens length => exact ⟨trivial, rfl⟩
  | lines source reader peeked =>
      cases peeked with
      | some next => exact ⟨h, rfl⟩
      | none =>
          exact (LineReader.ends_read hSum h).bind
            fun _ hAfter => ⟨hAfter, rfl⟩

/- Wherever a stream of lines skips to, it is ready. -/
theorem ends_skip
    (hSum : MayFail .overflow)
    (length : Length)
    (h : stream.canSkip = true) :
    Ends MayFail stream.Leads (stream.skip length) := by
  rcases stream with ⟨source, offset⟩
  cases source with
  | scanned tokens length => cases h
  | lines source reader peeked =>
      exact (Length.ends_plus hSum offset length).bind
        fun _ _ => ⟨by rintro _ ⟨⟩, rfl⟩

end TokenStream

end Bracketry

------------------------------------------------------------
-- Walks through an Old Tree
------------------------------------------------------------

namespace Bracketry

open Checked

namespace Node

/- The parts of a whole tree are proper. -/
theorem IsRoot.isProper_child
    {root part : Node}
    (h : root.IsRoot)
    (hPart : part ∈ root.children) :
    part.IsProper := by
  rcases h with hProper | ⟨key, rfl⟩
  · exact isProper_of_mem_children hProper hPart
  · cases hPart

end Node

namespace NodeReader

variable {MayFail : Fault → Prop} {reader : NodeReader}
variable {node : Node} {start : Position}

/-
  The current node is a whole tree or a part of one, and so
  are the nodes behind it.
-/
structure IsReady
    (reader : NodeReader) :
    Prop where
  current :
    ∀ node start, reader.current = some (node, start) →
      node.IsRoot
  behind :
    ∀ siblings ∈ reader.behind,
      ∀ node ∈ siblings.nodes, node.IsProper

theorem isReady_ofRoot
    {root : Node}
    (h : root.IsRoot) :
    (ofRoot root).IsReady where
  current := by
    rintro _ _ ⟨⟩
    exact h
  behind := by simp [ofRoot]

theorem ends_nextBehind
    (hSum : MayFail .overflow)
    (start : Position)
    (length : Length)
    {behind : List Siblings}
    (h :
      ∀ siblings ∈ behind,
        ∀ node ∈ siblings.nodes, node.IsProper) :
    Ends MayFail
      (fun result =>
        IsReady
          { reader with
            current := result.1, behind := result.2 })
      (nextBehind start length behind) := by
  induction behind generalizing start length with
  | nil => exact ⟨by rintro _ _ ⟨⟩, by simp⟩
  | cons siblings upper ih =>
      rw [List.forall_mem_cons] at h
      rcases siblings with ⟨nodes, parentStart, parentLength⟩
      cases nodes with
      | nil => exact ih parentStart parentLength h.2
      | cons node rest =>
          rw [List.forall_mem_cons] at h
          refine (Length.ends_plus hSum start length).bind
            fun stop _ => ⟨?_, ?_⟩
          · rintro _ _ ⟨⟩
            exact .inl h.1.1
          · rw [List.forall_mem_cons]
            exact ⟨h.1.2, h.2⟩

theorem IsReady.ends_leave
    (hSum : MayFail .overflow)
    (h : reader.IsReady) :
    Ends MayFail IsReady (reader.leave node start) :=
  (ends_nextBehind hSum start node.length h.behind).bind
    fun _ hNext => hNext

theorem IsReady.enter
    {next : NodeReader}
    (h : reader.IsReady)
    (hNode : node.IsRoot)
    (hEnter : reader.enter? node start = some next) :
    next.IsReady := by
  unfold enter? at hEnter
  have hParts : ∀ part ∈ node.children, part.IsProper :=
    fun part => hNode.isProper_child
  split at hEnter
  · cases hEnter
  · rename_i child rest hChildren
    rw [hChildren, List.forall_mem_cons] at hParts
    cases hEnter
    refine ⟨?_, ?_⟩
    · rintro _ _ ⟨⟩
      exact .inl hParts.1
    · rw [List.forall_mem_cons]
      exact ⟨hParts.2, h.behind⟩

/-
  A walk ends with a node that passed the test, if with any.
  The test is made of whole trees and their parts only.
-/
theorem IsReady.ends_walk
    (hSum : MayFail .overflow)
    {offset : Position}
    {test : Node → Checked Bool}
    (hTest :
      ∀ node : Node, node.IsRoot →
        Ends MayFail (fun passes => passes = true → node.IsProper)
          (test node))
    (steps : Nat)
    (h : reader.IsReady) :
    Ends MayFail
      (fun result =>
        result.2.IsReady ∧
          ∀ node, result.1 = some node → node.IsProper)
      (walk offset test steps reader) := by
  induction steps generalizing reader with
  | zero => exact ⟨h, by rintro _ ⟨⟩⟩
  | succ steps ih =>
      have hNone :
          IsReady reader ∧
            ∀ node, (none : Option Node) = some node →
              node.IsProper :=
        ⟨h, by rintro _ ⟨⟩⟩
      unfold walk
      split
      · exact hNone
      · rename_i node start hCurrent
        have hNode := h.current node start hCurrent
        have hLeave :
            Ends MayFail IsReady (reader.leave node start) :=
          h.ends_leave hSum
        have hGoOn :
            Ends MayFail
              (fun result =>
                result.2.IsReady ∧
                  ∀ node, result.1 = some node →
                    node.IsProper)
              (do
                let reader ← reader.leave node start
                walk offset test steps reader) :=
          hLeave.bind fun _ hNext => ih hNext
        split_ifs
        · exact hNone
        · refine (Length.ends_plus hSum start
            node.length).bind fun stop _ => ?_
          split_ifs
          · exact hGoOn
          · split
            · rename_i hEnter
              exact ih (h.enter hNode hEnter)
            · exact hGoOn
        · refine (hTest node hNode).bind
            fun passes hPasses => ?_
          split_ifs with hPass
          · refine hLeave.bind fun next hNext => ⟨hNext, ?_⟩
            rintro _ ⟨⟩
            exact hPasses hPass
          · split
            · rename_i hEnter
              exact ih (h.enter hNode hEnter)
            · exact hLeave.bind fun next hNext =>
                ⟨hNext, by rintro _ ⟨⟩⟩

/- So does a walk that may be asked for any place. -/
theorem IsReady.ends_readLongestAt
    (hSum : MayFail .overflow)
    (hRead : MayFail .backwardRead)
    {offset : Position}
    {test : Node → Checked Bool}
    (hTest :
      ∀ node : Node, node.IsRoot →
        Ends MayFail (fun passes => passes = true → node.IsProper)
          (test node))
    (h : reader.IsReady) :
    Ends MayFail
      (fun result =>
        result.2.IsReady ∧
          ∀ node, result.1 = some node → node.IsProper)
      (reader.readLongestAt offset test) := by
  unfold readLongestAt
  split_ifs
  · exact hRead
  · have hMoved :
        IsReady { reader with lastOffset := offset } :=
      ⟨h.current, h.behind⟩
    exact hMoved.ends_walk hSum hTest reader.steps

end NodeReader

end Bracketry

------------------------------------------------------------
-- Parsing
------------------------------------------------------------

namespace Bracketry

open Checked

namespace Parser

variable {MayFail : Fault → Prop} {parser next : Parser}

/-
  The tokens can be read, and skipped if there is an old
  tree, which can be walked.
-/
structure IsReady
    (parser : Parser) :
    Prop where
  stream : parser.stream.IsReady
  skips :
    parser.old.isSome = true →
      parser.stream.canSkip = true
  old :
    ∀ reader, parser.old = some reader → reader.IsReady

/- A parser further on, with an old tree if there was one. -/
def Leads
    (parser next : Parser) :
    Prop :=
  next.IsReady ∧ next.old.isSome = parser.old.isSome

theorem Leads.trans
    {last : Parser}
    (h : parser.Leads next)
    (hLast : next.Leads last) :
    parser.Leads last :=
  ⟨hLast.1, hLast.2.trans h.2⟩

/- What is counted does not matter. -/
theorem Leads.counted
    (h : parser.Leads next)
    (stats : ParseStats) :
    parser.Leads { next with stats := stats } :=
  ⟨⟨h.1.stream, h.1.skips, h.1.old⟩, h.2⟩

/- An item of a level, which is flat without an old tree. -/
def IsItem
    (parser : Parser)
    (node : Node) :
    Prop :=
  node.IsProper ∧
    (parser.old.isSome = false → node.height = 0)

theorem Leads.isItem_iff
    {node : Node}
    (h : parser.Leads next) :
    next.IsItem node ↔ parser.IsItem node := by
  rw [IsItem, IsItem, h.2]

theorem IsReady.leads_stream
    {stream : TokenStream}
    (h : parser.IsReady)
    (hStream : parser.stream.Leads stream) :
    parser.Leads { parser with stream := stream } :=
  ⟨⟨hStream.1,
    fun hOld => hStream.2.trans (h.skips hOld), h.old⟩, rfl⟩

theorem IsReady.ends_peek
    (hSum : MayFail .overflow)
    (h : parser.IsReady) :
    Ends MayFail (fun result => parser.Leads result.2)
      parser.peek :=
  (TokenStream.ends_peek hSum h.stream).bind
    fun _ hNext => h.leads_stream hNext

theorem IsReady.ends_read
    (hSum : MayFail .overflow)
    (h : parser.IsReady) :
    Ends MayFail (fun result => parser.Leads result.2)
      parser.read :=
  (TokenStream.ends_read hSum h.stream).bind
    fun _ hNext => h.leads_stream hNext

theorem IsReady.leads_old
    {reader : NodeReader}
    (map : PositionMap)
    (h : parser.IsReady)
    (hOld : parser.old.isSome = true)
    (hReader : reader.IsReady) :
    parser.Leads
      { parser with map := map, old := some reader } := by
  refine ⟨⟨h.stream, fun _ => h.skips hOld, ?_⟩, hOld.symm⟩
  rintro _ ⟨⟩
  exact hReader

/- A whole tree or a part that can be used is proper. -/
theorem ends_fits
    (room : Option Length)
    (opened : IdSet)
    {node : Node}
    (h : node.IsRoot) :
    Ends MayFail (fun passes => passes = true → node.IsProper)
      (fits room opened node) := by
  unfold fits
  split_ifs
  · exact nofun
  · rcases h with hProper | ⟨key, rfl⟩
    · rcases Node.exists_canBeReused opened hProper with
        ⟨answer, hAnswer⟩
      rw [hAnswer]
      exact fun _ => hProper
    · rw [Node.canBeReused, List.isEmpty_nil, Bool.or_true,
        if_pos rfl]
      exact nofun

/- What is used again is proper, and its text is skipped. -/
theorem IsReady.ends_reuse
    (hSum : MayFail .overflow)
    (hRead : MayFail .backwardRead)
    (opened : IdSet)
    (h : parser.IsReady) :
    Ends MayFail
      (fun result =>
        parser.Leads result.2 ∧
          ∀ node, result.1 = some node →
            parser.IsItem node)
      (parser.reuse? opened) := by
  unfold reuse?
  split
  · exact ⟨⟨h, rfl⟩, by rintro _ ⟨⟩⟩
  · rename_i reader hReader
    have hOld : parser.old.isSome = true := by
      rw [hReader]
      rfl
    dsimp only
    split_ifs
    · exact ⟨⟨⟨h.stream, h.skips, h.old⟩, rfl⟩,
        by rintro _ ⟨⟩⟩
    · refine ((h.old reader hReader).ends_readLongestAt hSum
        hRead fun node hNode =>
          ends_fits _ opened hNode).bind ?_
      rintro ⟨found, walked⟩ ⟨hWalked, hFound⟩
      have hNext := fun map =>
        h.leads_old map hOld hWalked
      cases found with
      | none => exact ⟨hNext _, by rintro _ ⟨⟩⟩
      | some node =>
          refine (TokenStream.ends_skip hSum node.length
            (h.skips hOld)).bind fun stream hStream => ?_
          have hSkipped := fun map =>
            (hNext map).trans
              ((hNext map).1.leads_stream hStream)
          refine ⟨(hSkipped _).counted _, ?_⟩
          rintro _ ⟨⟩
          refine ⟨hFound node rfl, fun hNone => ?_⟩
          rw [hOld] at hNone
          cases hNone

/- A closing bracket is read where it is the next token. -/
theorem IsReady.ends_readClosing
    (hSum : MayFail .overflow)
    (opening : Bracket)
    (id : Option Nat)
    (h : parser.IsReady) :
    Ends MayFail
      (fun result =>
        parser.Leads result.2 ∧
          ∀ node, result.1 = some node → node.IsBracket)
      (parser.readClosing opening id) := by
  refine (h.ends_peek hSum).bind ?_
  rintro ⟨token, next⟩ hNext
  have hNone :
      parser.Leads next ∧
        ∀ node, (none : Option Node) = some node →
          node.IsBracket :=
    ⟨hNext, by rintro _ ⟨⟩⟩
  cases token with
  | none => exact hNone
  | some token =>
      cases token with
      | text length => exact hNone
      | bracket leaf leafId =>
          dsimp only
          split_ifs
          · refine (hNext.1.ends_read hSum).bind
              fun read hRead => ⟨hNext.trans hRead, ?_⟩
            rintro _ ⟨⟩
            exact ⟨leaf, rfl⟩
          · exact hNone

end Parser

namespace Node

variable {MayFail : Fault → Prop}

theorem ends_plusPart
    (hSum : MayFail .overflow)
    (length : Length)
    (part : Option Node) :
    Ends MayFail (· = length + partLength part)
      (plusPart length part) := by
  cases part with
  | none => exact (add_zero length).symm
  | some node => exact Length.ends_plus hSum length node.length

/- A pair that is made is proper. -/
theorem ends_pairOf
    (hSum : MayFail .overflow)
    (leaf : Bracket)
    {child closing : Option Node}
    (hChild : ∀ node, child = some node → node.IsProper)
    (hClosing :
      ∀ node, closing = some node → node.IsBracket) :
    Ends MayFail
      (fun pair => pair.IsProper ∧ pair.height = 0)
      (pairOf (.bracket leaf) child closing) := by
  refine (ends_plusPart hSum _ child).bind ?_
  rintro _ rfl
  refine (ends_plusPart hSum _ closing).bind ?_
  rintro _ rfl
  refine ⟨isProper_pair.2 ⟨⟨leaf, rfl⟩, hClosing,
    add_assoc _ _ _, ?_, hChild⟩, rfl⟩
  cases child <;> rfl

end Node

namespace Parser

variable {MayFail : Fault → Prop} {parser next : Parser}

/- The tree of the items of a level is proper. -/
theorem ends_joinItems_of_isItem
    (hSum : MayFail .overflow)
    {items : List Node}
    (hItems : ∀ item ∈ items, parser.IsItem item) :
    Ends MayFail
      (fun result =>
        ∀ root, result = some root → root.IsProper)
      (parser.joinItems items) := by
  by_cases hSome : items = []
  · rw [hSome, joinItems_nil]
    exact nofun
  · refine (ends_joinItems hSome
      (fun item hItem => (hItems item hItem).1)
      (fun hNone item hItem => (hItems item hItem).2 hNone)
      (.inr hSum)).mono ?_
    rintro _ ⟨root, rfl, hProper, _⟩ _ ⟨⟩
    exact hProper

/- The items of a level, and the parser behind them. -/
def GivesItems
    (parser : Parser)
    (result : List Node × Parser) :
    Prop :=
  parser.Leads result.2 ∧
    ∀ item ∈ result.1, parser.IsItem item

/- One node before the items that follow it. -/
theorem Leads.ends_cons
    {node : Node}
    {others : Checked (List Node × Parser)}
    (h : parser.Leads next)
    (hNode :
      node.isEmptyList = false → parser.IsItem node)
    (hOthers : Ends MayFail next.GivesItems others) :
    Ends MayFail parser.GivesItems
      (do
        let (rest, last) ← others
        return (
          if node.isEmptyList then rest else node :: rest,
          last)) := by
  refine hOthers.bind ?_
  rintro ⟨rest, last⟩ ⟨hLast, hItems⟩
  have hItems : ∀ item ∈ rest, parser.IsItem item :=
    fun item hItem => h.isItem_iff.1 (hItems item hItem)
  refine ⟨h.trans hLast, ?_⟩
  dsimp only
  split_ifs with hEmpty
  · exact hItems
  · rw [List.forall_mem_cons]
    exact ⟨hNode (by simpa using hEmpty), hItems⟩

/-
  Each item of a level is proper.  The induction is on the
  bound, which each item and each level inside one lowers.
-/
theorem IsReady.ends_parseItems
    (hSum : MayFail .overflow)
    (hRead : MayFail .backwardRead)
    (bound : Nat)
    (opened : IdSet)
    (level : Nat)
    (h : parser.IsReady) :
    Ends MayFail parser.GivesItems
      (parseItems bound opened level parser) := by
  induction bound generalizing opened level parser with
  | zero => exact ⟨⟨h, rfl⟩, by simp⟩
  | succ bound ih =>
      unfold parseItems
      refine (h.ends_reuse hSum hRead opened).bind ?_
      rintro ⟨reused, next⟩ ⟨hNext, hReused⟩
      cases reused with
      | some node =>
          exact hNext.ends_cons (fun _ => hReused node rfl)
            (ih opened level hNext.1)
      | none =>
          refine (hNext.1.ends_peek hSum).bind ?_
          rintro ⟨ahead, peeked⟩ hPeeked
          have hPeeked := hNext.trans hPeeked
          dsimp only
          by_cases hStop : stopsAt opened ahead = true
          · rw [if_pos hStop]
            exact ⟨hPeeked, by simp⟩
          rw [if_neg hStop]
          refine ((hPeeked.counted _).1.ends_read hSum).bind
            ?_
          rintro ⟨token, read⟩ hTaken
          have hTaken := (hPeeked.counted _).trans hTaken
          have hRest := ih opened level hTaken.1
          have hLeaf :
              ∀ {node : Node},
                node.IsProper → node.height = 0 →
                  node.isEmptyList = false →
                    parser.IsItem node :=
            fun hProper hFlat _ => ⟨hProper, fun _ => hFlat⟩
          cases token with
          | none =>
              refine hTaken.ends_cons ?_ hRest
              rintro ⟨⟩
          | some token =>
              cases token with
              | text length =>
                  exact hTaken.ends_cons (hLeaf trivial rfl)
                    hRest
              | bracket leaf id =>
                  by_cases hCloses :
                      (!leaf.kind.isOpening) = true
                  · simp only [if_pos hCloses]
                    exact hTaken.ends_cons
                      (hLeaf trivial rfl) hRest
                  by_cases hDeep : maxNestingLevel < level
                  · simp only [if_neg hCloses, if_pos hDeep]
                    exact hTaken.ends_cons
                      (hLeaf trivial rfl) hRest
                  simp only [if_neg hCloses, if_neg hDeep]
                  refine (ih _ _ hTaken.1).bind ?_
                  rintro ⟨items, inner⟩ ⟨hInner, hItems⟩
                  refine (ends_joinItems_of_isItem hSum
                    fun item hItem => hInner.isItem_iff.2
                      (hItems item hItem)).bind ?_
                  intro child hChild
                  refine (hInner.1.ends_readClosing hSum leaf
                    id).bind ?_
                  rintro ⟨closing, last⟩ ⟨hLast, hClosing⟩
                  refine (Node.ends_pairOf hSum leaf hChild
                    hClosing).bind ?_
                  rintro pair ⟨hProper, hFlat⟩
                  have hLast :=
                    hTaken.trans (hInner.trans hLast)
                  exact hLast.ends_cons (hLeaf hProper hFlat)
                    (ih opened level hLast.1)

end Parser

theorem PositionMap.ends_ofEdits
    {MayFail : Fault → Prop}
    (hSum : MayFail .overflow)
    (edits : List Edit) :
    Ends MayFail (fun _ => True) (ofEdits edits) := by
  have hEach :
      ∀ edit ∈ edits,
        Ends MayFail (fun _ => True)
          (EditEnds.ofEdit edit) :=
    fun edit _ =>
      (Length.ends_plus hSum _ _).bind fun _ _ => trivial
  exact (Ends.mapM hEach).bind fun _ _ => trivial

/-
  A parse ends with a tree.  The old one may only be asked
  for an earlier place than before.
-/
theorem ends_parseDocument
    {MayFail : Fault → Prop}
    (hSum : MayFail .overflow)
    (hRead : MayFail .backwardRead)
    {stream : TokenStream}
    {edits : List Edit}
    {old : Option Node}
    (hStream : stream.IsReady)
    (hSkips :
      old.isSome = true → stream.canSkip = true)
    (hOld : ∀ root, old = some root → root.IsRoot) :
    Ends MayFail (fun result => result.1.IsRoot)
      (parseDocument stream edits old) := by
  refine (PositionMap.ends_ofEdits hSum edits).bind
    fun map _ => ?_
  have hReady :
      Parser.IsReady
        { stream := stream
          old := old.map NodeReader.ofRoot
          map := map
          stats := ParseStats.none } := by
    refine ⟨hStream, fun hSome => hSkips ?_, ?_⟩
    · rwa [Option.isSome_map] at hSome
    · intro reader hReader
      rcases Option.map_eq_some_iff.1 hReader with
        ⟨root, hRoot, rfl⟩
      exact NodeReader.isReady_ofRoot (hOld root hRoot)
  refine (hReady.ends_parseItems hSum hRead _ _ _).bind ?_
  rintro ⟨items, parser⟩ ⟨hParser, hItems⟩
  refine (Parser.ends_joinItems_of_isItem hSum
    fun item hItem => hParser.isItem_iff.2
      (hItems item hItem)).bind ?_
  intro root hRoot
  cases root with
  | none => exact .inr ⟨none, rfl⟩
  | some root => exact .inl (hRoot root rfl)

end Bracketry
