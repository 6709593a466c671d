import Bracketry.Proofs.Marks
import Bracketry.Proofs.Peeks

/-
  Skipping to where a token ends equals reading up to there.

  A reader that comes to a place by reading has dropped the
  spans that it passed, and may hold back a bracket.  One
  that is put at the place looks the spans of the column up.
  Where the spans of each line are sorted, both scan alike
  from there on: a span that ends by the column of a reader
  adds nothing to what is scanned.

  Key definitions include:
    * `LineReader.ScansAs`
    * `LineReader.Resumes`
    * `TokenStream.Reaches`

  Main declarations:
    * `LineReader.leaves_scanSpans`
    * `LineReader.Resumes.read`
    * `LineReader.Resumes.delivers_ofPosition`
    * `TokenStream.readAll_of_skip`
-/

------------------------------------------------------------
-- Scans of Spans
------------------------------------------------------------

namespace Bracketry

namespace LineReader

/- From a column on, the spans are scanned like others. -/
def ScansAs
    (table : TokenTable)
    (line : List Char)
    (column : Nat)
    (spans others : List Span) :
    Prop :=
  ∀ later ≥ column,
    later ≤ width line →
      ∀ scanned ≤ hardLimit,
        scanSpans table line later scanned spans =
          scanSpans table line later scanned others

variable {table : TokenTable} {line : List Char}
variable {column stop : Nat} {a b c : List Span}

theorem ScansAs.refl
    (table : TokenTable)
    (line : List Char)
    (column : Nat)
    (spans : List Span) :
    ScansAs table line column spans spans := by
  intro later hLater hWidth scanned hScanned
  rfl

theorem ScansAs.symm
    (h : ScansAs table line column a b) :
    ScansAs table line column b a := by
  intro later hLater hWidth scanned hScanned
  exact (h later hLater hWidth scanned hScanned).symm

theorem ScansAs.trans
    (hFirst : ScansAs table line column a b)
    (hSecond : ScansAs table line column b c) :
    ScansAs table line column a c := by
  intro later hLater hWidth scanned hScanned
  exact (hFirst later hLater hWidth scanned hScanned).trans
    (hSecond later hLater hWidth scanned hScanned)

theorem ScansAs.mono
    (hColumn : column ≤ stop)
    (h : ScansAs table line column a b) :
    ScansAs table line stop a b := by
  intro later hLater
  exact h later (Nat.le_trans hColumn hLater)

/- A span that goes on as the next one is not needed. -/
theorem scansAs_merged
    {span : Span}
    {rest : List Span}
    (column : Nat)
    (h : rest.head?.any (·.kind = span.kind) = true) :
    ScansAs table line column (span :: rest) rest := by
  intro later hLater hWidth scanned hScanned
  rw [scanSpans_cons, if_pos h]

/- A span that ends by a column is not needed behind it. -/
theorem scansAs_passed
    {span : Span}
    {rest : List Span}
    (h : spanStop line rest ≤ column) :
    ScansAs table line column (span :: rest) rest := by
  intro later hLater hWidth scanned hScanned
  have hStop : spanStop line rest ≤ later :=
    Nat.le_trans h hLater
  by_cases hMerged :
      rest.head?.any (·.kind = span.kind) = true
  · exact scansAs_merged later hMerged later (Nat.le_refl _)
      hWidth scanned hScanned
  · have hLess : ¬later < spanStop line rest :=
      Nat.not_lt.2 hStop
    have hSum : checkedSum scanned 0 = .ok scanned := by
      refine checkedSum_eq_ok_iff.2 ⟨?_, rfl⟩
      unfold hardLimit at hScanned
      unfold countLimit
      omega
    rw [scanSpans_cons, if_neg hMerged,
      if_neg fun hFound => hLess hFound.2]
    simp only
    rw [Nat.sub_eq_zero_of_le hStop, hSum,
      Nat.max_eq_left hStop]
    exact if_neg (Nat.not_lt.2 hScanned)

/-
  Spans in front of that of a column are not needed, as each
  of them ends where the next one begins.
-/
theorem scansAs_drop
    {spans : List Span}
    {index : Nat}
    (hSorted : Span.AreSorted spans)
    (hIndex :
      index = 0 ∨
        ∃ span,
          spans[index]? = some span ∧
            span.column ≤ column) :
    ScansAs table line column spans (spans.drop index) := by
  induction spans generalizing index with
  | nil =>
      rw [List.drop_nil]
      exact ScansAs.refl table line column []
  | cons first rest ih =>
      cases index with
      | zero => exact ScansAs.refl table line column _
      | succ below =>
          rcases hIndex.resolve_left (Nat.succ_ne_zero _) with
            ⟨span, hSpan, hColumn⟩
          rw [List.getElem?_cons_succ] at hSpan
          have hRest := (List.pairwise_cons.1 hSorted).2
          have hBelow :
              ScansAs table line column rest
                (rest.drop below) :=
            ih hRest (.inr ⟨span, hSpan, hColumn⟩)
          exact ScansAs.trans
            (scansAs_passed
              ((Span.spanStop_le_of_sorted hRest hSpan).trans
                hColumn)) hBelow

/-
  The spans that a scan leaves are scanned like those that
  it began with.  A bracket that it found is found again from
  where it stands.
-/
def Leaves
    (table : TokenTable)
    (line : List Char)
    (column : Nat)
    (spans : List Span) :
    SpanScan → Prop
  | .bracket stop token left =>
      column ≤ stop ∧ ScansAs table line stop spans left ∧
        ∀ scanned,
          scanSpans table line stop scanned left =
            .ok (.bracket stop token left)
  | .full stop left =>
      column ≤ stop ∧ ScansAs table line stop spans left
  | .lineEnd stop _ =>
      column ≤ stop ∧ ScansAs table line stop spans []

/- A scan from later spans is one from earlier spans. -/
theorem Leaves.ofLater
    {result : SpanScan}
    (hColumn : column ≤ stop)
    (hSame : ScansAs table line stop a b)
    (h : Leaves table line stop b result) :
    Leaves table line column a result := by
  cases result with
  | bracket last token left =>
      rcases h with ⟨hStop, hLeft, hAgain⟩
      exact ⟨Nat.le_trans hColumn hStop,
        (hSame.mono hStop).trans hLeft, hAgain⟩
  | full last left =>
      exact ⟨Nat.le_trans hColumn h.1,
        (hSame.mono h.1).trans h.2⟩
  | lineEnd last scanned =>
      exact ⟨Nat.le_trans hColumn h.1,
        (hSame.mono h.1).trans h.2⟩

theorem leaves_scanSpans
    {scanned : Nat}
    {spans : List Span}
    {result : SpanScan}
    (hSolid : table.IsSolid)
    (h :
      scanSpans table line column scanned spans =
        .ok result) :
    Leaves table line column spans result := by
  induction spans generalizing column scanned with
  | nil =>
      cases h
      exact ⟨Nat.le_refl _, ScansAs.refl table line column []⟩
  | cons span rest ih =>
      rw [scanSpans_cons] at h
      by_cases hMerged :
          rest.head?.any (·.kind = span.kind) = true
      · rw [if_pos hMerged] at h
        exact (ih h).ofLater (Nat.le_refl _)
          (scansAs_merged column hMerged)
      · rw [if_neg hMerged] at h
        split at h
        · rename_i skipped token hFound
          cases h
          split_ifs at hFound with hCode
          rcases findBracket?_spec hSolid hFound with
            ⟨hLiteral, hStop, _, hAgain⟩
          have hColumns := hLiteral.columns
          refine ⟨Nat.le_add_right _ _,
            ScansAs.refl table line _ _, ?_⟩
          intro others
          rw [scanSpans_cons, if_neg hMerged,
            if_pos ⟨hCode.1, by omega⟩, hAgain]
          rfl
        · have hPassed :
              ScansAs table line
                (max column (spanStop line rest))
                (span :: rest) rest :=
            scansAs_passed (Nat.le_max_right _ _)
          rcases Checked.bind_eq_ok_iff.1 h with
            ⟨total, _, hRest⟩
          simp only at hRest
          split_ifs at hRest with hFull
          · cases hRest
            exact ⟨Nat.le_max_left _ _, hPassed⟩
          · exact (ih hRest).ofLater (Nat.le_max_left _ _)
              hPassed

end LineReader

end Bracketry

------------------------------------------------------------
-- Readers That May Be Put Anew
------------------------------------------------------------

namespace Bracketry

namespace LineReader

/-
  A reader that scans as if it had all spans of its line.  A
  bracket that it holds back stands where it stands.
-/
structure Resumes
    (source : LineSource)
    (reader : LineReader) :
    Prop where
  follows : reader.Follows source
  spans :
    ∀ spans, reader.spans = some spans →
      ScansAs source.table (source.content.line reader.line)
        reader.column spans (source.spans.onLine reader.line)
  pending :
    ∀ token, reader.pending = some token →
      ∀ spans, reader.spans = some spans →
        ∀ scanned,
          scanSpans source.table
              (source.content.line reader.line)
              reader.column scanned spans =
            .ok (.bracket reader.column token spans)

variable {source : LineSource}
variable {reader after : LineReader} {token : Token}

theorem resumes_ofPosition
    {place : Position}
    (h : source.HasPlace place) :
    (ofPosition place).Resumes source := by
  refine ⟨⟨h, ?_, ?_⟩, ?_, ?_⟩ <;> rintro _ ⟨⟩

/- A scan only depends on how its first spans are scanned. -/
theorem scan_congr
    {start : Position}
    {line column scanned more : Nat}
    {a b : List Span}
    (h :
      scanSpans source.table (source.content.line line)
          column scanned a =
        scanSpans source.table (source.content.line line)
          column scanned b) :
    scan source start line column scanned a more =
      scan source start line column scanned b more := by
  unfold scan
  rw [h]

/- The spans of a column are scanned like all of the line. -/
theorem scansAs_spansAt
    (hSorted : source.spans.IsSorted)
    (line column : Nat) :
    ScansAs source.table (source.content.line line) column
      (source.spans.onLine line)
      (spansAt source line column) :=
  scansAs_drop (hSorted.onLine line)
    (Span.indexAt_spec _ column)

/- A scan with all spans of its line leaves all of them. -/
theorem ScansAs.leaves_scan
    {line column scanned : Nat}
    {spans : List Span}
    {result : SpanScan}
    (hSolid : source.table.IsSolid)
    (hSpans :
      ScansAs source.table (source.content.line line) column
        spans (source.spans.onLine line))
    (hResult :
      scanSpans source.table (source.content.line line)
        column scanned spans = .ok result) :
    Leaves source.table (source.content.line line) column
      (source.spans.onLine line) result :=
  (leaves_scanSpans hSolid hResult).ofLater (Nat.le_refl _)
    hSpans.symm

/- A reader without a bracket that has all spans. -/
theorem resumes_of_spans
    {line column : Nat}
    {spans : List Span}
    (hFollows : Follows source ⟨line, column, some spans, none⟩)
    (hSpans :
      ScansAs source.table (source.content.line line) column
        (source.spans.onLine line) spans) :
    Resumes source ⟨line, column, some spans, none⟩ := by
  refine ⟨hFollows, ?_, ?_⟩
  · rintro _ ⟨⟩
    exact hSpans.symm
  · rintro _ ⟨⟩

/-
  Behind a scan that has all spans of its line, a reader has
  them too.  The induction is on the lines that follow.
-/
theorem resumes_of_scan
    {start : Position}
    {line column scanned more : Nat}
    {spans : List Span}
    {token : Option Token}
    (hSolid : source.table.IsSolid)
    (hSpans :
      ScansAs source.table (source.content.line line) column
        spans (source.spans.onLine line))
    (hFollows : after.Follows source)
    (h :
      scan source start line column scanned spans more =
        .ok (token, after)) :
    after.Resumes source := by
  fun_induction scan source start line column scanned spans
      more with
  | case1 more line column scanned spans fault hResult =>
      cases h
  | case2 more line column scanned spans stop found left
      hResult hHere =>
      rcases Prod.mk.inj (Except.ok.inj h) with ⟨_, rfl⟩
      have hLeaves :=
        hSpans.leaves_scan hSolid hResult
      exact resumes_of_spans hFollows
        (hLeaves.2.1.mono (Nat.le_add_right _ _))
  | case3 more line column scanned spans stop found left
      hResult hBehind =>
      have hLeaves := hSpans.leaves_scan hSolid hResult
      rw [eq_of_textSince h] at hFollows ⊢
      refine ⟨hFollows, ?_, ?_⟩
      · rintro _ ⟨⟩
        exact hLeaves.2.1.symm
      · rintro _ ⟨⟩ _ ⟨⟩
        exact hLeaves.2.2
  | case4 more line column scanned spans stop left hResult =>
      have hLeaves := hSpans.leaves_scan hSolid hResult
      rw [eq_of_textSince h] at hFollows ⊢
      exact resumes_of_spans hFollows hLeaves.2
  | case5 line column scanned spans stop total hResult =>
      have hLeaves := hSpans.leaves_scan hSolid hResult
      rw [eq_of_textSince h] at hFollows ⊢
      exact resumes_of_spans hFollows hLeaves.2
  | case6 line column scanned spans more stop total hResult
      next ih =>
      rcases Checked.bind_eq_ok_iff.1 h with
        ⟨weight, _, hRest⟩
      split_ifs at hRest with hSoft
      · rw [eq_of_textSince hRest] at hFollows ⊢
        exact resumes_of_spans hFollows
          (ScansAs.refl source.table _ 0 _)
      · exact ih weight (ScansAs.refl source.table _ 0 _)
          hRest

/- A reader and one that is put at its place read alike. -/
theorem Resumes.read_ofPosition
    (hSorted : source.spans.IsSorted)
    (h : reader.Resumes source)
    (hRead : reader.read source = .ok (some token, after)) :
    (ofPosition reader.place).read source =
      .ok (some token, after) := by
  have hAll := scansAs_spansAt hSorted reader.line reader.column
  have hWidth := h.follows.hasPlace.2
  have hKnown := h.spans
  have hHeld := h.pending
  have hFollows := h.follows.pending
  rcases reader with ⟨line, column, spans, pending⟩
  cases pending with
  | none =>
      unfold LineReader.read at hRead
      simp only at hRead
      split_ifs at hRead with hEnd
      · cases hRead
      unfold LineReader.read ofPosition place
      simp only
      rw [if_neg hEnd, ← hRead]
      apply scan_congr
      cases spans with
      | none => rfl
      | some known =>
          exact (((hKnown known rfl).trans hAll) column
            (Nat.le_refl _) hWidth 0 (Nat.zero_le _)).symm
  | some held =>
      rcases hFollows held rfl with
        ⟨hLiteral, hStop, ⟨known, hSome, _⟩, _⟩
      simp only at hSome
      subst hSome
      rcases Prod.mk.inj (Except.ok.inj hRead) with
        ⟨hToken, rfl⟩
      rcases Option.some.inj hToken with rfl
      have hColumns := hLiteral.columns
      have hPlace : source.HasPlace
          ⟨line, column + held.length.columns⟩ :=
        ⟨h.follows.hasPlace.1, hStop⟩
      have hLess :
          (⟨line, column⟩ : Position) < source.length := by
        refine lt_of_lt_of_le ?_ (columns_le_of_isLast hPlace)
        rw [Length.lt_def]
        exact .inr ⟨rfl, Nat.lt_add_of_pos_right hColumns⟩
      have hScan :
          scanSpans source.table (source.content.line line)
              column 0 (spansAt source line column) =
            .ok (.bracket column held known) := by
        rw [← hHeld held rfl known rfl 0]
        exact (((hKnown known rfl).trans hAll) column
          (Nat.le_refl _) hWidth 0 (Nat.zero_le _)).symm
      unfold LineReader.read ofPosition place
      simp only
      rw [if_neg (not_le.2 hLess)]
      unfold scan
      simp only [Option.getD_none, hScan, if_true]

/- What a reader has read, it may be put behind. -/
theorem Resumes.read
    (hSolid : source.table.IsSolid)
    (hSorted : source.spans.IsSorted)
    (h : reader.Resumes source)
    (hRead : reader.read source = .ok (some token, after)) :
    after.Resumes source := by
  have hFollows := (h.follows.passes hSolid hRead).follows
  have hKnown := h.spans
  rcases reader with ⟨line, column, spans, pending⟩
  cases pending with
  | none =>
      unfold LineReader.read at hRead
      simp only at hRead
      split_ifs at hRead with hEnd
      · cases hRead
      refine resumes_of_scan hSolid ?_ hFollows hRead
      cases spans with
      | none => exact (scansAs_spansAt hSorted line column).symm
      | some known => exact hKnown known rfl
  | some held =>
      rcases Prod.mk.inj (Except.ok.inj hRead) with ⟨_, rfl⟩
      refine ⟨hFollows, ?_, ?_⟩
      · intro known hSome
        exact (hKnown known hSome).mono (Nat.le_add_right _ _)
      · rintro _ ⟨⟩

end LineReader

end Bracketry

------------------------------------------------------------
-- Tokens Behind a Place
------------------------------------------------------------

namespace Bracketry

namespace LineReader

variable {source : LineSource} {reader : LineReader}
variable {tokens : List Token}

/- A reader that is put at the place of another delivers. -/
theorem Resumes.delivers_ofPosition
    (hSolid : source.table.IsSolid)
    (hSorted : source.spans.IsSorted)
    (h : reader.Resumes source)
    (hTokens : reader.Delivers source tokens) :
    (ofPosition reader.place).Delivers source tokens := by
  have hPut : (ofPosition reader.place).Resumes source :=
    resumes_ofPosition h.follows.hasPlace
  cases tokens with
  | nil =>
      refine ⟨hTokens.1, ?_⟩
      unfold LineReader.read
      exact if_pos hTokens.1.ge
  | cons token rest =>
      rcases hTokens with ⟨after, hRead, _, hRest⟩
      have hSame := h.read_ofPosition hSorted hRead
      exact ⟨after, hSame, hPut.follows.passes hSolid hSame,
        hRest⟩

/- Behind some of the tokens, the others are delivered. -/
theorem Resumes.exists_behind
    (hSolid : source.table.IsSolid)
    (hSorted : source.spans.IsSorted)
    (count : Nat)
    (h : reader.Resumes source)
    (hTokens : reader.Delivers source tokens)
    (hCount : count ≤ tokens.length) :
    ∃ later,
      Resumes source later ∧
        later.place =
          reader.place + Token.total (tokens.take count) ∧
        later.Delivers source (tokens.drop count) := by
  induction count generalizing reader tokens with
  | zero =>
      refine ⟨reader, h, ?_, hTokens⟩
      simp
  | succ count ih =>
      cases tokens with
      | nil => cases hCount
      | cons token rest =>
          rcases hTokens with ⟨after, hRead, hPasses, hRest⟩
          rcases ih (h.read hSolid hSorted hRead) hRest
              (Nat.le_of_succ_le_succ hCount) with
            ⟨later, hLater, hPlace, hDrop⟩
          refine ⟨later, hLater, ?_, hDrop⟩
          rw [hPlace, hPasses.place, List.take_succ_cons,
            Token.total_cons, add_assoc]

/- A reader can be put behind some tokens of a content. -/
theorem delivers_behind
    (hSolid : source.table.IsSolid)
    (hSorted : source.spans.IsSorted)
    {count : Nat}
    (hTokens : LineReader.start.Delivers source tokens)
    (hCount : count ≤ tokens.length) :
    let place := Token.total (tokens.take count)
    source.HasPlace place ∧
      (ofPosition place).Delivers source
        (tokens.drop count) := by
  intro place
  have hStart : LineReader.start.Resumes source :=
    resumes_ofPosition (follows_start source).hasPlace
  rcases hStart.exists_behind hSolid hSorted count hTokens
      hCount with
    ⟨later, hLater, hPlace, hDrop⟩
  have hSame : later.place = place :=
    hPlace.trans (zero_add _)
  rw [← hSame]
  exact ⟨hLater.follows.hasPlace,
    hLater.delivers_ofPosition hSolid hSorted hDrop⟩

end LineReader

end Bracketry

------------------------------------------------------------
-- Streams
------------------------------------------------------------

namespace Bracketry

namespace TokenStream

/-
  The states that a stream of lines can come to, with the
  number of tokens that lie behind it: by reads, peeks and
  skips to where a later token ends.
-/
inductive Reaches
    (source : LineSource)
    (tokens : List Token) :
    Nat → TokenStream → Prop where
  | start : Reaches source tokens 0 (ofLines source)
  | read
    {index : Nat}
    {stream after : TokenStream}
    {token : Token}
    (h : Reaches source tokens index stream)
    (hRead : stream.read = .ok (some token, after)) :
    Reaches source tokens (index + 1) after
  | finish
    {index : Nat}
    {stream after : TokenStream}
    (h : Reaches source tokens index stream)
    (hRead : stream.read = .ok (none, after)) :
    Reaches source tokens index after
  | peek
    {index : Nat}
    {stream after : TokenStream}
    {token : Option Token}
    (h : Reaches source tokens index stream)
    (hPeek : stream.peek = .ok (token, after)) :
    Reaches source tokens index after
  | skip
    {index count : Nat}
    {stream after : TokenStream}
    {length : Length}
    (h : Reaches source tokens index stream)
    (hIndex : index ≤ count)
    (hCount : count ≤ tokens.length)
    (hLength :
      stream.offset + length =
        Token.total (tokens.take count))
    (hSkip : stream.skip length = .ok after) :
    Reaches source tokens count after

/-
  A stream whose reader delivers some tokens, or did so
  before the stream looked at the first of them.
-/
inductive Streams
    (source : LineSource)
    (tokens : List Token) :
    TokenStream → Prop where
  | plain
    {reader : LineReader}
    (h : reader.Delivers source tokens) :
    Streams source tokens
      ⟨.lines source reader none, reader.place⟩
  | peeked
    {reader after : LineReader}
    {token : Option Token}
    (h : reader.Delivers source tokens)
    (hRead : reader.read source = .ok (token, after)) :
    Streams source tokens
      ⟨.lines source after (some token), reader.place⟩

variable {source : LineSource}
variable {stream : TokenStream} {token : Token}
variable {tokens rest : List Token}

/- The stream reads the first of its tokens. -/
theorem Streams.read
    (h : Streams source (token :: rest) stream) :
    ∃ after,
      stream.read = .ok (some token, after) ∧
        after.offset = stream.offset + token.length ∧
        Streams source rest after := by
  cases h with
  | plain h =>
      rcases h with ⟨after, hRead, hPasses, hRest⟩
      exact ⟨_, hPasses.read_stream hRead,
        hPasses.place, .plain hRest⟩
  | peeked h hSeen =>
      rcases h with ⟨after, hRead, hPasses, hRest⟩
      rw [hRead] at hSeen
      rcases Prod.mk.inj (Except.ok.inj hSeen) with ⟨rfl, rfl⟩
      have hFits := hPasses.follows.hasPlace.fits
      rw [hPasses.place] at hFits
      refine ⟨⟨.lines source after none, after.place⟩, ?_,
        hPasses.place, .plain hRest⟩
      unfold TokenStream.read passed
      simp only [Length.plus_eq_ok hFits, hPasses.place, bind,
        Except.bind, pure, Except.pure]

/- A stream without tokens is at its end. -/
theorem Streams.finish
    (h : Streams source [] stream) :
    ∃ after,
      stream.read = .ok (none, after) ∧
        after.offset = stream.offset ∧
        Streams source [] after := by
  cases h with
  | plain h =>
      refine ⟨_, ?_, rfl, .plain h⟩
      unfold TokenStream.read
      simp only [h.2, bind, Except.bind, pure, Except.pure]
  | peeked h hSeen =>
      rw [h.2] at hSeen
      rcases Prod.mk.inj (Except.ok.inj hSeen) with ⟨rfl, rfl⟩
      exact ⟨_, rfl, rfl, .plain h⟩

/- A look at the next token changes nothing. -/
theorem Streams.peek
    {after : TokenStream}
    {seen : Option Token}
    (h : Streams source tokens stream)
    (hPeek : stream.peek = .ok (seen, after)) :
    after.offset = stream.offset ∧
      Streams source tokens after := by
  cases h with
  | plain h =>
      rcases Checked.bind_eq_ok_iff.1 hPeek with
        ⟨⟨token, next⟩, hRead, hSame⟩
      rcases Prod.mk.inj (Except.ok.inj hSame) with ⟨_, rfl⟩
      exact ⟨rfl, .peeked h hRead⟩
  | peeked h hSeen =>
      rcases Prod.mk.inj (Except.ok.inj hPeek) with ⟨_, rfl⟩
      exact ⟨rfl, .peeked h hSeen⟩

/- A stream is skipped to a place, whatever it looked at. -/
theorem Streams.skip
    {length : Length}
    (hFits : (stream.offset + length).Fits)
    (h : Streams source tokens stream) :
    let place := stream.offset + length
    stream.skip length =
      .ok ⟨.lines source (LineReader.ofPosition place) none,
        place⟩ := by
  cases h with
  | plain h => exact Script.skip_lines rfl hFits
  | peeked h hSeen => exact Script.skip_lines rfl hFits

/- All tokens of a stream are read. -/
theorem Streams.readUpTo
    {count : Nat}
    (hCount : tokens.length ≤ count)
    (h : Streams source tokens stream) :
    ∃ last,
      TokenStream.readUpTo count stream =
        .ok (tokens, last) := by
  induction tokens generalizing stream count with
  | nil =>
      cases count with
      | zero => exact ⟨stream, rfl⟩
      | succ count =>
          rcases h.finish with ⟨after, hRead, _, _⟩
          refine ⟨after, ?_⟩
          unfold TokenStream.readUpTo
          simp only [hRead, bind, Except.bind, pure,
            Except.pure]
  | cons token rest ih =>
      cases count with
      | zero => cases hCount
      | succ count =>
          rcases h.read with
            ⟨after, hRead, _, hRest⟩
          rcases ih (Nat.le_of_succ_le_succ hCount) hRest with
            ⟨last, hTokens⟩
          refine ⟨last, ?_⟩
          unfold TokenStream.readUpTo
          simp only [hRead, hTokens, bind, Except.bind, pure,
            Except.pure]

/- The bound on the tokens of a stream is that of its lines. -/
theorem Streams.bound_eq
    (h : Streams source tokens stream) :
    stream.bound = (ofLines source).bound := by
  cases h <;> rfl

/-
  A state that a stream can come to has the tokens in front
  of it that are not behind it.
-/
theorem Reaches.streams
    {index : Nat}
    (hSolid : source.table.IsSolid)
    (hSorted : source.spans.IsSorted)
    (hTokens : LineReader.start.Delivers source tokens)
    (h : Reaches source tokens index stream) :
    stream.offset = Token.total (tokens.take index) ∧
      Streams source (tokens.drop index) stream := by
  induction h with
  | start => exact ⟨rfl, .plain hTokens⟩
  | @read index stream after token h hRead ih =>
      rcases ih with ⟨hOffset, hStreams⟩
      cases hDrop : tokens.drop index with
      | nil =>
          rw [hDrop] at hStreams
          rcases hStreams.finish with ⟨_, hNone, _, _⟩
          rw [hRead] at hNone
          cases hNone
      | cons first rest =>
          rw [hDrop] at hStreams
          rcases hStreams.read with
            ⟨next, hFirst, hNext, hRest⟩
          rw [hRead] at hFirst
          rcases Prod.mk.inj (Except.ok.inj hFirst) with
            ⟨hToken, rfl⟩
          rcases Option.some.inj hToken with rfl
          have hTake :
              tokens.take (index + 1) =
                tokens.take index ++ [token] := by
            rw [List.take_add, hDrop]
            rfl
          have hTail : tokens.drop (index + 1) = rest := by
            rw [← List.tail_drop, hDrop]
            rfl
          refine ⟨?_, ?_⟩
          · rw [hNext, hOffset, hTake, Token.total_append]
            simp
          · rw [hTail]
            exact hRest
  | @finish index stream after h hRead ih =>
      rcases ih with ⟨hOffset, hStreams⟩
      cases hDrop : tokens.drop index with
      | nil =>
          rw [hDrop] at hStreams
          rcases hStreams.finish with
            ⟨next, hNone, hNext, hRest⟩
          rw [hRead] at hNone
          rcases Prod.mk.inj (Except.ok.inj hNone) with
            ⟨_, rfl⟩
          exact ⟨hNext.trans hOffset, hRest⟩
      | cons first rest =>
          rw [hDrop] at hStreams
          rcases hStreams.read with
            ⟨_, hFirst, _, _⟩
          rw [hRead] at hFirst
          cases hFirst
  | peek h hPeek ih =>
      rcases ih.2.peek hPeek with ⟨hSame, hStreams⟩
      exact ⟨hSame.trans ih.1, hStreams⟩
  | skip h hIndex hCount hLength hSkip ih =>
      rcases LineReader.delivers_behind hSolid hSorted hTokens
          hCount with
        ⟨hPlace, hBehind⟩
      have hFits := hPlace.fits
      rw [← hLength] at hFits
      rw [ih.2.skip hFits, hLength] at hSkip
      rcases Except.ok.inj hSkip with rfl
      exact ⟨rfl, .plain hBehind⟩

/-
  Skipping equals reading, where the spans of each line are
  sorted.  A stream of the lines of a document that came
  behind some of its tokens, by reads, peeks and skips to
  where a token ends, has an offset that tells their length,
  and reads the others.  So it does if it is skipped to where
  any later token ends.  The tokens are all read, unless a
  line has too many columns to be added up.
-/
theorem readAll_of_skip
    {document : Document}
    {spans : SpanTable}
    (declaration : BracketDeclaration)
    (hSorted : spans.IsSorted) :
    let table := TokenTable.ofDeclaration declaration
    let source : LineSource :=
      ⟨.ofDocument document, spans, table⟩
    (source.HasRoom →
        ∃ tokens last,
          (ofLines source).readAll = .ok (tokens, last)) ∧
      ∀ tokens last,
        (ofLines source).readAll = .ok (tokens, last) →
          ∀ index stream, Reaches source tokens index stream →
            stream.offset = Token.total (tokens.take index) ∧
            (∃ last,
              stream.readAll =
                .ok (tokens.drop index, last)) ∧
            ∀ count length, index ≤ count →
              count ≤ tokens.length →
              stream.offset + length =
                Token.total (tokens.take count) →
              ∃ skipped last,
                stream.skip length = .ok skipped ∧
                  skipped.readAll =
                    .ok (tokens.drop count, last) := by
  intro table source
  have hSolid : source.table.IsSolid :=
    TokenTable.isSolid_ofDeclaration declaration
  rcases exists_readAll hSolid with
    ⟨tokens, last, hTokens, hRead, _⟩ | ⟨hError, hFull⟩
  · refine ⟨fun _ => ⟨tokens, last, hRead⟩, ?_⟩
    intro others end_ hOthers
    rw [hRead] at hOthers
    rcases Prod.mk.inj (Except.ok.inj hOthers) with ⟨rfl, _⟩
    have hBound := length_le_of_readUpTo hRead
    have hReadAll :
        ∀ index stream, Reaches source tokens index stream →
          ∃ last,
            stream.readAll =
              .ok (tokens.drop index, last) := by
      intro index stream hReaches
      rcases hReaches.streams hSolid hSorted hTokens with
        ⟨_, hStreams⟩
      refine hStreams.readUpTo ?_
      rw [hStreams.bound_eq, List.length_drop]
      exact Nat.le_trans (Nat.sub_le _ _) hBound
    intro index stream hReaches
    rcases hReaches.streams hSolid hSorted hTokens with
      ⟨hOffset, hStreams⟩
    refine ⟨hOffset, hReadAll index stream hReaches, ?_⟩
    intro count length hIndex hCount hLength
    have hPlace :=
      (LineReader.delivers_behind hSolid hSorted hTokens
        hCount).1
    have hFits := hPlace.fits
    rw [← hLength] at hFits
    have hSkip := hStreams.skip hFits
    rcases hReadAll count _
        (hReaches.skip hIndex hCount hLength hSkip) with
      ⟨last, hRest⟩
    exact ⟨_, last, hSkip, hRest⟩
  · refine ⟨fun hRoom => absurd hRoom hFull, ?_⟩
    intro tokens last hRead
    rw [hError] at hRead
    cases hRead

/-
  A stream that has looked at its first token is skipped to
  the end of the first line, where a comment stands between
  the two brackets.
-/
theorem readAll_of_skip_parens :
    let declaration : BracketDeclaration :=
      ⟨[⟨['('], [')']⟩], none⟩
    let document :=
      Document.ofText ['(', '(', ')', '\r', '\n', '(', 'b']
    let spans : SpanTable :=
      ⟨[[⟨0, .other⟩, ⟨1, .comment⟩, ⟨2, .other⟩]]⟩
    let table := TokenTable.ofDeclaration declaration
    let source : LineSource :=
      ⟨.ofDocument document, spans, table⟩
    spans.IsSorted ∧ source.HasRoom ∧
      ∃ seen peeked skipped tokens last,
        (ofLines source).peek = .ok (seen, peeked) ∧
          peeked.skip ⟨0, 3⟩ = .ok skipped ∧
          skipped.readAll = .ok (tokens, last) ∧
          tokens.map Token.length =
            [⟨1, 0⟩, ⟨0, 1⟩, ⟨0, 1⟩] := by
  intro declaration document spans table source
  have hSorted : spans.IsSorted := by decide
  have hRoom : source.HasRoom := by decide
  rcases readAll_of_skip declaration hSorted with
    ⟨hReads, hSkips⟩
  rcases hReads hRoom with ⟨tokens, last, hRead⟩
  have hLengths :
      tokens.map Token.length =
        [⟨0, 1⟩, ⟨0, 1⟩, ⟨0, 1⟩, ⟨1, 0⟩, ⟨0, 1⟩, ⟨0, 1⟩] := by
    have hAll :
        ((ofLines source).readAll.map fun read =>
            read.1.map Token.length) =
          .ok [⟨0, 1⟩, ⟨0, 1⟩, ⟨0, 1⟩, ⟨1, 0⟩, ⟨0, 1⟩,
            ⟨0, 1⟩] := by
      decide
    rw [hRead] at hAll
    exact Except.ok.inj hAll
  have hTake :
      Token.total (tokens.take 3) = ⟨0, 3⟩ := by
    rw [Token.total, List.map_take, hLengths]
    rfl
  have hCount : 3 ≤ tokens.length := by
    rw [← List.length_map Token.length, hLengths]
    decide
  cases hPeek : (ofLines source).peek with
  | error fault =>
      have hSome : (ofLines source).peek.isOk = true := by
        decide
      rw [hPeek] at hSome
      cases hSome
  | ok peek =>
      rcases peek with ⟨seen, peeked⟩
      rcases hSkips tokens last hRead 0 peeked
          (Reaches.start.peek hPeek) with
        ⟨hOffset, _, hSkip⟩
      rcases hSkip 3 ⟨0, 3⟩ (Nat.zero_le 3) hCount
          (by rw [hOffset, hTake]; rfl) with
        ⟨skipped, behind, hSkipped, hRest⟩
      refine ⟨hSorted, hRoom, seen, peeked, skipped,
        tokens.drop 3, behind, rfl, hSkipped, hRest, ?_⟩
      rw [List.map_drop, hLengths]
      rfl

end TokenStream

end Bracketry
