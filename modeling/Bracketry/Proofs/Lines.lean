import Bracketry.Proofs.Tables

/-
  Tokens that are read line by line.

  The marks of a line are the brackets that can be read in
  it from a column on, with their columns.  A reader that
  stands in a text is never refused.  Each token that it
  reads is the next mark, or text without any mark, and the
  reader stands behind it then.

  Key definitions include:
    * `LineReader.marksOn`
    * `LineSource.HasPlace`
    * `LineReader.Follows`, `LineReader.ahead`

  Main declarations:
    * `LineReader.scanSpans_spec`
    * `LineReader.read_spec`
-/

------------------------------------------------------------
-- Brackets of a Table
------------------------------------------------------------

namespace Bracketry

namespace Token

/- A bracket on one line, with a width. -/
structure IsLiteral
    (token : Token) :
    Prop where
  isBracket : token.isBracket = true
  regular : token.IsRegular
  lines : token.length.lines = 0
  columns : 0 < token.length.columns

theorem IsLiteral.ne_zero
    {token : Token}
    (h : token.IsLiteral) :
    token.length ≠ 0 := by
  have hColumns := h.columns
  intro hZero
  rw [hZero] at hColumns
  exact Nat.lt_irrefl 0 hColumns

theorem IsLiteral.length_eq
    {token : Token}
    (h : token.IsLiteral) :
    token.length = ⟨0, token.length.columns⟩ :=
  Length.ext h.lines rfl

end Token

namespace TokenTable

/- The entries have literals that are not empty. -/
def IsSolid
    (table : TokenTable) :
    Prop :=
  ∀ entry ∈ table.entries,
    entry.key ≠ [] ∧ entry.token.IsLiteral

/- What is found for a text is an entry. -/
theorem exists_of_token?
    {table : TokenTable}
    {found : List Char}
    {token : Token}
    (h : table.token? found = some token) :
    ∃ entry ∈ table.entries, entry.token = token := by
  unfold token? entry? at h
  split at h
  · rename_i entry hEntry
    exact ⟨entry, List.mem_of_find?_eq_some hEntry,
      Option.some.inj h⟩
  · rcases Option.map_eq_some_iff.1 h with
      ⟨entry, hEntry, hToken⟩
    exact ⟨entry, List.mem_of_find?_eq_some hEntry, hToken⟩

/- A match that is a token is as wide as the token. -/
theorem of_tokenOfMatch?
    {table : TokenTable}
    {found : List Char}
    {token : Token}
    (h : table.tokenOfMatch? found = some token) :
    table.token? found = some token ∧
      token.length.columns = Text.byteSize found := by
  unfold tokenOfMatch? at h
  split at h
  · split_ifs at h with hSize
    rcases Option.some.inj h with rfl
    rename_i hToken
    exact ⟨hToken, hSize⟩
  · cases h

theorem IsSolid.isLiteral
    {table : TokenTable}
    {found : List Char}
    {token : Token}
    (hSolid : table.IsSolid)
    (h : table.tokenOfMatch? found = some token) :
    token.IsLiteral := by
  rcases exists_of_token? (of_tokenOfMatch? h).1 with
    ⟨entry, hEntry, rfl⟩
  exact (hSolid entry hEntry).2

end TokenTable

end Bracketry

------------------------------------------------------------
-- Cuts of a Text
------------------------------------------------------------

namespace Bracketry

namespace Text

@[simp] theorem byteSize_nil :
    byteSize [] = 0 :=
  rfl

/- A text can be cut behind any part of it. -/
theorem splitAt?_append
    (before after : List Char) :
    splitAt? (byteSize before) (before ++ after) =
      some (before, after) := by
  induction before with
  | nil => cases after <;> rfl
  | cons c rest ih =>
      have hPos := Char.utf8Size_pos c
      rw [List.cons_append, splitAt?, byteSize,
        if_neg (by omega), if_neg (by omega),
        Nat.add_sub_cancel_left, ih]

/- Each text is cut at one place by an offset. -/
theorem splitAt?_eq_some
    {offset : Nat}
    {text before after : List Char} :
    splitAt? offset text = some (before, after) ↔
      text = before ++ after ∧ byteSize before = offset := by
  constructor
  · exact eq_append_of_splitAt?
  · rintro ⟨rfl, rfl⟩
    exact splitAt?_append before after

end Text

namespace Pattern

/- The character in front, once one more is passed. -/
theorem getLast?_cons_or
    (c : Char)
    (rest : List Char)
    (before : Option Char) :
    (c :: rest).getLast?.or before =
      rest.getLast?.or (some c) := by
  rw [List.getLast?_cons, Option.some_or, Option.or_some]

/- What is in front of a match, and the match itself. -/
theorem exists_of_find?
    {literals : List (List Char)}
    {before : Option Char}
    {text : List Char}
    {match_ : Found}
    (h : find? literals before text = some match_) :
    ∃ rest,
      text = match_.skipped ++ (match_.found ++ rest) ∧
        firstAt? literals
            (match_.skipped.getLast?.or before)
            (match_.found ++ rest) =
          some (match_.found, rest) := by
  induction text generalizing before match_ with
  | nil => cases h
  | cons c others ih =>
      unfold find? at h
      split at h
      · rename_i found rest hFirst
        rcases Option.some.inj h with rfl
        have hText : c :: others = found ++ rest :=
          (exists_of_firstAt? hFirst).1
        refine ⟨rest, hText, ?_⟩
        rw [← hText]
        exact hFirst
      · rename_i hNone
        split at h
        · rename_i later hLater
          rcases Option.some.inj h with rfl
          rcases ih hLater with ⟨rest, hText, hFirst⟩
          refine ⟨rest, by simp [hText], ?_⟩
          rw [getLast?_cons_or]
          exact hFirst
        · cases h

/- A match is found again from where it stands. -/
theorem find?_of_firstAt?
    {literals : List (List Char)}
    {before : Option Char}
    {found rest : List Char}
    (hSome : found ≠ [])
    (h :
      firstAt? literals before (found ++ rest) =
        some (found, rest)) :
    find? literals before (found ++ rest) =
      some ⟨[], found⟩ := by
  rcases List.exists_cons_of_ne_nil hSome with ⟨c, others, rfl⟩
  rw [List.cons_append] at h ⊢
  rw [find?, h]

end Pattern

end Bracketry

------------------------------------------------------------
-- Marks of a Line
------------------------------------------------------------

namespace Bracketry

namespace LineReader

/- A bracket that is found lies in the searched columns. -/
theorem findBracket?_spec
    {table : TokenTable}
    {line : List Char}
    {start stop skipped : Nat}
    {token : Token}
    (hSolid : table.IsSolid)
    (h :
      findBracket? table line start stop =
        some (skipped, token)) :
    token.IsLiteral ∧
      start + skipped + token.length.columns ≤ stop ∧
      stop ≤ Text.byteSize line ∧
      findBracket? table line (start + skipped) stop =
        some (0, token) := by
  simp only [findBracket?, Option.bind_eq_bind,
    Option.bind_eq_some_iff, Prod.exists, Option.pure_def,
    Option.some.injEq, Prod.mk.injEq] at h
  rcases h with
    ⟨searched, beyond, hStop, before, rest, hStart, match_,
      hFind, token, hToken, rfl, rfl⟩
  rcases Text.splitAt?_eq_some.1 hStop with ⟨rfl, rfl⟩
  rcases Text.splitAt?_eq_some.1 hStart with ⟨rfl, rfl⟩
  rcases Pattern.exists_of_find? hFind with
    ⟨others, rfl, hFirst⟩
  rcases TokenTable.of_tokenOfMatch? hToken with ⟨_, hSize⟩
  have hLiteral := hSolid.isLiteral hToken
  have hPos := hLiteral.columns
  have hSome : match_.found ≠ [] := by
    intro hNil
    rw [hSize, hNil] at hPos
    exact Nat.lt_irrefl 0 hPos
  refine ⟨hLiteral, ?_, ?_, ?_⟩
  · simp only [Text.byteSize_append, hSize]
    omega
  · simp only [Text.byteSize_append]
    omega
  · rw [findBracket?, hStop]
    have hCut :
        Text.splitAt?
            (Text.byteSize before +
              Text.byteSize match_.skipped)
            (before ++ (match_.skipped ++
              (match_.found ++ others))) =
          some (before ++ match_.skipped,
            match_.found ++ others) := by
      rw [← Text.byteSize_append, ← List.append_assoc]
      exact Text.splitAt?_append _ _
    have hAgain :
        Pattern.find? table.literals
            (match_.skipped.getLast?.or before.getLast?)
            (match_.found ++ others) =
          some ⟨[], match_.found⟩ :=
      Pattern.find?_of_firstAt? hSome hFirst
    simp [hCut, hAgain, hToken, List.getLast?_append]

/- The brackets in some columns of a line. -/
def marksBetween
    (table : TokenTable)
    (line : List Char)
    (start stop : Nat) :
    List (Nat × Token) :=
  match findBracket? table line start stop with
  | none => []
  | some (skipped, token) =>
      if start < stop ∧ 0 < token.length.columns then
        (start + skipped, token) ::
          marksBetween table line
            (start + skipped + token.length.columns) stop
      else []
termination_by stop - start

/- The brackets of a line from a column of some spans on. -/
def marksOn
    (table : TokenTable)
    (line : List Char)
    (column : Nat) :
    List Span → List (Nat × Token)
  | [] => []
  | span :: rest =>
      if rest.head?.any (·.kind = span.kind) then
        marksOn table line column rest
      else
        let stop :=
          match rest.head? with
          | some next => min next.column (width line)
          | none => width line
        (if span.kind = .other then
          marksBetween table line column stop
        else []) ++
          marksOn table line (max column stop) rest

variable {table : TokenTable} {line : List Char}

/- Nothing is marked where nothing is searched. -/
theorem marksBetween_of_le
    {start stop : Nat}
    (h : stop ≤ start) :
    marksBetween table line start stop = [] := by
  unfold marksBetween
  split
  · rfl
  · rw [if_neg (by omega)]

theorem marksBetween_of_none
    {start stop : Nat}
    (h : findBracket? table line start stop = none) :
    marksBetween table line start stop = [] := by
  unfold marksBetween
  rw [h]

/- The first mark is what is found first. -/
theorem marksBetween_of_some
    {start stop skipped : Nat}
    {token : Token}
    (hSolid : table.IsSolid)
    (h :
      findBracket? table line start stop =
        some (skipped, token)) :
    marksBetween table line start stop =
        (start + skipped, token) ::
          marksBetween table line
            (start + skipped + token.length.columns) stop ∧
      marksBetween table line (start + skipped) stop =
        marksBetween table line start stop := by
  rcases findBracket?_spec hSolid h with
    ⟨hLiteral, hStop, _, hAgain⟩
  have hColumns := hLiteral.columns
  have hFirst :
      marksBetween table line start stop =
        (start + skipped, token) ::
          marksBetween table line
            (start + skipped + token.length.columns) stop := by
    rw [marksBetween, h]
    simp only
    rw [if_pos ⟨by omega, hColumns⟩]
  refine ⟨hFirst, ?_⟩
  rw [hFirst, marksBetween, hAgain]
  simp only [Nat.add_zero]
  rw [if_pos ⟨by omega, hColumns⟩]

/-
  What a scan of spans finds, given how many columns it may
  still scan: a bracket is the next mark, and otherwise
  nothing is marked up to where the scan stops.
-/
def ScansTo
    (table : TokenTable)
    (line : List Char)
    (column : Nat)
    (spans : List Span) :
    SpanScan → Prop
  | .bracket stop token left =>
      column ≤ stop ∧
        stop + token.length.columns ≤ width line ∧
        token.IsLiteral ∧ left ≠ [] ∧
        marksOn table line column spans =
          marksOn table line stop left ∧
        marksOn table line stop left =
          (stop, token) ::
            marksOn table line
              (stop + token.length.columns) left ∧
        ∀ later ≥ stop,
          marksOn table line later spans =
            marksOn table line later left
  | .full stop left =>
      column < stop ∧ stop ≤ width line ∧
        (left ≠ [] ∨ stop = width line) ∧
        marksOn table line column spans =
          marksOn table line stop left ∧
        ∀ later ≥ stop,
          marksOn table line later spans =
            marksOn table line later left
  | .lineEnd stop scanned =>
      stop = width line ∧
        marksOn table line column spans = [] ∧
        scanned ≤ hardLimit

/- A scan from later spans is one from earlier spans. -/
theorem ScansTo.ofLater
    {column next : Nat}
    {spans others : List Span}
    {result : SpanScan}
    (hColumn : column ≤ next)
    (hMarks :
      marksOn table line column spans =
        marksOn table line next others)
    (hLater :
      ∀ later ≥ next,
        marksOn table line later spans =
          marksOn table line later others)
    (h : ScansTo table line next others result) :
    ScansTo table line column spans result := by
  cases result with
  | bracket stop token left =>
      rcases h with
        ⟨hNext, hStop, hLiteral, hSome, hSame, hFirst, hOthers⟩
      refine ⟨Nat.le_trans hColumn hNext, hStop, hLiteral, hSome,
        hMarks.trans hSame, hFirst, ?_⟩
      intro later hBehind
      rw [hLater later (Nat.le_trans hNext hBehind),
        hOthers later hBehind]
  | full stop left =>
      rcases h with ⟨hNext, hStop, hSome, hSame, hOthers⟩
      refine ⟨Nat.lt_of_le_of_lt hColumn hNext, hStop, hSome,
        hMarks.trans hSame, ?_⟩
      intro later hBehind
      rw [hLater later
          (Nat.le_trans (Nat.le_of_lt hNext) hBehind),
        hOthers later hBehind]
  | lineEnd stop scanned =>
      exact ⟨h.1, hMarks.trans h.2.1, h.2.2⟩

/- Where a span ends that does not go on as the next. -/
def spanStop
    (line : List Char)
    (rest : List Span) :
    Nat :=
  match rest.head? with
  | some next => min next.column (width line)
  | none => width line

theorem spanStop_le
    (line : List Char)
    (rest : List Span) :
    spanStop line rest ≤ width line := by
  unfold spanStop
  split
  · exact Nat.min_le_right _ _
  · exact Nat.le_refl _

theorem marksOn_cons
    (table : TokenTable)
    (line : List Char)
    (column : Nat)
    (span : Span)
    (rest : List Span) :
    marksOn table line column (span :: rest) =
      if rest.head?.any (·.kind = span.kind) then
        marksOn table line column rest
      else
        (if span.kind = .other then
          marksBetween table line column (spanStop line rest)
        else []) ++
          marksOn table line
            (max column (spanStop line rest)) rest :=
  rfl

/- Behind a span, its marks do not count. -/
theorem marksOn_behind
    {column : Nat}
    {span : Span}
    {rest : List Span}
    (h : spanStop line rest ≤ column) :
    marksOn table line column (span :: rest) =
      marksOn table line column rest := by
  rw [marksOn_cons, marksBetween_of_le h, Nat.max_eq_left h]
  simp

theorem scanSpans_cons
    (column scanned : Nat)
    (span : Span)
    (rest : List Span) :
    scanSpans table line column scanned (span :: rest) =
      if rest.head?.any (·.kind = span.kind) then
        scanSpans table line column scanned rest
      else
        match
          (if span.kind = .other ∧
              column < spanStop line rest then
            findBracket? table line column
              (spanStop line rest)
          else none) with
        | some (skipped, token) =>
            .ok (.bracket (column + skipped) token
              (span :: rest))
        | none =>
            checkedSum scanned (spanStop line rest - column) >>=
              fun scanned =>
                let column := max column (spanStop line rest)
                if hardLimit < scanned then
                  .ok (.full column rest)
                else scanSpans table line column scanned rest :=
  rfl

section Stretch

variable {column : Nat} {span : Span} {rest : List Span}

/- A bracket that is found in a span is the next mark. -/
theorem scansTo_of_found
    {skipped : Nat}
    {token : Token}
    (hSolid : table.IsSolid)
    (hApart : ¬rest.head?.any (·.kind = span.kind) = true)
    (hCode : span.kind = .other)
    (hLess : column < spanStop line rest)
    (hFound :
      findBracket? table line column (spanStop line rest) =
        some (skipped, token)) :
    ScansTo table line column (span :: rest)
      (.bracket (column + skipped) token (span :: rest)) := by
  rcases findBracket?_spec hSolid hFound with
    ⟨hLiteral, hEnd, _, _⟩
  rcases marksBetween_of_some hSolid hFound with
    ⟨hFirst, hSame⟩
  have hStop := spanStop_le line rest
  have hMarks :
      ∀ later ≤ spanStop line rest,
        marksOn table line later (span :: rest) =
          marksBetween table line later (spanStop line rest) ++
            marksOn table line (spanStop line rest) rest := by
    intro later hLater
    rw [marksOn_cons, if_neg hApart, if_pos hCode,
      Nat.max_eq_right hLater]
  refine ⟨Nat.le_add_right _ _, by omega, hLiteral, by simp,
    ?_, ?_, fun _ _ => rfl⟩
  · rw [hMarks _ (Nat.le_of_lt hLess), hMarks _ (by omega),
      hSame]
  · rw [hMarks _ (by omega), hMarks _ (by omega), hSame, hFirst,
      List.cons_append]

/- Where no bracket is found in a span, it marks nothing. -/
theorem marksOn_of_none
    (hApart : ¬rest.head?.any (·.kind = span.kind) = true)
    (hFound :
      (if span.kind = .other ∧ column < spanStop line rest then
        findBracket? table line column (spanStop line rest)
      else none) = none) :
    marksOn table line column (span :: rest) =
      marksOn table line (max column (spanStop line rest))
        rest := by
  rw [marksOn_cons, if_neg hApart]
  split_ifs with hCode
  · by_cases hLess : column < spanStop line rest
    · rw [if_pos ⟨hCode, hLess⟩] at hFound
      rw [marksBetween_of_none hFound, List.nil_append]
    · rw [marksBetween_of_le (Nat.not_lt.1 hLess),
        List.nil_append]
  · rw [List.nil_append]

/- The last span ends with the line. -/
theorem ne_nil_or_max_spanStop_eq
    (h : column ≤ width line) :
    rest ≠ [] ∨ max column (spanStop line rest) = width line := by
  cases rest with
  | nil => exact .inr (Nat.max_eq_right h)
  | cons next others => exact .inl (by simp)

end Stretch

/-
  A scan of spans finds what it should, unless the columns
  up to the end of the line are too many to be added.
-/
theorem scanSpans_spec
    {column scanned : Nat}
    {spans : List Span}
    (hSolid : table.IsSolid)
    (hColumn : column ≤ width line)
    (hScanned : scanned ≤ hardLimit)
    (hSpans : spans ≠ [] ∨ column = width line) :
    (∃ result,
        scanSpans table line column scanned spans =
            .ok result ∧
          ScansTo table line column spans result) ∨
      (scanSpans table line column scanned spans =
          .error .overflow ∧
        countLimit ≤ scanned + (width line - column)) := by
  induction spans generalizing column scanned with
  | nil =>
      exact .inl ⟨_, rfl, hSpans.resolve_left (by simp), rfl,
        hScanned⟩
  | cons span rest ih =>
      have hStop := spanStop_le line rest
      rw [scanSpans_cons]
      by_cases hMerged :
          rest.head?.any (·.kind = span.kind) = true
      · rw [if_pos hMerged]
        have hRest : rest ≠ [] := by
          rintro rfl
          cases hMerged
        have hSame :
            ∀ later,
              marksOn table line later (span :: rest) =
                marksOn table line later rest := by
          intro later
          rw [marksOn_cons, if_pos hMerged]
        rcases ih hColumn hScanned (.inl hRest) with
          ⟨result, hResult, hScans⟩ | hMany
        · exact .inl ⟨result, hResult,
            hScans.ofLater (Nat.le_refl _) (hSame column)
              (fun later _ => hSame later)⟩
        · exact .inr hMany
      · rw [if_neg hMerged]
        split
        · rename_i skipped token hFound
          split_ifs at hFound with hCode
          exact .inl ⟨_, rfl,
            scansTo_of_found hSolid hMerged hCode.1 hCode.2
              hFound⟩
        · rename_i hFound
          have hMarks := marksOn_of_none hMerged hFound
          have hEnds :=
            @ne_nil_or_max_spanStop_eq line column rest hColumn
          have hLater :
              ∀ later ≥ max column (spanStop line rest),
                marksOn table line later (span :: rest) =
                  marksOn table line later rest := by
            intro later hBehind
            exact marksOn_behind
              (Nat.le_trans (Nat.le_max_right _ _) hBehind)
          rcases checkedSum_cases scanned
              (spanStop line rest - column) with
            ⟨_, hSum⟩ | ⟨hMany, hSum⟩
          · simp only [hSum, bind, Except.bind]
            split_ifs with hFull
            · exact .inl ⟨_, rfl, by omega, by omega, hEnds,
                hMarks, hLater⟩
            · have hLess := Nat.not_lt.1 hFull
              rcases ih (by omega) hLess hEnds with
                ⟨result, hResult, hScans⟩ | ⟨hError, hMany⟩
              · exact .inl ⟨result, hResult,
                  hScans.ofLater (Nat.le_max_left _ _) hMarks
                    hLater⟩
              · exact .inr ⟨hError, by omega⟩
          · simp only [hSum, bind, Except.bind]
            exact .inr ⟨trivial, by omega⟩

end LineReader

end Bracketry

------------------------------------------------------------
-- Readers in a Text
------------------------------------------------------------

namespace Bracketry

namespace LineSource

/- The place lies on a line of the content. -/
def HasPlace
    (source : LineSource)
    (place : Position) :
    Prop :=
  place.lines ≤ source.lastLine ∧
    place.columns ≤ source.content.columnCount place.lines

/- A reader that comes to a line can add up its columns. -/
def HasRoom
    (source : LineSource) :
    Prop :=
  ∀ line ≤ source.lastLine,
    source.content.columnCount line +
      LineReader.softLimit < countLimit

instance (source : LineSource) : Decidable source.HasRoom :=
  Nat.decidableBallLE _ _

/- The marks of the line of a place that lie behind it. -/
def marksAt
    (source : LineSource)
    (place : Position) :
    List (Nat × Token) :=
  LineReader.marksOn source.table
    (source.content.line place.lines) place.columns
    (source.spans.onLine place.lines)

end LineSource

namespace LineReader

/- Where a reader stands. -/
def place
    (reader : LineReader) :
    Position :=
  ⟨reader.line, reader.column⟩

/- The marks from a column on that a reader will find. -/
def marksFrom
    (source : LineSource)
    (reader : LineReader)
    (column : Nat) :
    List (Nat × Token) :=
  marksOn source.table (source.content.line reader.line)
    column
    (reader.spans.getD
      (spansAt source reader.line reader.column))

/- The marks that a reader will find on its line. -/
def ahead
    (source : LineSource)
    (reader : LineReader) :
    List (Nat × Token) :=
  reader.marksFrom source reader.column

/-
  A reader on a line, with spans to the end of the line.  A
  bracket that it holds back is the next mark.
-/
structure Follows
    (source : LineSource)
    (reader : LineReader) :
    Prop where
  hasPlace : source.HasPlace reader.place
  spans :
    ∀ spans, reader.spans = some spans →
      spans ≠ [] ∨
        reader.column =
          source.content.columnCount reader.line
  pending :
    ∀ token, reader.pending = some token →
      token.IsLiteral ∧
        reader.column + token.length.columns ≤
          source.content.columnCount reader.line ∧
        (∃ spans, reader.spans = some spans ∧ spans ≠ []) ∧
        reader.ahead source =
          (reader.column, token) ::
            reader.marksFrom source
              (reader.column + token.length.columns)

/- A reader that is put at a place has nothing to keep. -/
theorem follows_ofPosition
    {source : LineSource}
    {place : Position}
    (h : source.HasPlace place) :
    (ofPosition place).Follows source := by
  refine ⟨h, ?_, ?_⟩
  · rintro _ ⟨⟩
  · rintro _ ⟨⟩

/- A reader at the start of a document. -/
theorem follows_start
    (source : LineSource) :
    start.Follows source :=
  @follows_ofPosition source 0
    ⟨Nat.zero_le _, Nat.zero_le _⟩

/- Between two places of a reader, nothing is marked. -/
def IsQuiet
    (source : LineSource)
    (reader after : LineReader) :
    Prop :=
  (after.line = reader.line ∧
    reader.ahead source = after.ahead source) ∨
    (reader.line < after.line ∧ reader.ahead source = [] ∧
      (∀ line, reader.line < line → line < after.line →
        source.marksAt ⟨line, 0⟩ = []) ∧
      source.marksAt ⟨after.line, 0⟩ = after.ahead source)

/- A reader knows the marks that it knew, or all of its line. -/
def Agrees
    (source : LineSource)
    (reader after : LineReader) :
    Prop :=
  ∀ column ≥ after.column,
    after.marksFrom source column =
      if after.line = reader.line then
        reader.marksFrom source column
      else source.marksAt ⟨after.line, column⟩

/- A reader has read a token. -/
structure Passes
    (source : LineSource)
    (reader : LineReader)
    (token : Token)
    (after : LineReader) :
    Prop where
  follows : after.Follows source
  place : after.place = reader.place + token.length
  ne_zero : token.length ≠ 0
  regular : token.IsRegular
  agrees : Agrees source reader after
  marks :
    if token.isBracket then
      after.line = reader.line ∧
        reader.ahead source =
          (reader.column, token) :: after.ahead source
    else IsQuiet source reader after

/- What lies between two places is read as text. -/
theorem textSince_spec
    {start : Position}
    {reader : LineReader}
    (h : start < reader.place) :
    ∃ token,
      textSince start reader = .ok (some token, reader) ∧
        token.isBracket = false ∧ token.length ≠ 0 ∧
        token.IsRegular ∧
        reader.place = start + token.length := by
  have hBetween :
      Length.between start ⟨reader.line, reader.column⟩ =
        start.upTo reader.place :=
    Length.between_eq_upTo h.le
  refine ⟨.text (start.upTo reader.place), ?_, rfl, ?_,
    trivial, (Length.add_upTo h.le).symm⟩
  · unfold textSince
    rw [hBetween]
    simp only
    rw [if_neg]
    intro hZero
    rw [Length.upTo_eq_zero] at hZero
    exact absurd h (not_lt.2 hZero)
  · intro hZero
    rw [Token.length, Length.upTo_eq_zero] at hZero
    exact absurd h (not_lt.2 hZero)

/- Text ends where its reader stands. -/
theorem eq_of_textSince
    {start : Position}
    {reader after : LineReader}
    {result : Option Token}
    (h : textSince start reader = .ok (result, after)) :
    after = reader := by
  unfold textSince at h
  simp only at h
  split_ifs at h
  exact (congrArg Prod.snd (Except.ok.inj h)).symm

theorem marksOn_of_width_le
    {table : TokenTable}
    {line : List Char}
    {column : Nat}
    (spans : List Span)
    (h : width line ≤ column) :
    marksOn table line column spans = [] := by
  induction spans with
  | nil => rfl
  | cons span rest ih =>
      have hStop := spanStop_le line rest
      rw [marksOn_behind (Nat.le_trans hStop h), ih]

theorem onLine_ne_nil
    (table : SpanTable)
    (line : Nat) :
    table.onLine line ≠ [] := by
  unfold SpanTable.onLine
  split <;> simp [Span.plain]

end LineReader

end Bracketry

------------------------------------------------------------
-- Scans over Lines
------------------------------------------------------------

namespace Bracketry

namespace LineReader

variable {source : LineSource}

/- A scan that began at a reader has come to another one. -/
structure Scanning
    (source : LineSource)
    (reader now : LineReader) :
    Prop where
  follows : now.Follows source
  le : reader.place ≤ now.place
  agrees : Agrees source reader now
  quiet : IsQuiet source reader now

/- A scan goes on along its line. -/
theorem Scanning.along
    {reader : LineReader}
    {line column stop : Nat}
    {spans left : List Span}
    {pending : Option Token}
    (h :
      Scanning source reader ⟨line, column, some spans, none⟩)
    (hColumn : column ≤ stop)
    (hFollows :
      Follows source ⟨line, stop, some left, pending⟩)
    (hMarks :
      marksOn source.table (source.content.line line) column
          spans =
        marksOn source.table (source.content.line line) stop
          left)
    (hLater :
      ∀ later ≥ stop,
        marksOn source.table (source.content.line line) later
            spans =
          marksOn source.table (source.content.line line)
            later left) :
    Scanning source reader
      ⟨line, stop, some left, pending⟩ := by
  refine ⟨hFollows, h.le.trans ?_, ?_, ?_⟩
  · rw [Length.le_def]
    exact .inr ⟨rfl, hColumn⟩
  · intro later hBehind
    have hKnown :=
      h.agrees later (Nat.le_trans hColumn hBehind)
    simp only [marksFrom, Option.getD_some] at hKnown ⊢
    rw [← hLater later hBehind]
    exact hKnown
  · have hQuiet := h.quiet
    simp only [IsQuiet, ahead, marksFrom, Option.getD_some]
      at hQuiet ⊢
    rwa [← hMarks]

/- A scan goes on at the next line. -/
theorem Scanning.nextLine
    {reader : LineReader}
    {line column : Nat}
    {spans : List Span}
    (h :
      Scanning source reader ⟨line, column, some spans, none⟩)
    (hLast : line < source.lastLine)
    (hNone :
      marksOn source.table (source.content.line line) column
        spans = []) :
    Scanning source reader
      ⟨line + 1, 0, some (source.spans.onLine (line + 1)),
        none⟩ := by
  have hLine : reader.line ≤ line := by
    have hLe := h.le
    rw [Length.le_def] at hLe
    simp only [place] at hLe
    omega
  refine ⟨⟨⟨hLast, Nat.zero_le _⟩, ?_, by simp⟩, ?_, ?_, ?_⟩
  · rintro _ ⟨⟩
    exact .inl (onLine_ne_nil _ _)
  · refine h.le.trans ?_
    rw [Length.le_def]
    exact .inl (Nat.lt_succ_self line)
  · intro later _
    rw [if_neg (by simp only; omega)]
    rfl
  · have hQuiet := h.quiet
    simp only [IsQuiet, ahead, marksFrom, Option.getD_some,
      hNone] at hQuiet ⊢
    refine .inr ⟨by omega, ?_, ?_, rfl⟩
    · rcases hQuiet with ⟨_, hNil⟩ | ⟨_, hNil, _⟩
      · exact hNil
      · exact hNil
    · intro between hFirst hBetween
      rcases hQuiet with ⟨hSame, _⟩ | ⟨_, _, hOthers, hLine⟩
      · omega
      · by_cases hHere : between = line
        · rw [hHere]
          exact hLine
        · exact hOthers between hFirst (by omega)

/- A scan that has come further has read text. -/
theorem Scanning.passes
    {reader now : LineReader}
    (h : Scanning source reader now)
    (hLess : reader.place < now.place) :
    ∃ token,
      textSince reader.place now = .ok (some token, now) ∧
        Passes source reader token now := by
  rcases textSince_spec hLess with
    ⟨token, hText, hBracket, hZero, hRegular, hPlace⟩
  refine ⟨token, hText, h.follows, hPlace, hZero, hRegular,
    h.agrees, ?_⟩
  rw [hBracket]
  exact h.quiet

theorem columns_le_of_isLast
    {place : Position}
    (h : source.HasPlace place) :
    place ≤ source.length := by
  rcases h with ⟨hLine, hColumn⟩
  rw [Length.le_def, LineSource.length]
  simp only
  by_cases hLast : place.lines = source.lastLine
  · rw [hLast] at hColumn ⊢
    exact .inr ⟨rfl, hColumn⟩
  · left
    omega

/- A bracket ends the token, or is one itself. -/
theorem Scanning.bracket
    {reader : LineReader}
    {line column stop more scanned : Nat}
    {spans left : List Span}
    {token : Token}
    (h :
      Scanning source reader ⟨line, column, some spans, none⟩)
    (hResult :
      scanSpans source.table (source.content.line line) column
        scanned spans = .ok (.bracket stop token left))
    (hScan :
      ScansTo source.table (source.content.line line) column
        spans (.bracket stop token left)) :
    ∃ read after,
      scan source reader.place line column scanned spans
          more = .ok (some read, after) ∧
        Passes source reader read after := by
  rcases hScan with
    ⟨hColumn, hStop, hLiteral, hLeft, hSame, hFirst, hLater⟩
  have hLine : line ≤ source.lastLine :=
    h.follows.hasPlace.1
  have hWidth : token.length.columns > 0 := hLiteral.columns
  have hStopLe :
      stop ≤ source.content.columnCount line :=
    (Nat.le_add_right _ _).trans hStop
  have hHeld :
      Scanning source reader
        ⟨line, stop, some left, some token⟩ := by
    refine h.along hColumn ⟨⟨hLine, hStopLe⟩, ?_, ?_⟩ hSame
      hLater
    · rintro _ ⟨⟩
      exact .inl hLeft
    · rintro _ ⟨⟩
      exact ⟨hLiteral, hStop, ⟨left, rfl, hLeft⟩, hFirst⟩
  have hScanned :
      scan source reader.place line column scanned spans
          more =
        if reader.place = ⟨line, stop⟩ then
          .ok (some token,
            ⟨line, stop + token.length.columns, some left,
              none⟩)
        else
          textSince reader.place
            ⟨line, stop, some left, some token⟩ := by
    unfold scan
    rw [hResult]
  rw [hScanned]
  by_cases hHere : reader.place = ⟨line, stop⟩
  · rw [if_pos hHere]
    rcases Length.mk.inj hHere with ⟨hSameLine, hSameColumn⟩
    refine ⟨token, _, rfl, ⟨⟨hLine, hStop⟩, ?_, by simp⟩, ?_,
      hLiteral.ne_zero, hLiteral.regular, ?_, ?_⟩
    · rintro _ ⟨⟩
      exact .inl hLeft
    · rw [hHere, Length.add_def, if_pos hLiteral.lines]
      rfl
    · intro later hBehind
      have hKnown := hHeld.agrees later
        (Nat.le_trans (Nat.le_add_right _ _) hBehind)
      exact hKnown
    · rw [if_pos hLiteral.isBracket]
      refine ⟨hSameLine.symm, ?_⟩
      rcases hHeld.quiet with ⟨_, hQuiet⟩ | ⟨hLess, _⟩
      · rw [hQuiet, hSameColumn]
        exact hFirst
      · rw [hSameLine] at hLess
        exact absurd hLess (Nat.lt_irrefl _)
  · rw [if_neg hHere]
    rcases hHeld.passes (lt_of_le_of_ne hHeld.le hHere) with
      ⟨read, hRead, hPasses⟩
    exact ⟨read, _, hRead, hPasses⟩

/- A token ends where enough was scanned. -/
theorem Scanning.full
    {reader : LineReader}
    {line column stop more scanned : Nat}
    {spans left : List Span}
    (h :
      Scanning source reader ⟨line, column, some spans, none⟩)
    (hResult :
      scanSpans source.table (source.content.line line) column
        scanned spans = .ok (.full stop left))
    (hScan :
      ScansTo source.table (source.content.line line) column
        spans (.full stop left)) :
    ∃ read after,
      scan source reader.place line column scanned spans
          more = .ok (some read, after) ∧
        Passes source reader read after := by
  rcases hScan with ⟨hColumn, hStop, hLeft, hSame, hLater⟩
  have hNow :
      Scanning source reader
        ⟨line, stop, some left, none⟩ := by
    refine h.along (Nat.le_of_lt hColumn)
      ⟨⟨h.follows.hasPlace.1, hStop⟩, ?_, by simp⟩ hSame
      hLater
    rintro _ ⟨⟩
    exact hLeft
  have hLess :
      reader.place <
        (⟨line, stop, some left, none⟩ : LineReader).place := by
    refine lt_of_le_of_lt h.le ?_
    rw [Length.lt_def]
    exact .inr ⟨rfl, hColumn⟩
  rcases hNow.passes hLess with ⟨read, hRead, hPasses⟩
  refine ⟨read, _, ?_, hPasses⟩
  unfold scan
  rw [hResult]
  cases more <;> exact hRead

/- The last token ends at the end of the last line. -/
theorem Scanning.last
    {reader : LineReader}
    {line column stop total scanned : Nat}
    {spans : List Span}
    (h :
      Scanning source reader ⟨line, column, some spans, none⟩)
    (hEnd : reader.place < source.length)
    (hLast : line = source.lastLine)
    (hResult :
      scanSpans source.table (source.content.line line) column
        scanned spans = .ok (.lineEnd stop total))
    (hScan :
      ScansTo source.table (source.content.line line) column
        spans (.lineEnd stop total)) :
    ∃ read after,
      scan source reader.place line column scanned spans 0 =
          .ok (some read, after) ∧
        Passes source reader read after := by
  rcases hScan with ⟨hStop, hNone, _⟩
  have hColumn : column ≤ stop := by
    rw [hStop]
    exact h.follows.hasPlace.2
  have hNow :
      Scanning source reader ⟨line, stop, some [], none⟩ := by
    refine h.along hColumn
      ⟨⟨Nat.le_of_eq hLast, Nat.le_of_eq hStop⟩, ?_,
        by simp⟩ hNone ?_
    · rintro _ ⟨⟩
      exact .inr hStop
    · intro later hBehind
      rw [hStop] at hBehind
      rw [marksOn_of_width_le spans hBehind]
      rfl
  have hLess :
      reader.place <
        (⟨line, stop, some [], none⟩ : LineReader).place := by
    have hPlace :
        (⟨line, stop, some [], none⟩ : LineReader).place =
          source.length := by
      rw [place, LineSource.length, hStop, hLast]
      rfl
    rwa [hPlace]
  rcases hNow.passes hLess with ⟨read, hRead, hPasses⟩
  refine ⟨read, _, ?_, hPasses⟩
  unfold scan
  rw [hResult]
  exact hRead

/- A scan is refused with the scan of its first spans. -/
theorem scan_of_error
    {start : Position}
    {line column scanned more : Nat}
    {spans : List Span}
    {fault : Fault}
    (h :
      scanSpans source.table (source.content.line line) column
        scanned spans = .error fault) :
    scan source start line column scanned spans more =
      .error fault := by
  unfold scan
  rw [h]

/-
  The spans of a line are scanned, unless the line has too
  many columns to be added to what was scanned before it.
-/
theorem Scanning.scanSpans
    {reader : LineReader}
    {line column scanned : Nat}
    {spans : List Span}
    (hSolid : source.table.IsSolid)
    (hScanned : scanned ≤ softLimit)
    (h :
      Scanning source reader
        ⟨line, column, some spans, none⟩) :
    (∃ result,
        LineReader.scanSpans source.table
            (source.content.line line) column scanned spans =
          .ok result ∧
          ScansTo source.table (source.content.line line)
            column spans result) ∨
      (LineReader.scanSpans source.table
            (source.content.line line) column scanned spans =
          .error .overflow ∧
        ¬source.HasRoom) := by
  have hColumn : column ≤ width (source.content.line line) :=
    h.follows.hasPlace.2
  rcases scanSpans_spec hSolid hColumn
      (hScanned.trans (by decide))
      (h.follows.spans spans rfl) with
    hResult | ⟨hError, hMany⟩
  · exact .inl hResult
  · refine .inr ⟨hError, fun hRoom => ?_⟩
    have hHere :
        width (source.content.line line) + softLimit <
          countLimit :=
      hRoom line h.follows.hasPlace.1
    omega

/-
  A scan from a place in front of the end reads a token,
  unless a line has too many columns.  The induction is on
  the lines that follow; what was scanned when a line begins
  is at most the soft limit.
-/
theorem scan_spec
    (reader : LineReader)
    {line column scanned more : Nat}
    {spans : List Span}
    (hSolid : source.table.IsSolid)
    (hEnd : reader.place < source.length)
    (hMore : line + more = source.lastLine)
    (hScanned : scanned ≤ softLimit)
    (h :
      Scanning source reader
        ⟨line, column, some spans, none⟩) :
    (∃ token after,
        scan source reader.place line column scanned spans
            more = .ok (some token, after) ∧
          Passes source reader token after) ∨
      (scan source reader.place line column scanned spans
          more = .error .overflow ∧
        ¬source.HasRoom) := by
  induction more generalizing line column scanned spans with
  | zero =>
      rcases h.scanSpans hSolid hScanned with
        ⟨stop | stop | stop, hResult, hScan⟩ | ⟨hError, hFull⟩
      · exact .inl (h.bracket hResult hScan)
      · exact .inl (h.full hResult hScan)
      · exact .inl (h.last hEnd hMore hResult hScan)
      · exact .inr ⟨scan_of_error hError, hFull⟩
  | succ more ih =>
      rcases h.scanSpans hSolid hScanned with
        ⟨stop | stop | ⟨stop, total⟩, hResult, hScan⟩ |
          ⟨hError, hFull⟩
      · exact .inl (h.bracket hResult hScan)
      · exact .inl (h.full hResult hScan)
      · have hNext := h.nextLine (by omega) hScan.2.1
        have hTotal := hScan.2.2
        have hSum :
            checkedSum total lineBreakWeight =
              .ok (total + lineBreakWeight) := by
          refine checkedSum_eq_ok_iff.2 ⟨?_, rfl⟩
          unfold hardLimit at hTotal
          unfold lineBreakWeight countLimit
          omega
        unfold scan
        simp only [hResult, hSum, bind, Except.bind]
        by_cases hSoft : softLimit < total + lineBreakWeight
        · rw [if_pos hSoft]
          rcases hNext.passes (lt_of_le_of_lt h.le (by
              rw [Length.lt_def]
              exact .inl (Nat.lt_succ_self line))) with
            ⟨read, hRead, hPasses⟩
          exact .inl ⟨read, _, hRead, hPasses⟩
        · rw [if_neg hSoft]
          exact ih (by omega) (Nat.not_lt.1 hSoft) hNext
      · exact .inr ⟨scan_of_error hError, hFull⟩

end LineReader

end Bracketry

------------------------------------------------------------
-- Reads
------------------------------------------------------------

namespace Bracketry

namespace LineReader

variable {source : LineSource}

/- Halving a window stays inside it. -/
theorem bisectFrom_lt
    (entries : List Span)
    (isBefore : Span → Bool)
    (fuel base : Nat)
    {size : Nat}
    (hSize : 0 < size)
    (hWindow : base + size ≤ entries.length) :
    bisectFrom isBefore entries fuel base size <
      entries.length := by
  induction fuel generalizing base size with
  | zero =>
      rw [bisectFrom]
      omega
  | succ fuel ih =>
      rw [bisectFrom]
      split_ifs with hSmall
      · omega
      · simp only
        split_ifs
        · exact ih _ (by omega) (by omega)
        · exact ih _ (by omega) (by omega)

/- The spans of a column are not all dropped. -/
theorem spansAt_ne_nil
    (line column : Nat) :
    spansAt source line column ≠ [] := by
  have hSome := onLine_ne_nil source.spans line
  have hPos := List.length_pos_of_ne_nil hSome
  have hIndex :
      Span.indexAt (source.spans.onLine line) column <
        (source.spans.onLine line).length := by
    have hBase :=
      bisectFrom_lt (source.spans.onLine line)
        (fun span => span.column ≤ column)
        (source.spans.onLine line).length 0 hPos (by omega)
    rw [Span.indexAt, bisect]
    split_ifs <;> omega
  unfold spansAt
  simp only [ne_eq, List.drop_eq_nil_iff]
  omega

/-
  A reader reads a token unless it stands at the end, or a
  line has too many columns.
-/
theorem read_spec
    {reader : LineReader}
    (hSolid : source.table.IsSolid)
    (h : reader.Follows source) :
    (reader.place = source.length ∧
        reader.read source = .ok (none, reader)) ∨
      (∃ token after,
        reader.read source = .ok (some token, after) ∧
          Passes source reader token after) ∨
      (reader.read source = .error .overflow ∧
        ¬source.HasRoom) := by
  have hLine := h.hasPlace.1
  have hSpans := h.spans
  rcases reader with ⟨line, column, spans, pending⟩
  cases pending with
  | some token =>
      rcases h.pending token rfl with
        ⟨hLiteral, hStop, ⟨left, hLeft, hSome⟩, hAhead⟩
      simp only at hLeft
      subst hLeft
      refine .inr (.inl ⟨token, ⟨line,
        column + token.length.columns, some left, none⟩, rfl,
        ⟨⟨hLine, hStop⟩, ?_, by simp⟩, ?_, hLiteral.ne_zero,
        hLiteral.regular, ?_, ?_⟩)
      · rintro _ ⟨⟩
        exact .inl hSome
      · rw [Length.add_def, if_pos hLiteral.lines]
        rfl
      · intro later _
        rw [if_pos rfl]
        rfl
      · rw [if_pos hLiteral.isBracket]
        exact ⟨rfl, hAhead⟩
  | none =>
      by_cases hEnd :
          source.length ≤ (⟨line, column⟩ : Position)
      · refine .inl ⟨le_antisymm
          (columns_le_of_isLast h.hasPlace) hEnd, ?_⟩
        unfold read
        simp only
        rw [if_pos hEnd]
      · right
        unfold read
        simp only
        rw [if_neg hEnd]
        refine scan_spec ⟨line, column, spans, none⟩
          hSolid (not_le.1 hEnd) ?_ (Nat.zero_le _)
          ⟨⟨h.hasPlace, ?_, by simp⟩, le_refl _, ?_, ?_⟩
        · simp only [place] at hLine
          omega
        · rintro _ ⟨⟩
          cases spans with
          | some known => exact hSpans known rfl
          | none => exact .inl (spansAt_ne_nil line column)
        · intro later _
          rw [if_pos rfl]
          rfl
        · exact .inl ⟨rfl, rfl⟩

/- What such a reader has read, it has passed. -/
theorem Follows.passes
    {reader after : LineReader}
    {token : Token}
    (hSolid : source.table.IsSolid)
    (h : reader.Follows source)
    (hRead : reader.read source = .ok (some token, after)) :
    Passes source reader token after := by
  rcases read_spec hSolid h with
    ⟨_, hEnd⟩ | ⟨_, _, hSame, hPasses⟩ | ⟨hError, _⟩
  · rw [hRead] at hEnd
    cases hEnd
  · rw [hRead] at hSame
    cases hSame
    exact hPasses
  · rw [hRead] at hError
    cases hError

/- Where no line has too many columns, nothing is refused. -/
theorem read_of_hasRoom
    {reader : LineReader}
    (hRoom : source.HasRoom)
    (hSolid : source.table.IsSolid)
    (h : reader.Follows source) :
    (reader.place = source.length ∧
        reader.read source = .ok (none, reader)) ∨
      ∃ token after,
        reader.read source = .ok (some token, after) ∧
          Passes source reader token after := by
  rcases read_spec hSolid h with hEnd | hToken | ⟨_, hFull⟩
  · exact .inl hEnd
  · exact .inr hToken
  · exact absurd hRoom hFull

end LineReader

end Bracketry
