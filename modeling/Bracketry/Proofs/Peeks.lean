import Bracketry.Proofs.ByteReading
import Bracketry.Proofs.Scans

/-
  Reading a document to its end, with and without peeks.

  Whatever its classification is, a document is read as
  tokens that cover it, none of them empty.  A bracket among
  them lies over its literal.  A peek tells what the next
  read gives, and changes neither that read nor the offset.
  Only a line with too many columns to be added up is
  refused, and lines that are too many to be counted are not
  all read.

  Key definitions include:
    * `LineSource.rank`
    * `Placed.IsOver`
    * `LineReader.Delivers`
    * `TokenStream.turns`

  Main declarations:
    * `TokenStream.peeks_spec`
    * `LineReader.exists_readUpTo`
    * `LineReader.Delivers.turns_eq`
    * `TokenStream.readAll_turns_of_isCounted`
-/

------------------------------------------------------------
-- Places of a Source
------------------------------------------------------------

namespace Bracketry

namespace LineAccess

variable {access : LineAccess}

theorem bytesBefore_mono
    {line later : Nat}
    (h : line ≤ later) :
    access.bytesBefore line ≤ access.bytesBefore later := by
  induction h with
  | refl => exact Nat.le_refl _
  | step _ ih => exact ih.trans (Nat.le_add_right _ _)

end LineAccess

namespace LineSource

variable {source : LineSource} {place later : Position}

theorem lastLine_lt
    (source : LineSource) :
    source.lastLine < countLimit := by
  have hCount : source.content.lineCount < countLimit :=
    wrapCount_lt _
  unfold lastLine
  omega

/- Each place on a line has 32-bit counts. -/
theorem HasPlace.fits
    (h : source.HasPlace place) :
    place.Fits :=
  ⟨h.1.trans_lt source.lastLine_lt,
    h.2.trans_lt (wrapCount_lt _)⟩

/- The number of places in front of a place. -/
def rank
    (source : LineSource)
    (place : Position) :
    Nat :=
  source.content.access.bytesBefore place.lines +
    place.columns

/- A later place has more places in front of it. -/
theorem HasPlace.rank_lt
    (hPlace : source.HasPlace place)
    (h : place < later) :
    source.rank place < source.rank later := by
  unfold rank
  rcases Length.lt_def.1 h with hLine | ⟨hLine, hColumn⟩
  · have hNext :
        source.content.access.bytesBefore (place.lines + 1) ≤
          source.content.access.bytesBefore later.lines :=
      LineAccess.bytesBefore_mono hLine
    have hWidth :
        place.columns ≤
          source.content.access.columnCount place.lines :=
      hPlace.2
    rw [LineAccess.bytesBefore] at hNext
    omega
  · rw [hLine]
    omega

/- No place is behind the end. -/
theorem HasPlace.rank_le
    (hPlace : source.HasPlace place) :
    source.rank place ≤ source.rank source.length := by
  rcases (LineReader.columns_le_of_isLast hPlace).lt_or_eq with
    hLess | rfl
  · exact (hPlace.rank_lt hLess).le
  · exact Nat.le_refl _

/- The lines up to a line are no longer than their texts. -/
theorem bytesBefore_le
    (content : Content)
    {count : Nat}
    (hCount : count ≤ content.lines.length) :
    content.access.bytesBefore count ≤
      ((content.lines.take count).map fun line =>
        Text.byteSize line.text + 1).sum := by
  induction count with
  | zero => exact Nat.zero_le _
  | succ count ih =>
      have hLine := List.getElem?_eq_getElem hCount
      have hWidth :
          content.access.columnCount count ≤
            Text.byteSize (content.lines[count]).text := by
        have hWrap := wrapCount_le
          (Text.byteSize (content.line count))
        rw [Content.line, Line.textAt, hLine] at hWrap
        show wrapCount
          (Text.byteSize (Line.textAt content.lines count)) ≤ _
        rwa [Line.textAt, hLine]
      have hBefore := ih (Nat.le_of_succ_le hCount)
      rw [List.take_add_one, hLine, LineAccess.bytesBefore]
      simp only [Option.toList_some, List.map_append,
        List.map_cons, List.map_nil, List.sum_append,
        List.sum_cons, List.sum_nil]
      omega

/- A stream has room for one token at each place. -/
theorem rank_lt_bound
    (source : LineSource) :
    source.rank source.length <
      (TokenStream.ofLines source).bound := by
  rw [bound_ofLines, rank, length]
  cases hLines : source.content.lines with
  | nil =>
      have hLast : source.lastLine = 0 := by
        rw [lastLine, Content.lineCount, hLines]
        rfl
      rw [hLast, Content.columnCount, hLines]
      show 0 + wrapCount 0 < 2 * 0 + 2
      decide
  | cons first rest =>
      have hCount : source.content.lineCount ≤
          source.content.lines.length :=
        wrapCount_le _
      have hPos : 0 < source.content.lines.length := by
        rw [hLines]
        exact Nat.succ_pos _
      have hBefore :=
        bytesBefore_le source.content
          (show source.lastLine + 1 ≤ _ by
            unfold lastLine
            omega)
      have hWidth :
          source.content.access.columnCount source.lastLine =
            source.content.columnCount source.lastLine :=
        rfl
      have hAll :=
        List.sum_take_add_sum_drop
          (source.content.lines.map fun line =>
            Text.byteSize line.text + 1)
          (source.lastLine + 1)
      rw [LineAccess.bytesBefore, hWidth, List.map_take]
        at hBefore
      rw [← hLines]
      simp only
      omega

end LineSource

end Bracketry

------------------------------------------------------------
-- What a Bracket Lies Over
------------------------------------------------------------

namespace Bracketry

namespace LineReader

/- A token is what the text at a column of a line matches. -/
def IsRead
    (table : TokenTable)
    (line : List Char)
    (column : Nat)
    (token : Token) :
    Prop :=
  ∃ before found behind,
    line = before ++ (found ++ behind) ∧
      Text.byteSize before = column ∧
      table.tokenOfMatch? found = some token

variable {table : TokenTable} {line : List Char}

/- A bracket that is found is a match where it stands. -/
theorem isRead_of_findBracket?
    {start stop skipped : Nat}
    {token : Token}
    (h :
      findBracket? table line start stop =
        some (skipped, token)) :
    IsRead table line (start + skipped) token := by
  simp only [findBracket?, Option.bind_eq_bind,
    Option.bind_eq_some_iff, Prod.exists, Option.pure_def,
    Option.some.injEq, Prod.mk.injEq] at h
  rcases h with
    ⟨searched, beyond, hStop, before, rest, hStart, match_,
      hFind, token, hToken, rfl, rfl⟩
  rcases Text.splitAt?_eq_some.1 hStop with ⟨rfl, rfl⟩
  rcases Text.splitAt?_eq_some.1 hStart with ⟨rfl, rfl⟩
  rcases Pattern.exists_of_find? hFind with ⟨others, rfl, _⟩
  exact ⟨before ++ match_.skipped, match_.found,
    others ++ beyond, by simp [List.append_assoc],
    Text.byteSize_append _ _, hToken⟩

/- The marks between two columns are matches. -/
theorem isRead_of_mem_marksBetween
    {start stop : Nat} :
    ∀ mark ∈ marksBetween table line start stop,
      IsRead table line mark.1 mark.2 := by
  fun_induction marksBetween table line start stop with
  | case1 start hNone => exact List.forall_mem_nil _
  | case2 start skipped token hFound hLess ih =>
      rw [List.forall_mem_cons]
      exact ⟨isRead_of_findBracket? hFound, ih⟩
  | case3 start skipped token hFound hLess =>
      exact List.forall_mem_nil _

/- The marks of a line are matches. -/
theorem isRead_of_mem_marksOn
    {column : Nat}
    {spans : List Span} :
    ∀ mark ∈ marksOn table line column spans,
      IsRead table line mark.1 mark.2 := by
  induction spans generalizing column with
  | nil => exact List.forall_mem_nil _
  | cons span rest ih =>
      rw [marksOn_cons]
      split_ifs with hMerged hCode
      · exact ih
      · intro mark hMark
        rcases List.mem_append.1 hMark with hHere | hRest
        · exact isRead_of_mem_marksBetween mark hHere
        · exact ih mark hRest
      · rw [List.nil_append]
        exact ih

end LineReader

/- A placed bracket lies over its literal, up to case. -/
structure Placed.IsOver
    (document : Document)
    (placed : Placed)
    (before found behind : List Char)
    (leaf : Bracket) :
    Prop where
  token : ∃ id, placed.token = .bracket leaf id
  line :
    document.line placed.start.lines =
      before ++ (found ++ behind)
  column : Text.byteSize before = placed.start.columns
  length : leaf.length = ⟨0, Text.byteSize found⟩
  literal :
    found = Text.lowercase leaf.kind.literal ∨
      Text.lowercase found = Text.lowercase leaf.kind.literal

namespace TokenTable

/- An entry is keyed by its literal in lower case. -/
theorem key_eq_lowercase
    {brackets : Brackets}
    {entry : TokenEntry}
    (h : entry ∈ (ofBrackets brackets).entries) :
    entry.key = Text.lowercase entry.bracket.kind.literal := by
  rcases exists_of_mem_entries h with
    ⟨kind, _, rfl⟩ | ⟨kind, _, rfl⟩ <;> rfl

/- A match that is a token is its literal, up to case. -/
theorem literal_of_tokenOfMatch?
    {brackets : Brackets}
    {found : List Char}
    {leaf : Bracket}
    {id : Option Nat}
    (h :
      (ofBrackets brackets).tokenOfMatch? found =
        some (.bracket leaf id)) :
    found = Text.lowercase leaf.kind.literal ∨
      Text.lowercase found =
        Text.lowercase leaf.kind.literal := by
  have hToken := (of_tokenOfMatch? h).1
  unfold token? entry? at hToken
  split at hToken
  · rename_i entry hEntry
    rcases Token.bracket.inj (Option.some.inj hToken) with
      ⟨rfl, rfl⟩
    left
    rw [← key_eq_lowercase (List.mem_of_find?_eq_some hEntry)]
    have hSame := List.find?_some hEntry
    exact (beq_iff_eq.1 hSame).symm
  · rcases Option.map_eq_some_iff.1 hToken with
      ⟨entry, hEntry, hSame⟩
    rcases Token.bracket.inj hSame with ⟨rfl, rfl⟩
    right
    rw [← key_eq_lowercase (List.mem_of_find?_eq_some hEntry)]
    have hKey := List.find?_some hEntry
    exact (beq_iff_eq.1 hKey).symm

end TokenTable

end Bracketry

------------------------------------------------------------
-- What a Reader Delivers
------------------------------------------------------------

namespace Bracketry

open Measured

namespace LineReader

variable {source : LineSource} {document : Document}

/- A reader gives some tokens, and nothing behind them. -/
def Delivers
    (source : LineSource)
    (reader : LineReader) :
    List Token → Prop
  | [] =>
      reader.place = source.length ∧
        reader.read source = .ok (none, reader)
  | token :: rest =>
      ∃ after,
        reader.read source = .ok (some token, after) ∧
          Passes source reader token after ∧
          Delivers source after rest

/- What is delivered leads to the end of the content. -/
theorem Delivers.place_add_total
    {reader : LineReader}
    {tokens : List Token}
    (h : Delivers source reader tokens) :
    reader.place + Token.total tokens = source.length := by
  induction tokens generalizing reader with
  | nil => simpa using h.1
  | cons token rest ih =>
      rcases h with ⟨after, _, hPasses, hRest⟩
      rw [Token.total_cons, ← add_assoc, ← hPasses.place]
      exact ih hRest

theorem Delivers.ne_zero
    {reader : LineReader}
    {tokens : List Token}
    (h : Delivers source reader tokens) :
    ∀ token ∈ tokens, token.length ≠ 0 := by
  induction tokens generalizing reader with
  | nil => exact List.forall_mem_nil _
  | cons token rest ih =>
      rcases h with ⟨after, _, hPasses, hRest⟩
      rw [List.forall_mem_cons]
      exact ⟨hPasses.ne_zero, ih hRest⟩

/- A bracket that is passed is a match where it stands. -/
theorem Passes.isRead
    {reader after : LineReader}
    {token : Token}
    (h : Passes source reader token after)
    (hBracket : token.isBracket = true) :
    IsRead source.table (source.content.line reader.line)
      reader.column token := by
  have hMarks := h.marks
  rw [if_pos hBracket] at hMarks
  have hMark :
      (reader.column, token) ∈ reader.ahead source := by
    rw [hMarks.2]
    exact List.mem_cons_self ..
  exact isRead_of_mem_marksOn _ hMark

/- So is one that is delivered. -/
theorem Delivers.isRead
    {reader : LineReader}
    {tokens : List Token}
    (h : Delivers source reader tokens) :
    ∀ placed ∈ Placed.row reader.place tokens,
      placed.token.isBracket = true →
        IsRead source.table
          (source.content.line placed.start.lines)
          placed.start.columns placed.token := by
  induction tokens generalizing reader with
  | nil => exact List.forall_mem_nil _
  | cons token rest ih =>
      rcases h with ⟨after, _, hPasses, hRest⟩
      rw [Placed.row, List.forall_mem_cons, ← hPasses.place]
      exact ⟨hPasses.isRead, ih hRest⟩

end LineReader

end Bracketry

------------------------------------------------------------
-- Peeks
------------------------------------------------------------

namespace Bracketry

/-
  What is seen of a stream in one turn: the token and the
  offset at each peek, and the token and the offset of the
  read behind them.
-/
structure Turn where
  seen : List (Option Token × Position)
  token : Option Token
  offset : Position
deriving DecidableEq

/- The turn with one of some tokens, from a place on. -/
def Turn.told
    (start : Position)
    (tokens : List Token)
    (index count : Nat) :
    Turn :=
  { seen :=
      List.replicate count
        (tokens[index]?,
          start + Token.total (tokens.take index))
    token := tokens[index]?
    offset :=
      start + Token.total (tokens.take (index + 1)) }

/- The turns behind the first tell of what is left. -/
theorem Turn.told_succ
    (start : Position)
    (tokens : List Token) :
    (fun index => told start tokens (index + 1)) =
      told (start + Token.total (tokens.take 1))
        tokens.tail := by
  funext index count
  cases tokens with
  | nil => simp [told]
  | cons token rest => simp [told, add_assoc]

namespace TokenStream

/- Peek so many times. -/
def peeks :
    Nat → TokenStream →
      Checked (List (Option Token × Position) × TokenStream)
  | 0, stream => .ok ([], stream)
  | count + 1, stream => do
      let (token, stream) ← stream.peek
      let (seen, last) ← stream.peeks count
      return ((token, stream.offset) :: seen, last)

/- Peek so many times, and read. -/
def turn
    (count : Nat)
    (stream : TokenStream) :
    Checked (Turn × TokenStream) := do
  let (seen, stream) ← stream.peeks count
  let (token, stream) ← stream.read
  return (⟨seen, token, stream.offset⟩, stream)

/- Take turns, each with its number of peeks. -/
def turns :
    List Nat → TokenStream →
      Checked (List Turn × TokenStream)
  | [], stream => .ok ([], stream)
  | count :: rest, stream => do
      let (turn, stream) ← stream.turn count
      let (others, last) ← stream.turns rest
      return (turn :: others, last)

variable {stream after : TokenStream} {token : Option Token}

/- What is read can be peeked at. -/
theorem exists_peek
    (h : stream.read = .ok (token, after)) :
    ∃ peeked, stream.peek = .ok (token, peeked) := by
  have hPassed :
      ∀ {source first},
        stream.passed source first = .ok (token, after) →
          token = some first := by
    intro source first hPassed
    rcases Checked.bind_eq_ok_iff.1 hPassed with
      ⟨stop, _, hSame⟩
    exact (Prod.mk.inj (Except.ok.inj hSame)).1.symm
  rcases stream with
    ⟨⟨tokens, length⟩ | ⟨source, reader, held⟩, offset⟩
  · cases tokens with
    | nil =>
        rcases Prod.mk.inj (Except.ok.inj h) with ⟨rfl, rfl⟩
        exact ⟨_, rfl⟩
    | cons first rest => exact ⟨_, by rw [hPassed h]; rfl⟩
  · rcases held with _ | _ | first
    · rcases Checked.bind_eq_ok_iff.1 h with
        ⟨⟨read, next⟩, hRead, hRest⟩
      have hToken : token = read := by
        cases read with
        | none =>
            exact (Prod.mk.inj (Except.ok.inj hRest)).1.symm
        | some first => exact hPassed hRest
      subst hToken
      refine ⟨⟨.lines source next (some token), offset⟩, ?_⟩
      simp only [peek, hRead, bind, Except.bind, pure,
        Except.pure]
    · rcases Prod.mk.inj (Except.ok.inj h) with ⟨rfl, rfl⟩
      exact ⟨_, rfl⟩
    · exact ⟨_, by rw [hPassed h]; rfl⟩

/- A peek changes neither the offset nor what is read. -/
theorem peek_spec
    {peeked : TokenStream}
    (h : stream.peek = .ok (token, peeked)) :
    peeked.offset = stream.offset ∧
      peeked.peek = .ok (token, peeked) ∧
      peeked.read = stream.read := by
  rcases stream with
    ⟨⟨tokens, length⟩ | ⟨source, reader, held⟩, offset⟩
  · rcases Prod.mk.inj (Except.ok.inj h) with ⟨rfl, rfl⟩
    exact ⟨rfl, rfl, rfl⟩
  · cases held with
    | some first =>
        rcases Prod.mk.inj (Except.ok.inj h) with ⟨rfl, rfl⟩
        exact ⟨rfl, rfl, rfl⟩
    | none =>
        rcases Checked.bind_eq_ok_iff.1 h with
          ⟨⟨first, next⟩, hRead, hRest⟩
        rcases Prod.mk.inj (Except.ok.inj hRest) with ⟨rfl, rfl⟩
        refine ⟨rfl, rfl, ?_⟩
        rw [TokenStream.read, TokenStream.read]
        simp only [hRead, bind, Except.bind]
        cases first <;> rfl

/- All peeks of a turn tell what is read behind them. -/
theorem peeks_spec
    (count : Nat)
    (h : stream.read = .ok (token, after)) :
    ∃ last,
      stream.peeks count =
          .ok (List.replicate count (token, stream.offset),
            last) ∧
        last.read = .ok (token, after) := by
  induction count generalizing stream with
  | zero => exact ⟨stream, rfl, h⟩
  | succ count ih =>
      rcases exists_peek h with ⟨peeked, hPeek⟩
      rcases peek_spec hPeek with ⟨hOffset, _, hRead⟩
      rcases ih (hRead.trans h) with ⟨last, hPeeks, hLast⟩
      refine ⟨last, ?_, hLast⟩
      rw [peeks, hPeek]
      simp only [bind, Except.bind, hPeeks, hOffset, pure,
        Except.pure, List.replicate_succ]

/- A turn reads what is read without any peek. -/
theorem turn_eq
    (count : Nat)
    (h : stream.read = .ok (token, after)) :
    stream.turn count =
      .ok
        (⟨List.replicate count (token, stream.offset), token,
            after.offset⟩,
          after) := by
  rcases peeks_spec count h with ⟨last, hPeeks, hRead⟩
  rw [turn, hPeeks]
  simp only [bind, Except.bind, hRead, pure, Except.pure]

end TokenStream

namespace LineReader

variable {source : LineSource} {document : Document}
variable {reader : LineReader} {tokens : List Token}

/- A stream of a reader goes on by a token. -/
theorem Passes.read_stream
    {after : LineReader}
    {token : Token}
    (hRead : reader.read source = .ok (some token, after))
    (h : Passes source reader token after) :
    TokenStream.read
        ⟨.lines source reader none, reader.place⟩ =
      .ok
        (some token, ⟨.lines source after none, after.place⟩) := by
  have hFits :
      (reader.place + token.length).Fits := by
    rw [← h.place]
    exact h.follows.hasPlace.fits
  rw [TokenStream.read]
  simp only [hRead, TokenStream.passed,
    Length.plus_eq_ok hFits, bind, Except.bind, pure,
    Except.pure, h.place]

/-
  A stream of a reader reads all that the reader delivers,
  unless a line has too many columns.  The induction is on
  the places that are left, as each token passes some.
-/
theorem exists_readUpTo
    {count : Nat}
    (hSolid : source.table.IsSolid)
    (hReader : reader.Follows source)
    (hCount :
      source.rank source.length <
        source.rank reader.place + count) :
    let stream : TokenStream :=
      ⟨.lines source reader none, reader.place⟩
    (∃ tokens last,
        Delivers source reader tokens ∧
          stream.readUpTo count = .ok (tokens, last) ∧
          last.offset = source.length) ∨
      (stream.readUpTo count = .error .overflow ∧
        ¬source.HasRoom) := by
  intro stream
  induction count generalizing reader with
  | zero =>
      have hLe := hReader.hasPlace.rank_le
      omega
  | succ count ih =>
      rcases read_spec hSolid hReader with
        ⟨hPlace, hRead⟩ | ⟨token, after, hRead, hPasses⟩ |
          ⟨hRead, hFull⟩
      · refine .inl ⟨[], stream, ⟨hPlace, hRead⟩, ?_, hPlace⟩
        rw [TokenStream.readUpTo, TokenStream.read]
        simp only [stream, hRead, bind, Except.bind, pure,
          Except.pure]
      · have hRank :
            source.rank reader.place <
              source.rank after.place := by
          refine hReader.hasPlace.rank_lt ?_
          rw [hPasses.place]
          exact Length.lt_add_right hPasses.ne_zero
        have hNext :
            stream.readUpTo (count + 1) =
              (TokenStream.readUpTo count
                  ⟨.lines source after none, after.place⟩ >>=
                fun found =>
                  .ok (token :: found.1, found.2)) := by
          rw [TokenStream.readUpTo,
            hPasses.read_stream hRead]
          rfl
        rw [hNext]
        rcases ih hPasses.follows (by omega) with
          ⟨tokens, last, hTokens, hLast, hEnd⟩ |
            ⟨hError, hFull⟩
        · refine .inl ⟨token :: tokens, last,
            ⟨after, hRead, hPasses, hTokens⟩, ?_, hEnd⟩
          rw [hLast]
          rfl
        · refine .inr ⟨?_, hFull⟩
          rw [hError]
          rfl
      · refine .inr ⟨?_, hFull⟩
        rw [TokenStream.readUpTo, TokenStream.read]
        simp only [stream, hRead, bind, Except.bind]

/-
  Whatever the numbers of peeks are, the turns tell of the
  tokens in their order, and then of the end.
-/
theorem Delivers.turns_eq
    (counts : List Nat)
    (h : Delivers source reader tokens) :
    ∃ last,
      TokenStream.turns counts
          ⟨.lines source reader none, reader.place⟩ =
        .ok
          (counts.mapIdx (Turn.told reader.place tokens),
            last) := by
  induction counts generalizing reader tokens with
  | nil => exact ⟨_, rfl⟩
  | cons count counts ih =>
      rw [TokenStream.turns, List.mapIdx_cons,
        Turn.told_succ]
      cases tokens with
      | nil =>
          rcases ih h with ⟨last, hOthers⟩
          have hRead :
              TokenStream.read
                  ⟨.lines source reader none,
                    reader.place⟩ =
                .ok
                  (none,
                    ⟨.lines source reader none,
                      reader.place⟩) := by
            rw [TokenStream.read]
            simp only [h.2, bind, Except.bind, pure,
              Except.pure]
          refine ⟨last, ?_⟩
          rw [TokenStream.turn_eq count hRead]
          simp [bind, Except.bind, hOthers, pure, Except.pure,
            Turn.told]
      | cons token rest =>
          rcases h with ⟨after, hRead, hPasses, hRest⟩
          rcases ih hRest with ⟨last, hOthers⟩
          refine ⟨last, ?_⟩
          rw [TokenStream.turn_eq count
            (hPasses.read_stream hRead)]
          simp [bind, Except.bind, hOthers, pure, Except.pure,
            Turn.told, ← hPasses.place]

end LineReader

end Bracketry

------------------------------------------------------------
-- Documents
------------------------------------------------------------

namespace Bracketry

open Measured

namespace TokenStream

/- No more tokens are read than were allowed. -/
theorem length_le_of_readUpTo
    {count : Nat}
    {stream last : TokenStream}
    {tokens : List Token}
    (h : stream.readUpTo count = .ok (tokens, last)) :
    tokens.length ≤ count := by
  induction count generalizing stream tokens with
  | zero =>
      cases h
      exact Nat.le_refl 0
  | succ count ih =>
      rcases Checked.bind_eq_ok_iff.1 h with
        ⟨⟨token, next⟩, _, hRest⟩
      cases token with
      | none =>
          cases hRest
          exact Nat.zero_le _
      | some token =>
          rcases Checked.bind_eq_ok_iff.1 hRest with
            ⟨⟨others, end_⟩, hOthers, hSame⟩
          cases hSame
          exact Nat.succ_le_succ (ih hOthers)

/-
  All that a stream reads is delivered by its reader.  It is
  refused only where a line has too many columns.
-/
theorem exists_readAll
    {source : LineSource}
    (hSolid : source.table.IsSolid) :
    (∃ tokens last,
        LineReader.start.Delivers source tokens ∧
          (ofLines source).readAll = .ok (tokens, last) ∧
          last.offset = source.length) ∨
      ((ofLines source).readAll = .error .overflow ∧
        ¬source.HasRoom) :=
  LineReader.exists_readUpTo hSolid
    (LineReader.follows_start source)
    (source.rank_lt_bound.trans_le (Nat.le_add_left _ _))

/-
  A document whose lines and columns can be counted is read
  to its end, whatever its classification is, unless some
  line has too many columns to be added up.  Its tokens are
  not empty, and together as long as its text.  Each bracket
  lies on one line over its literal.  Whatever the numbers of
  peeks in between are, they see the token of the next read
  and the offset before it, and the reads give the tokens,
  each with the length of all up to it as the offset.
-/
theorem readAll_turns_of_isCounted
    {document : Document}
    (declaration : BracketDeclaration)
    (spans : SpanTable)
    (hCounted : document.IsCounted) :
    let table := TokenTable.ofDeclaration declaration
    let stream :=
      ofLines ⟨.ofDocument document, spans, table⟩
    stream.length = Length.ofText document.text ∧
      ((∃ tokens last,
          stream.readAll = .ok (tokens, last) ∧
            last.offset = stream.length ∧
            Token.total tokens = stream.length ∧
            (∀ token ∈ tokens, token.length ≠ 0) ∧
            (∀ placed ∈
                Placed.brackets (Placed.row 0 tokens),
              ∃ before found behind leaf,
                placed.IsOver document before found behind
                  leaf) ∧
            ∀ counts,
              ∃ after,
                stream.turns counts =
                  .ok (counts.mapIdx (Turn.told 0 tokens),
                    after)) ∨
        (stream.readAll = .error .overflow ∧
          ¬Line.AreReadable document.lines)) := by
  intro table stream
  have hSolid := TokenTable.isSolid_ofDeclaration declaration
  refine ⟨LineSource.length_of_areCounted rfl hCounted, ?_⟩
  rcases @exists_readAll
      ⟨.ofDocument document, spans, table⟩ hSolid with
    ⟨tokens, last, hTokens, hRead, hEnd⟩ | ⟨hError, hFull⟩
  · refine .inl ⟨tokens, last, hRead, hEnd, ?_,
      hTokens.ne_zero, ?_,
      fun counts => hTokens.turns_eq counts⟩
    · have hTotal := hTokens.place_add_total
      exact (zero_add _).symm.trans hTotal
    · intro placed hPlaced
      rcases List.mem_filter.1 hPlaced with ⟨hRow, hBracket⟩
      rcases hTokens.isRead placed hRow hBracket with
        ⟨before, found, behind, hLine, hColumn, hFound⟩
      rcases placed with ⟨start, _ | ⟨leaf, id⟩⟩
      · cases hBracket
      · exact ⟨before, found, behind, leaf, ⟨id, rfl⟩, hLine,
          hColumn, (hSolid.isLiteral hFound).length_eq.trans
            (by rw [(TokenTable.of_tokenOfMatch? hFound).2]),
          TokenTable.literal_of_tokenOfMatch? hFound⟩
  · refine .inr ⟨hError, fun hReadable => hFull ?_⟩
    have hOf :
        LineSource.IsOf ⟨.ofDocument document, spans, table⟩
          document.text :=
      ⟨rfl, hReadable⟩
    exact hOf.hasRoom

/- Two lines, of which the first has its spans in disorder. -/
theorem readAll_turns_of_isCounted_parens :
    let declaration : BracketDeclaration :=
      ⟨[⟨['('], [')']⟩], none⟩
    let document :=
      Document.ofText ['a', '(', 'b', '\n', ')']
    let spans : SpanTable :=
      ⟨[[⟨7, .other⟩, ⟨1, .comment⟩, ⟨1, .other⟩]]⟩
    let table := TokenTable.ofDeclaration declaration
    let stream :=
      ofLines ⟨.ofDocument document, spans, table⟩
    document.IsCounted ∧
      ∃ tokens last,
        stream.readAll = .ok (tokens, last) ∧
          last.offset = ⟨1, 1⟩ ∧
          ∃ after,
            stream.turns [0, 2, 1] =
              .ok ([0, 2, 1].mapIdx (Turn.told 0 tokens),
                after) := by
  intro declaration document spans table stream
  have hCounted : document.IsCounted := by decide
  have hReadable : Line.AreReadable document.lines := by decide
  rcases readAll_turns_of_isCounted declaration spans
      hCounted with
    ⟨hLength, ⟨tokens, last, hRead, hEnd, _, _, _, hTurns⟩ |
      ⟨_, hFull⟩⟩
  · refine ⟨hCounted, tokens, last, hRead, ?_,
      hTurns [0, 2, 1]⟩
    rw [hEnd]
    rfl
  · exact absurd hReadable hFull

end TokenStream

end Bracketry

------------------------------------------------------------
-- Too Many Lines and Columns
------------------------------------------------------------

namespace Bracketry

/- A text of line feeds has an empty line more. -/
theorem Line.split_feeds
    (count : Nat) :
    split (List.replicate count '\n') =
      List.replicate count ⟨[], ['\n']⟩ ++ [⟨[], []⟩] := by
  induction count with
  | zero => rfl
  | succ count ih =>
      rw [List.replicate_succ, List.replicate_succ, split, ih]
      rfl

theorem Text.byteSize_replicate
    (count : Nat)
    (c : Char) :
    byteSize (List.replicate count c) =
      count * c.utf8Size := by
  induction count with
  | zero => rw [List.replicate_zero, byteSize, Nat.zero_mul]
  | succ count ih =>
      rw [List.replicate_succ, byteSize, ih, Nat.succ_mul,
        Nat.add_comm]

theorem Length.ofText_feeds
    (count : Nat) :
    ofText (List.replicate count '\n') = ⟨count, 0⟩ := by
  induction count with
  | zero => rfl
  | succ count ih =>
      rw [List.replicate_succ, ofText_cons, ih]
      exact Length.break_add _

/- Without code, a line is scanned in one step. -/
theorem LineReader.scanSpans_comment
    (table : TokenTable)
    (line : List Char)
    (scanned : Nat) :
    scanSpans table line 0 scanned [⟨0, .comment⟩] =
      checkedSum scanned (width line) >>= fun scanned =>
        if hardLimit < scanned then .ok (.full (width line) [])
        else .ok (.lineEnd (width line) scanned) := by
  rw [scanSpans_cons, if_neg (by simp)]
  simp [spanStop, scanSpans]

namespace TokenStream

/- Of as many lines as there are counts, none is read. -/
theorem readAll_of_feeds
    {count : Nat}
    (spans : SpanTable)
    (table : TokenTable)
    (hCount : count + 1 = countLimit) :
    let document :=
      Document.ofText (List.replicate count '\n')
    let stream :=
      ofLines ⟨.ofDocument document, spans, table⟩
    stream.length = 0 ∧
      stream.readAll = .ok ([], stream) ∧
      Length.ofText document.text = ⟨count, 0⟩ := by
  intro document stream
  let source : LineSource :=
    ⟨.ofDocument document, spans, table⟩
  have hLines :
      source.content.lines =
        List.replicate count ⟨[], ['\n']⟩ ++ [⟨[], []⟩] :=
    Line.split_feeds count
  have hLast : source.lastLine = 0 := by
    rw [LineSource.lastLine, Content.lineCount, Line.count,
      hLines, List.length_append, List.length_replicate,
      List.length_singleton, hCount]
    rfl
  have hWidth : source.content.columnCount 0 = 0 := by
    rw [Content.columnCount, Line.width, Line.textAt, hLines]
    cases count <;> rfl
  have hLength : source.length = 0 := by
    rw [LineSource.length, hLast, hWidth]
    rfl
  refine ⟨hLength, ?_, Length.ofText_feeds count⟩
  have hRead :
      LineReader.start.read source =
        .ok (none, LineReader.start) := by
    rw [LineReader.read]
    exact if_pos hLength.le
  have hStream : stream.read = .ok (none, stream) := by
    rw [TokenStream.read]
    show (LineReader.start.read source >>= _) = _
    rw [hRead]
    rfl
  rw [readAll, LineSource.bound_ofLines, readUpTo, hStream]
  rfl

/- Too many columns behind a line break are not added up. -/
theorem readAll_of_columns
    {line : List Char}
    (table : TokenTable)
    (hFeed : '\n' ∉ line)
    (hCounted : Text.byteSize line < countLimit)
    (hMany :
      countLimit ≤
        LineReader.lineBreakWeight + Text.byteSize line) :
    let document := Document.ofText ('\n' :: line)
    let spans : SpanTable :=
      ⟨[[⟨0, .comment⟩], [⟨0, .comment⟩]]⟩
    let stream :=
      ofLines ⟨.ofDocument document, spans, table⟩
    document.IsCounted ∧
      stream.readAll = .error .overflow := by
  intro document spans stream
  let source : LineSource :=
    ⟨.ofDocument document, spans, table⟩
  have hLines :
      document.lines = [⟨[], ['\n']⟩, ⟨line, []⟩] := by
    show Line.split ('\n' :: line) = _
    rw [Line.split, Line.split_of_not_mem hFeed]
  have hWidth : LineReader.width line = Text.byteSize line :=
    wrapCount_of_lt hCounted
  have hLast : source.lastLine = 1 := by
    show max (Line.count document.lines) 1 - 1 = 1
    rw [hLines]
    rfl
  have hFirst : source.content.line 0 = [] := by
    show Line.textAt document.lines 0 = []
    rw [hLines]
    rfl
  have hSecond : source.content.line 1 = line := by
    show Line.textAt document.lines 1 = line
    rw [hLines]
    rfl
  have hSum :
      checkedSum LineReader.lineBreakWeight
          (Text.byteSize line) =
        .error .overflow :=
    if_neg (Nat.not_lt.2 hMany)
  have hBefore :
      LineReader.scanSpans source.table (source.content.line 0)
          0 0 [⟨0, .comment⟩] =
        .ok (.lineEnd 0 0) := by
    rw [hFirst, LineReader.scanSpans_comment]
    rfl
  have hBehind :
      LineReader.scanSpans source.table (source.content.line 1)
          0 LineReader.lineBreakWeight [⟨0, .comment⟩] =
        .error .overflow := by
    rw [hSecond, LineReader.scanSpans_comment, hWidth, hSum]
    rfl
  have hNext :
      LineReader.scan source 0 1 0 LineReader.lineBreakWeight
          [⟨0, .comment⟩] 0 =
        .error .overflow := by
    unfold LineReader.scan
    rw [hBehind]
  have hScan :
      LineReader.scan source 0 0 0 0 [⟨0, .comment⟩] 1 =
        .error .overflow := by
    unfold LineReader.scan
    rw [hBefore]
    exact hNext
  have hLength : ¬source.length ≤ 0 := by
    rw [LineSource.length, hLast, Length.le_def]
    simp
  have hRead :
      LineReader.start.read source = .error .overflow := by
    rw [LineReader.read]
    show (if source.length ≤ 0 then _ else _) = _
    rw [if_neg hLength, hLast]
    exact hScan
  have hStream : stream.read = .error .overflow := by
    rw [TokenStream.read]
    show (LineReader.start.read source >>= _) = _
    rw [hRead]
    rfl
  refine ⟨?_, ?_⟩
  · unfold Document.IsCounted
    rw [hLines]
    refine ⟨show 2 < countLimit by decide, ?_⟩
    rw [List.forall_mem_cons, List.forall_mem_singleton]
    exact ⟨show 0 < countLimit by decide, hCounted⟩
  · rw [readAll, LineSource.bound_ofLines, readUpTo, hStream]
    rfl

/-
  A text of so many line feeds has one line more, which no
  count can tell: it counts as no line at all.  Nor can as
  many columns be added up behind a line break.
-/
theorem readAll_of_maxCount :
    let declaration : BracketDeclaration :=
      ⟨[⟨['('], [')']⟩], none⟩
    let table := TokenTable.ofDeclaration declaration
    let feeds :=
      Document.ofText (List.replicate maxCount '\n')
    let lines := ofLines ⟨.ofDocument feeds, ⟨[]⟩, table⟩
    let wide :=
      Document.ofText
        ('\n' :: List.replicate maxCount 'x')
    let spans : SpanTable :=
      ⟨[[⟨0, .comment⟩], [⟨0, .comment⟩]]⟩
    let columns := ofLines ⟨.ofDocument wide, spans, table⟩
    (lines.length = 0 ∧
        lines.readAll = .ok ([], lines) ∧
        Length.ofText feeds.text = ⟨maxCount, 0⟩) ∧
      wide.IsCounted ∧
        columns.readAll = .error .overflow := by
  intro declaration table feeds lines wide spans columns
  have hFeed : '\n' ∉ List.replicate maxCount 'x' := by
    simp
  have hSize :
      Text.byteSize (List.replicate maxCount 'x') =
        maxCount := by
    rw [Text.byteSize_replicate]
    exact Nat.mul_one _
  exact ⟨readAll_of_feeds _ _ rfl,
    readAll_of_columns table hFeed (by rw [hSize]; decide)
      (by rw [hSize]; decide)⟩

end TokenStream

end Bracketry
