import Bracketry.Proofs.Scripts
import Bracketry.Proofs.Symbols

/-
  Reading a text as its characters.

  Where all is code and all literals are symbols, a reader
  stops in front of a bracket or at an end of a line, so that
  its tokens are made of whole characters: a bracket of one,
  and text of characters that are no brackets.  The tokens of
  a text then tell its brackets and their places.

  Key definitions include:
    * `LineReader.Stops`
    * `TextChar`, `TextChar.Splits`
    * `TokenTable.Denotes`
    * `TextChar.Shows`, `TextChar.script`

  Main declarations:
    * `LineReader.read_stops`
    * `TextChar.symbols_of_spells`
    * `TextChar.isSound_script`, `TextChar.keeps_script`
-/

------------------------------------------------------------
-- Readers of Code
------------------------------------------------------------

namespace Bracketry

namespace LineReader

variable {source : LineSource}

/- The reader has at most one span left of its line. -/
def IsPlain
    (reader : LineReader) :
    Prop :=
  ∀ spans, reader.spans = some spans → spans.length ≤ 1

/-
  The reader stands in front of a bracket, or at an end of
  its line.
-/
def Stops
    (source : LineSource)
    (reader : LineReader) :
    Prop :=
  reader.pending.isSome = true ∨ reader.column = 0 ∨
    reader.column = source.content.columnCount reader.line

theorem isPlain_of_spans
    {reader : LineReader}
    {left : List Span}
    (hLeft : reader.spans = some left)
    (hLength : left.length ≤ 1) :
    reader.IsPlain := by
  intro spans hSpans
  rw [hLeft] at hSpans
  rwa [← Option.some.inj hSpans]

/- How the scan of a line of code ends. -/
def EndsPlain
    (line : List Char) :
    SpanScan → Prop
  | .bracket _ token left =>
      token.isBracket = true ∧ left.length ≤ 1
  | .full stop left =>
      left.length ≤ 1 ∧ stop = width line
  | .lineEnd stop _ => stop = width line

theorem scanSpans_plain
    {table : TokenTable}
    {line : List Char}
    {column : Nat}
    {spans : List Span}
    {scanned : Nat}
    {result : SpanScan}
    (hSolid : table.IsSolid)
    (hSpans : spans.length ≤ 1)
    (hColumn : column ≤ width line)
    (hSome : spans ≠ [] ∨ column = width line)
    (h :
      scanSpans table line column scanned spans =
        .ok result) :
    EndsPlain line result := by
  cases spans with
  | nil =>
      cases h
      exact hSome.resolve_left (by simp)
  | cons span rest =>
      have hNil : rest = [] := by simpa using hSpans
      subst hNil
      have hWidth :
          max column (spanStop line []) = width line :=
        Nat.max_eq_right hColumn
      rw [scanSpans_cons, if_neg (by simp)] at h
      split at h
      · rename_i skipped token hFound
        cases h
        split_ifs at hFound
        have hLiteral := (findBracket?_spec hSolid hFound).1
        exact ⟨hLiteral.isBracket, Nat.le_refl 1⟩
      · rcases Checked.bind_eq_ok_iff.1 h with ⟨total, _, hRest⟩
        simp only [hWidth] at hRest
        split_ifs at hRest
        · cases hRest
          exact ⟨Nat.zero_le 1, rfl⟩
        · cases hRest
          rfl

/- Text in front of a bracket ends there. -/
theorem stops_of_bracket
    {start : Position}
    {line stop : Nat}
    {found token : Token}
    {left : List Span}
    {after : LineReader}
    (hEnds :
      EndsPlain (source.content.line line)
        (.bracket stop found left))
    (h :
      (if start = ⟨line, stop⟩ then
        .ok (some found,
          ⟨line, stop + found.length.columns, some left,
            none⟩)
      else
        textSince start
          ⟨line, stop, some left, some found⟩) =
        .ok (some token, after)) :
    after.IsPlain ∧
      (token.isBracket = true ∨ after.Stops source) := by
  rcases hEnds with ⟨hBracket, hLeft⟩
  split_ifs at h with hHere
  · rcases Prod.mk.inj (Except.ok.inj h) with ⟨hToken, rfl⟩
    rw [Option.some.inj hToken] at hBracket
    exact ⟨isPlain_of_spans rfl hLeft, .inl hBracket⟩
  · rcases eq_of_textSince h with rfl
    exact ⟨isPlain_of_spans rfl hLeft, .inr (.inl rfl)⟩

/- A token of text ends in front of a bracket, or a line. -/
theorem scan_stops
    {start : Position}
    {line column scanned more : Nat}
    {spans : List Span}
    {token : Token}
    {after : LineReader}
    (hSolid : source.table.IsSolid)
    (hPlain : source.spans = SpanTable.plain)
    (hSpans : spans.length ≤ 1)
    (hColumn : column ≤ source.content.columnCount line)
    (hSome :
      spans ≠ [] ∨ column = source.content.columnCount line)
    (h :
      scan source start line column scanned spans more =
        .ok (some token, after)) :
    after.IsPlain ∧
      (token.isBracket = true ∨ after.Stops source) := by
  induction more generalizing line column scanned spans with
  | zero =>
      unfold scan at h
      cases hResult :
          scanSpans source.table (source.content.line line)
            column scanned spans with
      | error fault => simp [hResult] at h
      | ok result =>
          have hEnds :=
            scanSpans_plain hSolid hSpans hColumn hSome hResult
          cases result with
          | bracket stop found left =>
              rw [hResult] at h
              exact stops_of_bracket hEnds h
          | full stop left =>
              rw [hResult] at h
              cases eq_of_textSince h
              exact ⟨isPlain_of_spans rfl hEnds.1,
                .inr (.inr (.inr hEnds.2))⟩
          | lineEnd stop total =>
              rw [hResult] at h
              cases eq_of_textSince h
              exact ⟨isPlain_of_spans rfl (Nat.zero_le 1),
                .inr (.inr (.inr hEnds))⟩
  | succ more ih =>
      unfold scan at h
      cases hResult :
          scanSpans source.table (source.content.line line)
            column scanned spans with
      | error fault => simp [hResult] at h
      | ok result =>
          have hEnds :=
            scanSpans_plain hSolid hSpans hColumn hSome hResult
          cases result with
          | bracket stop found left =>
              rw [hResult] at h
              exact stops_of_bracket hEnds h
          | full stop left =>
              rw [hResult] at h
              cases eq_of_textSince h
              exact ⟨isPlain_of_spans rfl hEnds.1,
                .inr (.inr (.inr hEnds.2))⟩
          | lineEnd stop total =>
              rw [hResult] at h
              rcases Checked.bind_eq_ok_iff.1 h with ⟨next, _, hNext⟩
              have hPlainLine :
                  source.spans.onLine (line + 1) =
                    Span.plain := by
                rw [hPlain]
                rfl
              rw [hPlainLine] at hNext
              split_ifs at hNext
              · cases eq_of_textSince hNext
                exact ⟨isPlain_of_spans rfl (Nat.le_refl 1),
                  .inr (.inr (.inl rfl))⟩
              · have hOne : Span.plain.length ≤ 1 :=
                  Nat.le_refl 1
                exact ih hOne (Nat.zero_le _)
                  (.inl (by simp [Span.plain])) hNext

/- So does a read. -/
theorem read_stops
    {reader after : LineReader}
    {token : Token}
    (hSolid : source.table.IsSolid)
    (hPlain : source.spans = SpanTable.plain)
    (hFollows : reader.Follows source)
    (hReader : reader.IsPlain)
    (h : reader.read source = .ok (some token, after)) :
    after.IsPlain ∧
      (token.isBracket = true ∨ after.Stops source) := by
  rcases reader with ⟨line, column, spans, pending⟩
  cases pending with
  | some held =>
      rcases Prod.mk.inj (Except.ok.inj h) with ⟨hToken, rfl⟩
      rcases hFollows.pending held rfl with ⟨hLiteral, _⟩
      rw [← Option.some.inj hToken]
      exact ⟨hReader, .inl hLiteral.isBracket⟩
  | none =>
      unfold read at h
      simp only at h
      split_ifs at h
      · cases h
      have hLine := hFollows.hasPlace.2
      cases spans with
      | some known =>
          exact scan_stops hSolid hPlain (hReader known rfl)
            hLine (hFollows.spans known rfl) h
      | none =>
          have hOne :
              (spansAt source line column).length ≤ 1 := by
            rw [spansAt, hPlain]
            exact List.length_drop ▸ Nat.sub_le _ _
          exact scan_stops hSolid hPlain hOne hLine
            (.inl (spansAt_ne_nil line column)) h

end LineReader

end Bracketry

------------------------------------------------------------
-- Cuts of a Text
------------------------------------------------------------

namespace Bracketry

namespace Line

/- A place behind a part of a line cuts the text. -/
theorem exists_cut
    {text left right : List Char}
    {line : Line}
    {number : Nat}
    (hLine : (split text)[number]? = some line)
    (hText : line.text = left ++ right) :
    ∃ before behind,
      text = before ++ behind ∧
        Length.ofText before =
          ⟨number, Text.byteSize left⟩ := by
  fun_induction split text generalizing line number left with
  | case1 =>
      cases number with
      | zero =>
          rcases Option.some.inj hLine with rfl
          rcases List.append_eq_nil_iff.1 hText.symm with
            ⟨rfl, _⟩
          exact ⟨[], [], rfl, rfl⟩
      | succ number => simp at hLine
  | case2 rest ih =>
      cases number with
      | zero =>
          rcases Option.some.inj hLine with rfl
          rcases List.append_eq_nil_iff.1 hText.symm with
            ⟨rfl, _⟩
          exact ⟨[], _, rfl, rfl⟩
      | succ number =>
          rcases ih hLine hText with
            ⟨before, behind, rfl, hLength⟩
          refine ⟨'\n' :: before, behind, rfl, ?_⟩
          rw [Length.ofText_cons, hLength]
          exact Length.break_add _
  | case3 rest ih =>
      cases number with
      | zero =>
          rcases Option.some.inj hLine with rfl
          rcases List.append_eq_nil_iff.1 hText.symm with
            ⟨rfl, _⟩
          exact ⟨[], _, rfl, rfl⟩
      | succ number =>
          rcases ih hLine hText with
            ⟨before, behind, rfl, hLength⟩
          refine ⟨'\r' :: '\n' :: before, behind, rfl, ?_⟩
          rw [Length.ofText_cons, Length.ofText_cons, hLength,
            ← add_assoc]
          exact Length.break_add _
  | case4 c rest _ _ hNil ih =>
      exact absurd hNil (split_ne_nil rest)
  | case5 c rest hBreak _ first lines hCons ih =>
      rw [hCons] at ih
      cases number with
      | zero =>
          rcases Option.some.inj hLine with rfl
          cases left with
          | nil => exact ⟨[], _, rfl, rfl⟩
          | cons d left =>
              rcases List.cons.inj hText with ⟨rfl, hRest⟩
              have hFirst :
                  (first :: lines)[0]? = some first := rfl
              rcases ih hFirst hRest with
                ⟨before, behind, rfl, hLength⟩
              refine ⟨c :: before, behind, rfl, ?_⟩
              rw [Length.ofText_cons, hLength, Length.ofChar,
                if_neg hBreak, Length.add_def, if_pos rfl,
                Text.byteSize]
      | succ number =>
          have hNext :
              (first :: lines)[number + 1]? = some line :=
            hLine
          rcases ih hNext hText with
            ⟨before, behind, rfl, hLength⟩
          refine ⟨c :: before, behind, rfl, ?_⟩
          rw [Length.ofText_cons, hLength, Length.ofChar,
            if_neg hBreak, Length.add_def, if_neg (by simp),
            Nat.zero_add]

end Line

/- Where bytes are split, no line break is cut. -/
theorem TextByte.cut_of_splits
    {before behind : List Char}
    (h : Splits (ofText before) (ofText behind)) :
    ¬(before.getLast? = some '\r' ∧
      behind.head? = some '\n') := by
  rintro ⟨hLast, hHead⟩
  rcases List.getLast?_eq_some_iff.1 hLast with ⟨others, rfl⟩
  rcases List.head?_eq_some_iff.1 hHead with ⟨more, rfl⟩
  exact h ⟨by simp [ofChar], by simp [ofChar]⟩

namespace LineSource

open Measured

variable {source : LineSource} {before behind : List Char}

/- A place of a source is not inside a line break. -/
theorem cut_of_hasPlace
    (hOf : source.IsOf (before ++ behind))
    (h : source.HasPlace (Length.ofText before)) :
    ¬(before.getLast? = some '\r' ∧
      behind.head? = some '\n') := by
  rcases (hasPlace_iff hOf).1 h with
    ⟨first, last, hBytes, hExtent, hSplits⟩
  rw [TextByte.ofText_append] at hBytes
  rcases eq_of_extent_eq hBytes.symm
      (hExtent.trans (TextByte.extent_ofText before).symm) with
    ⟨rfl, rfl⟩
  exact TextByte.cut_of_splits hSplits

theorem hasPlace_of_cut
    (hOf : source.IsOf (before ++ behind))
    (hCut :
      ¬(before.getLast? = some '\r' ∧
        behind.head? = some '\n')) :
    source.HasPlace (Length.ofText before) := by
  rcases exists_lines hOf hCut with
    ⟨passed, left, first, rest, _, hLines, hLength⟩
  rw [hLength]
  constructor
  · rw [hOf.lastLine_eq, ← hOf.lines, hLines,
      List.length_append, List.length_cons]
    simp only
    omega
  · have hHere :
        source.content.line passed.length =
          left ++ first.text :=
      Content.line_of_append hLines
    rw [hOf.columnCount_eq, hHere, Text.byteSize_append]
    exact Nat.le_add_right _ _

end LineSource

end Bracketry

------------------------------------------------------------
-- Characters
------------------------------------------------------------

namespace Bracketry

open Measured

/- A character of a text, or a line behind its end. -/
inductive TextChar where
  | char (c : Char)
  | beyond
deriving DecidableEq, Repr, Inhabited

namespace TextChar

/- The bytes of a character. -/
def bytes : TextChar → List TextByte
  | .char c => TextByte.ofChar c
  | .beyond => [.beyond]

/- The length of a character. -/
def length : TextChar → Length
  | .char c => Length.ofChar c
  | .beyond => ⟨1, 0⟩

instance : Measured TextChar where
  size := length
  size_ne_zero char := by
    cases char with
    | char c => exact Length.ofChar_ne_zero c
    | beyond => decide

/- The characters of a text. -/
def ofText
    (text : List Char) :
    List TextChar :=
  text.map .char

/- Lines behind the end of a text. -/
def pads
    (count : Nat) :
    List TextChar :=
  List.replicate (count + 1) .beyond

theorem extent_ofText
    (text : List Char) :
    extent (ofText text) = Length.ofText text := by
  induction text with
  | nil => rfl
  | cons c rest ih =>
      rw [ofText, List.map_cons, extent_cons, ← ofText, ih,
        Length.ofText_cons]
      rfl

/- Characters are as long as their bytes. -/
theorem extent_bytes
    (chars : List TextChar) :
    extent (chars.flatMap bytes) = extent chars := by
  induction chars with
  | nil => rfl
  | cons char rest ih =>
      rw [List.flatMap_cons, extent_append, ih, extent_cons]
      congr 1
      cases char with
      | char c => exact TextByte.extent_ofChar c
      | beyond => rfl

/- Where its characters are cut, the text is cut. -/
theorem exists_of_append
    {text : List Char}
    {a b : List TextChar}
    (h : ofText text = a ++ b) :
    ∃ before behind,
      text = before ++ behind ∧ ofText before = a ∧
        ofText behind = b :=
  List.map_eq_append_iff.1 h

@[simp] theorem ofText_append
    (a b : List Char) :
    ofText (a ++ b) = ofText a ++ ofText b :=
  List.map_append

/- A line break of two characters is not split. -/
def Splits
    (before behind : List TextChar) :
    Prop :=
  ¬(before.getLast? = some (.char '\r') ∧
    behind.head? = some (.char '\n'))

theorem splits_ofText
    {before behind : List Char}
    {count : Nat} :
    Splits (ofText before) (ofText behind ++ pads count) ↔
      ¬(before.getLast? = some '\r' ∧
        behind.head? = some '\n') := by
  unfold Splits ofText
  rw [List.getLast?_map]
  cases behind with
  | nil => simp [pads, List.replicate_succ]
  | cons c rest => simp

/- There are no more characters than bytes. -/
theorem length_le
    (text : List Char) :
    (ofText text).length ≤ Text.byteSize text := by
  induction text with
  | nil => exact Nat.le_refl 0
  | cons c rest ih =>
      have hPos := Char.utf8Size_pos c
      rw [ofText, List.map_cons, ← ofText, List.length_cons,
        Text.byteSize]
      omega

/- A text of few bytes and few lines behind it is small. -/
theorem isSmall_ofText
    {text : List Char}
    {count : Nat}
    (h : Text.byteSize text + count + 1 < 2 ^ 31) :
    IsSmall (ofText text ++ pads count) := by
  have hBytes :
      (ofText text ++ pads count).flatMap bytes =
        TextByte.ofText text ++ TextByte.pads count := by
    rw [List.flatMap_append]
    congr 1
    · rw [ofText, List.flatMap_map]
      rfl
    · rw [pads, TextByte.pads, List.flatMap_replicate]
      exact List.flatten_replicate_singleton
  have hSmall :
      IsSmall (TextByte.ofText text ++ TextByte.pads count) := by
    apply TextByte.isSmall_of_length
    rw [List.length_append, TextByte.length_ofText, TextByte.pads,
      List.length_replicate]
    omega
  rintro before behind hSplit
  rw [← extent_bytes]
  refine hSmall _ (behind.flatMap bytes) ?_
  rw [← hBytes, hSplit, List.flatMap_append]

end TextChar

end Bracketry

------------------------------------------------------------
-- What Tokens Denote
------------------------------------------------------------

namespace Bracketry

open Measured

namespace TokenTable

/- The token is the one bracket that the part is, or text. -/
def Denotes
    (table : TokenTable)
    (part : List Char) :
    Token → Prop
  | .text _ => ∀ c ∈ part, table.sign? c = none
  | .bracket leaf id =>
      ∃ c, part = [c] ∧
        table.sign? c = some (.bracket leaf id)

variable {table : TokenTable}

theorem symbols_eq_nil
    {place : Position}
    {part : List Char} :
    table.symbols place part = [] ↔
      ∀ c ∈ part, table.sign? c = none := by
  induction part generalizing place with
  | nil => simp [symbols]
  | cons c rest ih =>
      rw [symbols, List.append_eq_nil_iff, ih,
        List.forall_mem_cons]
      simp

/- No bracket stands in front of the text that it is in. -/
theorem le_of_mem_symbols
    {place : Position}
    {part : List Char}
    {placed : Placed}
    (h : placed ∈ table.symbols place part) :
    place ≤ placed.start := by
  induction part generalizing place with
  | nil => cases h
  | cons c rest ih =>
      rw [symbols, List.mem_append, Option.mem_toList] at h
      rcases h with hHere | hRest
      · rcases Option.map_eq_some_iff.1 hHere with ⟨_, _, rfl⟩
        exact le_refl _
      · exact le_trans (Length.le_add_right _ _) (ih hRest)

/- A text that begins with a bracket has its character. -/
theorem sign?_of_symbols
    {place : Position}
    {text : List Char}
    {token : Token}
    {others : List Placed}
    (h : table.symbols place text = ⟨place, token⟩ :: others) :
    ∃ c rest,
      text = c :: rest ∧ table.sign? c = some token := by
  cases text with
  | nil => cases h
  | cons c rest =>
      refine ⟨c, rest, rfl, ?_⟩
      rw [symbols] at h
      cases hSign : table.sign? c with
      | none =>
          rw [hSign, Option.map_none, Option.toList_none,
            List.nil_append] at h
          have hLe := le_of_mem_symbols
            (h ▸ List.mem_cons_self)
          exact absurd (Length.lt_add_right
            (Length.ofChar_ne_zero c)) (not_lt.2 hLe)
      | some found =>
          rw [hSign] at h
          have hSame := (List.cons.inj h).1
          rw [(Placed.mk.inj hSame).2]

/- What a token denotes has the brackets of the token. -/
theorem Denotes.symbols_eq
    {part : List Char}
    {token : Token}
    (h : table.Denotes part token)
    (place : Position) :
    table.symbols place part =
      Placed.brackets [⟨place, token⟩] := by
  cases token with
  | text length => exact symbols_eq_nil.2 h
  | bracket leaf id =>
      rcases h with ⟨c, rfl, hSign⟩
      rw [symbols, hSign]
      rfl

end TokenTable

namespace TextChar

/- What a token stands for among the characters. -/
def Shows
    (table : TokenTable)
    (before part behind : List TextChar)
    (token : Token) :
    Prop :=
  Splits before (part ++ behind) ∧
    Splits (before ++ part) behind ∧
    ∃ text, part = ofText text ∧ table.Denotes text token

/- The tokens of a text have its brackets, at their places. -/
theorem symbols_of_spells
    {table : TokenTable}
    {before part behind : List TextChar}
    {tokens : List Token}
    {text : List Char}
    (place : Position)
    (hPart : part = ofText text)
    (h :
      Spells (Shows table) before tokens part behind) :
    Placed.brackets (Placed.row place tokens) =
      table.symbols place text := by
  induction tokens generalizing before part text place with
  | nil =>
      subst h
      rw [List.map_eq_nil_iff.1 hPart.symm]
      rfl
  | cons token rest ih =>
      rcases h with
        ⟨first, more, rfl, _, hSize, ⟨_, _, passed, rfl,
          hDenotes⟩, hMore⟩
      rcases exists_of_append hPart.symm with
        ⟨front, others, rfl, hFront, hOthers⟩
      have hSame : front = passed :=
        List.map_injective_iff.2
          (fun _ _ => TextChar.char.inj) hFront
      subst hSame
      rw [extent_ofText] at hSize
      rw [TokenTable.symbols_append, hDenotes.symbols_eq,
        hSize, ← ih (place + token.length) hOthers.symm hMore,
        Placed.row, Placed.brackets, Placed.brackets,
        Placed.brackets,
        ← List.filter_append]
      rfl

end TextChar

end Bracketry

------------------------------------------------------------
-- The Script of a Text
------------------------------------------------------------

namespace Bracketry

open Measured

namespace TextChar

/- A document where all is code, read as its characters. -/
def script
    (source : LineSource)
    (text : List Char)
    (count : Nat) :
    Script TextChar where
  source := source
  text := ofText text
  ending := pads count
  Shows := Shows source.table
  Stands reader before _ :=
    reader.Follows source ∧ reader.Knows source ∧
      reader.IsPlain ∧ reader.place = extent before

variable {source : LineSource} {text : List Char}

/- Where a reader stops, its line is cut. -/
theorem exists_left_of_stops
    {reader : LineReader}
    (hPlain : source.spans = SpanTable.plain)
    (hOf : source.IsOf text)
    (hFollows : reader.Follows source)
    (hKnows : reader.Knows source)
    (hStops : reader.Stops source) :
    ∃ left right,
      source.content.line reader.line = left ++ right ∧
        Text.byteSize left = reader.column := by
  rcases hStops with hPending | hZero | hWidth
  · rcases Option.isSome_iff_exists.1 hPending with
      ⟨token, hToken⟩
    have hAhead := (hFollows.pending token hToken).2.2.2
    rw [hKnows.ahead, LineSource.marksAt_plain hOf hPlain]
      at hAhead
    cases hFind :
        LineReader.findBracket? source.table
          (source.content.line reader.line) reader.column
          (Text.byteSize
            (source.content.line reader.line)) with
    | none =>
        have hNone := LineReader.marksBetween_of_none hFind
        rw [LineReader.place, hNone] at hAhead
        cases hAhead
    | some found =>
        simp only [LineReader.findBracket?,
          Option.bind_eq_bind, Option.bind_eq_some_iff,
          Prod.exists] at hFind
        rcases hFind with
          ⟨searched, beyond, hAll, left, right, hLeft, _⟩
        rcases Text.splitAt?_eq_some.1 hAll with ⟨hText, _⟩
        rcases Text.splitAt?_eq_some.1 hLeft with ⟨rfl, hSize⟩
        exact ⟨left, right ++ beyond,
          by rw [hText, List.append_assoc], hSize⟩
  · exact ⟨[], _, rfl, hZero.symm⟩
  · exact ⟨source.content.line reader.line, [],
      (List.append_nil _).symm,
      (hWidth.trans (hOf.columnCount_eq _)).symm⟩

/- So is the text. -/
theorem exists_cut_of_stops
    {reader : LineReader}
    (hPlain : source.spans = SpanTable.plain)
    (hOf : source.IsOf text)
    (hFollows : reader.Follows source)
    (hKnows : reader.Knows source)
    (hStops : reader.Stops source) :
    ∃ before behind,
      text = before ++ behind ∧
        Length.ofText before = reader.place := by
  rcases exists_left_of_stops hPlain hOf hFollows hKnows
      hStops with
    ⟨left, right, hText, hSize⟩
  rcases TextByte.hasPlace_iff.2
      ((LineSource.hasPlace_iff hOf).1 hFollows.hasPlace) with
    ⟨line, hLine, _⟩
  have hHere :
      source.content.lines[reader.line]? = some line := by
    rw [hOf.lines]
    exact hLine
  rw [Content.line_of_getElem? hHere] at hText
  rcases Line.exists_cut hLine hText with
    ⟨before, behind, hCut, hLength⟩
  exact ⟨before, behind, hCut, by rw [hLength, hSize]; rfl⟩

/- A reader of code reads one bracket, or text without any. -/
theorem exists_denoted
    {reader after : LineReader}
    {token : Token}
    {before behind : List Char}
    (h : source.table.IsSymbolic)
    (hSolid : source.table.IsSolid)
    (hPlain : source.spans = SpanTable.plain)
    (hOf : source.IsOf (before ++ behind))
    (hReader : reader.Follows source)
    (hPlace : reader.place = Length.ofText before)
    (hPasses :
      LineReader.Passes source reader token after)
    (hAfter : after.Knows source)
    (hStops : token.isBracket = true ∨ after.Stops source)
    (hMarks :
      if token.isBracket then
        token.length.lines = 0 ∧
          source.IsMarked reader.place token
      else source.IsSilent reader.place after.place) :
    ∃ part more,
      behind = part ++ more ∧
        Length.ofText part = token.length ∧
        source.table.Denotes part token := by
  have hStart :=
    LineSource.bracketsFrom_eq h hSolid hPlain hOf
      (LineSource.cut_of_hasPlace hOf
        (hPlace ▸ hReader.hasPlace))
  have hFollows := hPasses.follows
  have hNext := hPasses.place
  rw [hPlace] at hMarks hNext
  cases token with
  | bracket leaf id =>
      rcases hMarks with ⟨hFlat, hMarked⟩
      rw [LineSource.bracketsFrom_of_isMarked hFlat hMarked]
        at hStart
      rcases TokenTable.sign?_of_symbols hStart.symm with
        ⟨c, rest, rfl, hSign⟩
      rcases h.exists_of_sign? hSign with ⟨hSymbol, hLength, _⟩
      refine ⟨[c], rest, rfl, ?_, c, rfl, hSign⟩
      have hBreak : c ≠ '\n' := fun hSame =>
        hSymbol.2.2.2 (.inl hSame)
      rw [hLength, Length.ofText_cons, Length.ofChar,
        if_neg hBreak, utf8Size_eq_one.2 hSymbol.2.1]
      rfl
  | text length =>
      rcases exists_cut_of_stops hPlain hOf hFollows hAfter
          (hStops.resolve_left (by simp [Token.isBracket])) with
        ⟨passed, more, hText, hPassed⟩
      have hExtent : extent passed = after.place := by
        rw [extent_chars, hPassed]
      rcases exists_of_extent_le hText (by
          rw [hExtent, hNext, extent_chars]
          exact Length.le_add_right _ _) with
        ⟨part, rfl, rfl⟩
      rw [Length.ofText_append, hNext] at hPassed
      have hPart := Length.add_left_cancel hPassed
      refine ⟨part, more, rfl, hPart, ?_⟩
      have hAgain : source.IsOf ((before ++ part) ++ more) := by
        rwa [List.append_assoc]
      have hStop :
          source.HasPlace (Length.ofText (before ++ part)) := by
        rw [Length.ofText_append, hPart, ← hNext]
        exact hFollows.hasPlace
      have hEnd :=
        LineSource.bracketsFrom_eq h hSolid hPlain hAgain
          (LineSource.cut_of_hasPlace hAgain hStop)
      rw [LineSource.bracketsFrom_of_isSilent
        hFollows.hasPlace.1 hMarks, TokenTable.symbols_append,
        hNext, ← hPart, ← Length.ofText_append, hEnd] at hStart
      exact TokenTable.symbols_eq_nil.1
        (List.self_eq_append_left.1 hStart)

/- Each document is read as its characters. -/
theorem isSound_script
    {count : Nat}
    (h : source.table.IsSymbolic)
    (hSolid : source.table.IsSolid)
    (hPlain : source.spans = SpanTable.plain)
    (hOf : source.IsOf text)
    (hSize : Text.byteSize text + count + 1 < 2 ^ 31) :
    (script source text count).IsSound where
  small := isSmall_ofText hSize
  few := by
    have hBytes := LineSource.length_le_bound hOf
    rw [TextByte.length_ofText] at hBytes
    exact Nat.le_trans (length_le text) hBytes
  short := by
    have hLength := length_le text
    simp only [script]
    omega
  ends := by simp [script, pads, List.replicate_succ]
  start := by
    refine ⟨LineReader.follows_start source,
      LineReader.knows_ofPosition ?_ 0, ?_, rfl⟩
    · simp [hPlain, SpanTable.IsSorted, SpanTable.plain]
    · rintro _ ⟨⟩
  read := by
    rintro reader before ahead hText
      ⟨hReader, hKnows, hOne, hPlace⟩
    rcases exists_of_append hText with
      ⟨passed, rest, rfl, rfl, rfl⟩
    simp only [script] at hReader hKnows hPlace ⊢
    rw [extent_ofText] at hPlace
    have hStart :=
      LineSource.cut_of_hasPlace hOf
        (hPlace ▸ hReader.hasPlace)
    rcases hKnows.read_spec hOf.hasRoom hSolid hReader with
      ⟨hEnd, hRead⟩ |
        ⟨token, after, hRead, hPasses, hAfter, hMarks⟩
    · refine .inl ⟨?_, hRead⟩
      rw [hPlace, LineSource.length_eq hOf,
        Length.ofText_append] at hEnd
      have hZero := Length.add_eq_left.1 hEnd.symm
      rw [← extent_ofText] at hZero
      exact extent_eq_zero.1 hZero
    · rcases LineReader.read_stops hSolid hPlain hReader hOne
          hRead with
        ⟨hOneAfter, hStops⟩
      rcases exists_denoted h hSolid hPlain hOf hReader hPlace
          hPasses hAfter hStops hMarks with
        ⟨part, more, rfl, hLength, hDenotes⟩
      have hNext :
          after.place = Length.ofText (passed ++ part) := by
        rw [hPasses.place, hPlace, Length.ofText_append,
          hLength]
      have hAgain :
          source.IsOf ((passed ++ part) ++ more) := by
        rwa [List.append_assoc]
      have hStop :=
        LineSource.cut_of_hasPlace hAgain
          (hNext ▸ hPasses.follows.hasPlace)
      refine .inr ⟨token, after, ofText part, ofText more,
        hRead, hPasses.regular, ofText_append _ _, ?_, ?_,
        ⟨?_, ?_, part, rfl, hDenotes⟩,
        hPasses.follows, hAfter, hOneAfter, ?_⟩
      · intro hNil
        rw [List.map_eq_nil_iff.1 hNil] at hLength
        exact hPasses.ne_zero hLength.symm
      · rw [extent_ofText, hLength]
      · rw [← List.append_assoc, ← ofText_append]
        exact splits_ofText.2 hStart
      · rw [← ofText_append]
        exact splits_ofText.2 hStop
      · rw [← ofText_append, extent_ofText, hNext]

/- What a token shows depends on what is next to it. -/
theorem isLocal_shows
    (table : TokenTable) :
    IsLocal (Shows table) := by
  rintro before other first behind later token hSome hLast
    hHead ⟨hStart, hStop, hDenotes⟩
  refine ⟨?_, ?_, hDenotes⟩
  · rcases List.exists_cons_of_ne_nil hSome with
      ⟨char, rest, rfl⟩
    unfold Splits at hStart ⊢
    rwa [← hLast]
  · unfold Splits at hStop ⊢
    rw [List.getLast?_append_of_ne_nil _ hSome] at hStop ⊢
    rwa [← hHead]

/- An old document keeps its places in a new one. -/
theorem keeps_script
    {count : Nat}
    {old : List Char}
    {tokens : List Token}
    (hPlain : source.spans = SpanTable.plain)
    (hOf : source.IsOf text)
    (hSize : Text.byteSize old + count + 1 < 2 ^ 31)
    (hSpells :
      Spells (Shows source.table) [] tokens (ofText old)
        (pads count)) :
    (script source text count).Keeps
      ⟨ofText old, tokens, Forest.IsKept⟩ where
  inherited := Forest.isInherited_isKept
  matched h := h.1
  small := isSmall_ofText hSize
  apart char hTextChar hPad := by
    rw [List.eq_of_mem_replicate hPad] at hTextChar
    rcases List.mem_map.1 hTextChar with ⟨c, _, hChar⟩
    cases hChar
  spelled := hSpells
  spells := by
    intro oldBefore part more oldBehind newBefore ahead
      newBehind forest _ hAhead hText hPart hMore hEnd _ _
      hOld
    simp only [script] at hAhead hText ⊢
    have hNew :=
      hOld.relocate (isLocal_shows source.table) newBehind
        hMore hEnd.getLast?_eq
    rw [← hAhead] at hNew
    rcases exists_of_append
        (hText.trans (List.append_assoc _ _ _).symm) with
      ⟨before, behind, rfl, hBefore, rfl⟩
    have hCut :
        Splits (newBefore ++ part)
          (ofText behind ++ pads count) :=
      hNew.stop (fun _ _ _ _ hShows => hShows.2.1) hPart
    rw [← hBefore, splits_ofText] at hCut
    refine ⟨hNew, LineReader.follows_ofPosition ?_,
      LineReader.knows_ofPosition ?_ _, ?_, rfl⟩
    · rw [← hBefore, extent_ofText]
      exact LineSource.hasPlace_of_cut hOf hCut
    · simp [hPlain, SpanTable.IsSorted, SpanTable.plain]
    · rintro _ ⟨⟩

end TextChar

end Bracketry
