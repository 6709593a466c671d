import Bracketry.Proofs.LineMatches
import Bracketry.Proofs.LineStarts
import Bracketry.Proofs.Parses

/-
  Reading characters that know their line breaks.

  Where all is code and no literal begins with a blank, text
  ends in front of a character that shows its column, or at
  an end of a line.  So the text of every token is settled,
  and no token ends inside a line break.

  Key definitions include:
    * `IsClear`, `TokenTable.IsClear`
    * `BreakChar.Shows`
    * `BreakChar.IsAt`

  Main declarations:
    * `BreakChar.spells_of_scan`
    * `BreakChar.exists_read`
    * `BreakChar.IsAt.peek`, `BreakChar.IsAt.read`
    * `BreakChar.IsAt.skip`
-/

------------------------------------------------------------
-- Clear Literals
------------------------------------------------------------

namespace Bracketry

/- A character that indents what is behind it. -/
def IsIndent
    (c : Char) :
    Prop :=
  c = ' ' ∨ c = '\t'

instance (c : Char) : Decidable (IsIndent c) :=
  inferInstanceAs (Decidable (_ ∨ _))

theorem IsIndent.eq_of_foldChar
    {c d : Char}
    (hIndent : IsIndent d)
    (h : foldChar c = foldChar d) :
    c = d := by
  rcases hIndent with rfl | rfl
  · exact eq_of_foldChar_eq (by decide) (by decide) h
  · exact eq_of_foldChar_eq (by decide) (by decide) h

/- Neither literal begins with a blank or a tab. -/
def BracketPair.IsVisible
    (pair : BracketPair) :
    Prop :=
  (∀ c ∈ pair.opener.head?, ¬IsIndent c) ∧
    ∀ c ∈ pair.closer.head?, ¬IsIndent c

instance (pair : BracketPair) : Decidable pair.IsVisible :=
  @instDecidableAnd _ _
    (Option.decidableForallMem pair.opener.head?)
    (Option.decidableForallMem pair.closer.head?)

/- No declared literal begins with a blank or a tab. -/
def BracketDeclaration.IsVisible
    (declaration : BracketDeclaration) :
    Prop :=
  ∀ pair ∈ declaration.declared, pair.IsVisible

instance
    (declaration : BracketDeclaration) :
    Decidable declaration.IsVisible :=
  inferInstanceAs (Decidable (∀ _ ∈ _, _))

/-
  A text on one line that begins with a character that shows
  its column.
-/
structure IsClear
    (text : List Char) :
    Prop where
  visible : ∀ c ∈ text.head?, ¬IsIndent c
  flat : ∀ c ∈ text, ¬IsBreak c

/- What folds as a clear text is clear. -/
theorem IsClear.of_fold
    {found literal : List Char}
    (hFold : found.map foldChar = literal.map foldChar)
    (h : IsClear literal) :
    IsClear found := by
  refine ⟨?_, not_isBreak_of_fold hFold h.flat⟩
  intro c hHead hIndent
  have hHeads := congrArg List.head? hFold
  rw [List.head?_map, List.head?_map, hHead] at hHeads
  rcases Option.map_eq_some_iff.1 hHeads.symm with
    ⟨d, hFirst, hSame⟩
  rcases hIndent.eq_of_foldChar hSame with rfl
  exact h.visible d hFirst hIndent

/- Lower case makes no blank at the beginning. -/
theorem isClear_lowercase
    {text : List Char}
    (h : IsClear text) :
    IsClear (Text.lowercase text) := by
  refine ⟨?_, fun c =>
    not_isBreak_of_mem_lowercase h.flat⟩
  cases text with
  | nil => nofun
  | cons c rest =>
      intro d hHead
      unfold Text.lowercase Text.lowercaseFrom at hHead
      split_ifs at hHead <;>
        simp only [List.cons_append, List.head?_cons,
          Option.mem_def, Option.some.injEq] at hHead <;>
        subst hHead
      · decide
      · decide
      · decide
      · rintro (hBlank | hTab)
        · exact h.visible c rfl (.inl
            (eq_of_lowerChar_eq (by decide) (by decide)
              hBlank))
        · exact h.visible c rfl (.inr
            (eq_of_lowerChar_eq (by decide) (by decide) hTab))

namespace TokenTable

/- All keys are clear. -/
def IsClear
    (table : TokenTable) :
    Prop :=
  ∀ entry ∈ table.entries, Bracketry.IsClear entry.key

theorem isClear_ofDeclaration
    {declaration : BracketDeclaration}
    (hFlat : declaration.IsFlat)
    (hVisible : declaration.IsVisible) :
    (ofDeclaration declaration).IsClear := by
  intro entry hEntry
  rcases exists_literal hEntry with
    ⟨pair, hPair, literal, hLiteral, hKey, _⟩
  rw [hKey]
  apply isClear_lowercase
  rcases hLiteral with rfl | rfl
  · exact ⟨(hVisible pair hPair).1, (hFlat pair hPair).1⟩
  · exact ⟨(hVisible pair hPair).2, (hFlat pair hPair).2⟩

variable {table : TokenTable}

theorem IsClear.isFlat
    (h : table.IsClear) :
    table.IsFlat :=
  fun entry hEntry => (h entry hEntry).flat

/- What is found for the literals of a table is clear. -/
theorem IsClear.of_firstAt?
    {before : Option Char}
    {text found rest : List Char}
    (h : table.IsClear)
    (hFound :
      Pattern.firstAt? table.literals before text =
        some (found, rest)) :
    Bracketry.IsClear found := by
  rcases Pattern.exists_of_firstAt? hFound with
    ⟨_, literal, hLiteral, hFold⟩
  rcases List.mem_map.1 hLiteral with ⟨entry, hEntry, rfl⟩
  exact (h entry hEntry).of_fold hFold

/- So is what a scan finds as a bracket. -/
theorem IsClear.of_finds
    {before part behind : List Char}
    {token : Token}
    (h : table.IsClear)
    (hFinds : Scan.Finds table before part behind token) :
    Bracketry.IsClear part := by
  rcases hFinds with ⟨hFirst, hBreak, _⟩
  rcases Pattern.exists_of_firstAt? hFirst with
    ⟨_, literal, hLiteral, hFold⟩
  rcases List.mem_append.1 hLiteral with hKey | hLineBreak
  · rcases List.mem_map.1 hKey with ⟨entry, hEntry, rfl⟩
    exact (h entry hEntry).of_fold hFold
  · rcases Scan.eq_of_fold_lineBreak hLineBreak hFold with rfl
    exact absurd hLineBreak hBreak

end TokenTable

end Bracketry

------------------------------------------------------------
-- Scanned Characters
------------------------------------------------------------

namespace Bracketry

open Measured

namespace BreakChar

/- A token stands for a stretch that is whole and settled. -/
def Shows
    (_ part behind : List BreakChar)
    (_ : Token) :
    Prop :=
  IsWhole part ∧ Settles true behind part

theorem mark_of_not_isBreak
    {c : Char}
    (next : Option Char)
    (h : ¬IsBreak c) :
    mark c next = .char c :=
  if_neg fun hReturn => h (.inr hReturn.1)

/- The first character of a clear text shows its column. -/
theorem exists_of_isClear
    {found : List Char}
    (hSome : found ≠ [])
    (hClear : IsClear found) :
    ∃ c others,
      found = c :: others ∧ ¬IsBreak c ∧
        ¬(BreakChar.char c).IsBlank := by
  rcases List.exists_cons_of_ne_nil hSome with ⟨c, others, rfl⟩
  have hVisible := hClear.visible c rfl
  refine ⟨c, others, rfl, hClear.flat c List.mem_cons_self, ?_⟩
  rintro (hBlank | hTab)
  · exact hVisible (.inl (BreakChar.char.inj hBlank))
  · exact hVisible (.inr (BreakChar.char.inj hTab))

/- What is clear stops text in front of it. -/
theorem stopsAt_of_isClear
    {found : List Char}
    (rest : List Char)
    (hSome : found ≠ [])
    (hClear : IsClear found) :
    StopsAt (ofText (found ++ rest) ++ pads) := by
  rcases exists_of_isClear hSome hClear with
    ⟨c, others, rfl, hBreak, hVisible⟩
  rw [List.cons_append, ofText, mark_of_not_isBreak _ hBreak]
  exact ⟨_, rfl, hVisible, fun hReturn =>
    hBreak (.inr (BreakChar.char.inj hReturn))⟩

theorem stopsAt_pads : StopsAt pads :=
  ⟨.beyond, rfl, by decide, by decide⟩

theorem not_breaks_of_flat
    {text : List Char}
    (hText : ∀ c ∈ text, ¬IsBreak c) :
    ∀ char ∈ ofText text, char.breaks = false := by
  induction text with
  | nil => nofun
  | cons c rest ih =>
      rw [List.forall_mem_cons] at hText
      rw [ofText, List.forall_mem_cons,
        mark_of_not_isBreak _ hText.1]
      refine ⟨?_, ih hText.2⟩
      simpa [breaks] using fun hFeed => hText.1 (.inl hFeed)

/- A clear text is settled, whatever is behind it. -/
theorem settles_of_isClear
    {found : List Char}
    {behind : List BreakChar}
    (hSome : found ≠ [])
    (hClear : IsClear found) :
    Settles true behind (ofText found) := by
  have hFlat := not_breaks_of_flat hClear.flat
  rcases exists_of_isClear hSome hClear with
    ⟨c, others, rfl, hBreak, hVisible⟩
  rw [ofText, mark_of_not_isBreak _ hBreak] at hFlat ⊢
  exact settles_of_visible hVisible hFlat

/- A text that is not broken at its end breaks no line. -/
theorem cut_of_isClear
    {found : List Char}
    (rest : List Char)
    (hSome : found ≠ [])
    (hClear : IsClear found) :
    found.getLast? ≠ some '\r' ∧
      (found ++ rest).head? ≠ some '\n' := by
  constructor
  · intro hLast
    exact hClear.flat _ (List.mem_of_getLast? hLast) (.inr rfl)
  · rcases exists_of_isClear hSome hClear with
      ⟨c, others, rfl, hBreak, _⟩
    rintro ⟨⟩
    exact hBreak (.inl rfl)

/- A token of a scan ends no line break. -/
theorem cut_of_shows
    {table : TokenTable}
    {before part behind : List Char}
    {token : Token}
    (hSolid : table.IsSolid)
    (hClear : table.IsClear)
    (h : Scan.Shows table before part behind token) :
    ¬(part.getLast? = some '\r' ∧
      behind.head? = some '\n') := by
  cases token with
  | text length =>
      rcases h.2 with rfl | ⟨found, rest, other, rfl, hFinds⟩
      · simp
      · have hFound :=
          (TextByte.flat_of_finds hSolid hClear.isFlat hFinds).1
        exact fun hBoth =>
          (cut_of_isClear rest hFound (hClear.of_finds hFinds)).2
            hBoth.2
  | bracket leaf id =>
      have hFound :=
        (TextByte.flat_of_finds hSolid hClear.isFlat h).1
      exact fun hBoth =>
        (cut_of_isClear [] hFound
          (hClear.of_finds h)).1 hBoth.1

/- A token of a scan is settled. -/
theorem settles_of_shows
    {table : TokenTable}
    {before part behind : List Char}
    {token : Token}
    (hSolid : table.IsSolid)
    (hClear : table.IsClear)
    (h : Scan.Shows table before part behind token) :
    Settles true (ofText behind ++ pads) (ofText part) := by
  cases token with
  | text length =>
      apply settles_of_stopsAt
      rcases h.2 with rfl | ⟨found, rest, other, rfl, hFinds⟩
      · exact stopsAt_pads
      · exact stopsAt_of_isClear rest
          (TextByte.flat_of_finds hSolid hClear.isFlat hFinds).1
          (hClear.of_finds hFinds)
  | bracket leaf id =>
      exact settles_of_isClear
        (TextByte.flat_of_finds hSolid hClear.isFlat h).1
        (hClear.of_finds h)

/- The tokens of a scan spell the characters of the text. -/
theorem spells_of_scan
    {table : TokenTable}
    {before part : List Char}
    {chars : List BreakChar}
    {tokens : List Token}
    (hSolid : table.IsSolid)
    (hClear : table.IsClear)
    (h : Spells (Scan.Shows table) before tokens part []) :
    Spells Shows chars tokens (ofText part) pads := by
  induction tokens generalizing before part chars with
  | nil =>
      subst h
      rfl
  | cons token rest ih =>
      rcases h with
        ⟨first, more, rfl, hSome, hSize, hShows, hMore⟩
      rw [List.append_nil] at hShows
      refine ⟨ofText first, ofText more,
        ofText_append (cut_of_shows hSolid hClear hShows),
        ofText_eq_nil.not.2 hSome, ?_,
        ⟨isWhole_ofText first,
          settles_of_shows hSolid hClear hShows⟩, ih hMore⟩
      rw [extent_ofText, ← hSize, extent_chars]

end BreakChar

end Bracketry

------------------------------------------------------------
-- What is behind a Reader
------------------------------------------------------------

namespace Bracketry

/- Where all is code, a mark is a match of a literal. -/
theorem LineSource.exists_found
    {source : LineSource}
    {place : Position}
    {token : Token}
    {others : List (Nat × Token)}
    {text : List Char}
    (hSolid : source.table.IsSolid)
    (hPlain : source.spans = SpanTable.plain)
    (hOf : source.IsOf text)
    (hMarks :
      source.marksAt place = (place.columns, token) :: others) :
    ∃ left found right,
      source.content.line place.lines =
          left ++ (found ++ right) ∧
        Text.byteSize left = place.columns ∧
        token.length.columns = Text.byteSize found ∧
        Pattern.firstAt? source.table.literals left.getLast?
            (found ++ right) = some (found, right) := by
  rw [LineSource.marksAt_plain hOf hPlain] at hMarks
  cases hFind :
      LineReader.findBracket? source.table
        (source.content.line place.lines) place.columns
        (Text.byteSize (source.content.line place.lines)) with
  | none =>
      rw [LineReader.marksBetween_of_none hFind] at hMarks
      cases hMarks
  | some result =>
      rcases result with ⟨skipped, other⟩
      rw [(LineReader.marksBetween_of_some hSolid hFind).1]
        at hMarks
      rcases Prod.mk.inj (List.cons.inj hMarks).1 with
        ⟨hColumn, rfl⟩
      simp only [LineReader.findBracket?,
        Option.bind_eq_bind, Option.bind_eq_some_iff,
        Prod.exists, Option.pure_def, Option.some.injEq,
        Prod.mk.injEq] at hFind
      rcases hFind with
        ⟨searched, beyond, hAll, left, rest, hLeft, match_,
          hMatch, token, hToken, hSkipped, rfl⟩
      rcases Text.splitAt?_eq_some.1 hAll with ⟨hLine, hSize⟩
      rcases Text.splitAt?_eq_some.1 hLeft with ⟨rfl, hColumns⟩
      rcases Pattern.exists_of_find? hMatch with
        ⟨right, rfl, hFirst⟩
      have hNone : match_.skipped = [] := by
        by_contra hSome
        have hPos := byteSize_pos hSome
        omega
      have hBeyond : beyond = [] := by
        by_contra hSome
        have hPos := byteSize_pos hSome
        rw [hLine, Text.byteSize_append _ beyond] at hSize
        omega
      rw [hNone] at hFirst
      subst hBeyond
      exact ⟨left, match_.found, right, by simp [hLine, hNone],
        hColumns, (TokenTable.of_tokenOfMatch? hToken).2,
        hFirst⟩

namespace BreakChar

/- A line that ends behind a place stops text there. -/
theorem stopsAt_of_split
    {behind : List Char}
    {ending : List Char}
    {rest : List Line}
    (hSplit : Line.split behind = ⟨[], ending⟩ :: rest) :
    StopsAt (ofText behind ++ pads) := by
  fun_cases Line.split behind with
  | case1 => exact stopsAt_pads
  | case2 others => exact ⟨.char '\n', rfl, by decide, by decide⟩
  | case3 others => exact ⟨.carriage, rfl, by decide, by decide⟩
  | case4 c others _ _ hNil =>
      exact absurd hNil (Line.split_ne_nil others)
  | case5 c others hFeed hReturn first lines hCons =>
      rw [Line.split_cons hFeed ?_ hCons] at hSplit
      · cases hSplit
      · rintro ⟨rfl, hHead⟩
        rcases List.head?_eq_some_iff.1 hHead with ⟨more, rfl⟩
        exact hReturn more rfl rfl

/- What is behind a place begins with the rest of its line. -/
theorem exists_behind
    {source : LineSource}
    {before behind left right : List Char}
    (hOf : source.IsOf (before ++ behind))
    (hCut :
      ¬(before.getLast? = some '\r' ∧
        behind.head? = some '\n'))
    (hLine :
      source.content.line (Length.ofText before).lines =
        left ++ right)
    (hLeft :
      Text.byteSize left = (Length.ofText before).columns) :
    ∃ ending rest,
      Line.split behind = ⟨right, ending⟩ :: rest := by
  rcases LineSource.exists_lines hOf hCut with
    ⟨passed, other, first, rest, hBehind, hLines, hLength⟩
  rw [hLength] at hLine hLeft
  have hHere :
      source.content.line passed.length =
        other ++ first.text :=
    Content.line_of_append hLines
  rw [hHere] at hLine
  have hSame := Text.splitAt?_append left right
  rw [← hLine, hLeft, Text.splitAt?_append] at hSame
  rcases Prod.mk.inj (Option.some.inj hSame) with ⟨_, rfl⟩
  exact ⟨first.ending, rest, hBehind⟩

/-
  Where a reader stops, a line begins, or what is behind it
  stops text.
-/
theorem stopsAt_of_stops
    {source : LineSource}
    {reader : LineReader}
    {before behind : List Char}
    (hSolid : source.table.IsSolid)
    (hClear : source.table.IsClear)
    (hPlain : source.spans = SpanTable.plain)
    (hOf : source.IsOf (before ++ behind))
    (hCut :
      ¬(before.getLast? = some '\r' ∧
        behind.head? = some '\n'))
    (hFollows : reader.Follows source)
    (hKnows : reader.Knows source)
    (hPlace : reader.place = Length.ofText before)
    (hStops : reader.Stops source) :
    (Length.ofText before).columns = 0 ∨
      StopsAt (ofText behind ++ pads) := by
  rw [← hPlace]
  rcases hStops with hPending | hZero | hWidth
  · right
    rcases Option.isSome_iff_exists.1 hPending with
      ⟨token, hToken⟩
    have hAhead := (hFollows.pending token hToken).2.2.2
    rw [hKnows.ahead] at hAhead
    rcases LineSource.exists_found hSolid hPlain hOf hAhead with
      ⟨left, found, right, hLine, hLeft, hSize, hFound⟩
    rw [hPlace] at hLine hLeft
    rcases exists_behind hOf hCut hLine hLeft with
      ⟨ending, rest, hBehind⟩
    rcases Line.endsLine_split hBehind with ⟨hText, _⟩
    have hSome := (hSolid.found_ne_nil hFound).2
    rw [hText, List.append_assoc]
    exact stopsAt_of_isClear _ hSome
      (hClear.of_firstAt? hFound)
  · exact .inl hZero
  · right
    have hLine :
        source.content.line (Length.ofText before).lines =
          source.content.line reader.line ++ [] := by
      rw [← hPlace, List.append_nil]
      rfl
    rcases exists_behind hOf hCut hLine (by
        rw [← hPlace]
        exact (hWidth.trans (hOf.columnCount_eq _)).symm) with
      ⟨ending, rest, hBehind⟩
    exact stopsAt_of_split hBehind

end BreakChar

end Bracketry

------------------------------------------------------------
-- Readers among Characters
------------------------------------------------------------

namespace Bracketry

open Measured

namespace BreakChar

/- A document where all is code, read as its characters. -/
def script
    (source : LineSource)
    (text : List Char) :
    Script BreakChar where
  source := source
  text := ofText text
  ending := pads
  Shows := Shows
  Stands reader before _ :=
    reader.Follows source ∧ reader.Knows source ∧
      reader.IsPlain ∧ IsWhole before ∧
      reader.place = extent before

variable {source : LineSource} {text : List Char}

/- A token of a reader ends where the text is cut. -/
theorem exists_stop
    {reader after : LineReader}
    {token : Token}
    {before behind : List Char}
    (hSolid : source.table.IsSolid)
    (hClear : source.table.IsClear)
    (hPlain : source.spans = SpanTable.plain)
    (hOf : source.IsOf (before ++ behind))
    (hReader : reader.Follows source)
    (hPlace : reader.place = Length.ofText before)
    (hPasses : LineReader.Passes source reader token after)
    (hAfter : after.Knows source)
    (hStops : token.isBracket = true ∨ after.Stops source)
    (hMarks :
      if token.isBracket then
        token.length.lines = 0 ∧
          source.IsMarked reader.place token
      else source.IsSilent reader.place after.place) :
    ∃ part more,
      behind = part ++ more ∧
        Length.ofText part = token.length ∧
        (token.isBracket = true → IsClear part) := by
  by_cases hBracket : token.isBracket = true
  · rw [if_pos hBracket, hPlace] at hMarks
    rcases hMarks with ⟨hLines, hMarked⟩
    rcases LineSource.exists_found hSolid hPlain hOf
        hMarked with
      ⟨left, found, right, hLine, hLeft, hSize, hFound⟩
    rcases exists_behind hOf
        (LineSource.cut_of_hasPlace hOf
          (hPlace ▸ hReader.hasPlace)) hLine hLeft with
      ⟨ending, rest, hBehind⟩
    rcases Line.endsLine_split hBehind with ⟨hText, _⟩
    have hPart := hClear.of_firstAt? hFound
    refine ⟨found, _, hText.trans (List.append_assoc _ _ _),
      ?_, fun _ => hPart⟩
    rw [ofText_of_flat hPart.flat, ← hSize, ← hLines]
  · rcases TextChar.exists_cut_of_stops hPlain hOf
        hPasses.follows hAfter
        (hStops.resolve_left hBracket) with
      ⟨passed, more, hText, hPassed⟩
    have hNext := hPasses.place
    rw [hPlace] at hNext
    have hExtent : extent passed = after.place := by
      rw [extent_chars, hPassed]
    rcases exists_of_extent_le hText (by
        rw [hExtent, hNext, extent_chars]
        exact Length.le_add_right _ _) with
      ⟨part, rfl, rfl⟩
    rw [Length.ofText_append, hNext] at hPassed
    exact ⟨part, more, rfl, Length.add_left_cancel hPassed,
      fun hSome => absurd hSome hBracket⟩

/- A reader of code reads a stretch that is settled. -/
theorem exists_read
    {reader : LineReader}
    {before ahead : List BreakChar}
    (hSolid : source.table.IsSolid)
    (hClear : source.table.IsClear)
    (hPlain : source.spans = SpanTable.plain)
    (hOf : source.IsOf text)
    (hText : ofText text = before ++ ahead)
    (hStands :
      (script source text).Stands reader before ahead) :
    (ahead = [] ∧ reader.read source = .ok (none, reader)) ∨
      ∃ token after first more,
        reader.read source = .ok (some token, after) ∧
          token.IsRegular ∧ ahead = first ++ more ∧
          first ≠ [] ∧ extent first = token.length ∧
          Shows before first (more ++ pads) token ∧
          (script source text).Stands after (before ++ first)
            more := by
  rcases hStands with ⟨hReader, hKnows, hOne, hWhole, hPlace⟩
  rcases exists_cut hText hWhole with
    ⟨passed, rest, rfl, rfl, rfl, hCut⟩
  rw [extent_ofText] at hPlace
  rcases hKnows.read_spec hOf.hasRoom hSolid hReader with
    ⟨hEnd, hRead⟩ |
      ⟨token, after, hRead, hPasses, hAfter, hMarks⟩
  · refine .inl ⟨?_, hRead⟩
    rw [hPlace, LineSource.length_eq hOf,
      Length.ofText_append] at hEnd
    have hZero := Length.add_eq_left.1 hEnd.symm
    rw [← extent_ofText] at hZero
    exact extent_eq_zero.1 hZero
  · rcases LineReader.read_stops hSolid hPlain hReader hOne
        hRead with
      ⟨hOneAfter, hStops⟩
    rcases exists_stop hSolid hClear hPlain hOf hReader hPlace
        hPasses hAfter hStops hMarks with
      ⟨part, more, rfl, hLength, hPart⟩
    have hSome : part ≠ [] := by
      rintro rfl
      exact hPasses.ne_zero hLength.symm
    have hNext :
        after.place = Length.ofText (passed ++ part) := by
      rw [hPasses.place, hPlace, Length.ofText_append,
        hLength]
    have hAgain :
        source.IsOf ((passed ++ part) ++ more) := by
      rwa [List.append_assoc]
    have hStop :=
      LineSource.cut_of_hasPlace hAgain
        (hNext ▸ hPasses.follows.hasPlace)
    have hPartStop := hStop
    rw [List.getLast?_append_of_ne_nil _ hSome] at hPartStop
    have hStart :
        ¬(passed.getLast? = some '\r' ∧
          part.head? = some '\n') := by
      rwa [List.head?_append_of_ne_nil _ hSome] at hCut
    refine .inr ⟨token, after, ofText part, ofText more, hRead,
      hPasses.regular, ofText_append hPartStop,
      ofText_eq_nil.not.2 hSome, ?_,
      ⟨isWhole_ofText part, ?_⟩, hPasses.follows, hAfter,
      hOneAfter, ?_, ?_⟩
    · rw [extent_ofText, hLength]
    · by_cases hBracket : token.isBracket = true
      · exact settles_of_isClear hSome (hPart hBracket)
      rcases stopsAt_of_stops hSolid hClear hPlain hAgain hStop
          hPasses.follows hAfter hNext
          (hStops.resolve_left hBracket) with hZero | hStopsAt
      · -- The stretch ends a line.
        rw [← extent_ofText, ← endsLine_true_iff,
          ofText_append hStart, endsLine_append] at hZero
        exact settles_of_endsLine hZero
      · exact settles_of_stopsAt true _ hStopsAt
    · exact isWhole_append hWhole (isWhole_ofText part)
    · rw [← ofText_append hStart, extent_ofText, hNext]

theorem isSound_script
    (hSolid : source.table.IsSolid)
    (hClear : source.table.IsClear)
    (hPlain : source.spans = SpanTable.plain)
    (hOf : source.IsOf text)
    (hShort : Text.IsShort text) :
    (script source text).IsSound where
  small := isSmall_ofText hShort
  few := by
    have hBytes := LineSource.length_le_bound hOf
    have hTextChars := TextChar.length_le text
    rw [TextByte.length_ofText] at hBytes
    rw [TextChar.ofText, List.length_map] at hTextChars
    rw [script, length_ofText]
    exact Nat.le_trans hTextChars hBytes
  short := by
    have hTextChars := TextChar.length_le text
    rw [TextChar.ofText, List.length_map] at hTextChars
    unfold Text.IsShort at hShort
    rw [script, length_ofText]
    omega
  ends := by simp [script, pads]
  start := by
    refine ⟨LineReader.follows_start source,
      LineReader.knows_ofPosition ?_ 0, ?_, isWhole_nil, rfl⟩
    · simp [hPlain, SpanTable.IsSorted, SpanTable.plain]
    · rintro _ ⟨⟩
  read := exists_read hSolid hClear hPlain hOf

end BreakChar

end Bracketry

------------------------------------------------------------
-- Streams among Characters
------------------------------------------------------------

namespace Bracketry

open Measured

namespace BreakChar

/-
  A stream between two parts of a text: tokens of a scan that
  spell what is ahead, or a reader that stands there.
-/
inductive IsAt
    (source : LineSource)
    (text : List Char) :
    TokenStream → List BreakChar → List BreakChar → Prop where
  | scanned
    {tokens : List Token}
    {before ahead : List BreakChar}
    (length : Length)
    (hText : ofText text = before ++ ahead)
    (hWhole : IsWhole before)
    (hSpells : Spells Shows before tokens ahead pads) :
    IsAt source text
      ⟨.scanned tokens length, extent before⟩ before ahead
  | lines
    {reader : LineReader}
    {peeked : Option (Option Token)}
    {before ahead : List BreakChar}
    (hText : ofText text = before ++ ahead)
    (hWhole : IsWhole before)
    (hPeeks :
      (script source text).Peeks reader before ahead peeked) :
    IsAt source text
      ⟨.lines source reader peeked, extent before⟩ before ahead

namespace IsAt

variable {source : LineSource} {text : List Char}
variable {stream after : TokenStream}
variable {before ahead first more : List BreakChar}

theorem text_eq
    (h : IsAt source text stream before ahead) :
    ofText text = before ++ ahead := by
  cases h <;> assumption

theorem offset
    (h : IsAt source text stream before ahead) :
    stream.offset = extent before := by
  cases h <;> rfl

theorem peek
    {next : Option Token}
    (hSound : (script source text).IsSound)
    (h : IsAt source text stream before ahead)
    (hPeek : stream.peek = .ok (next, after)) :
    IsAt source text after before ahead := by
  cases h with
  | scanned length hText hWhole hSpells =>
      cases hPeek
      exact .scanned length hText hWhole hSpells
  | @lines reader peeked _ _ hText hWhole hPeeks =>
      cases peeked with
      | some token =>
          cases hPeek
          exact .lines hText hWhole hPeeks
      | none =>
          rcases Checked.bind_eq_ok_iff.1 hPeek with
            ⟨⟨token, later⟩, hRead, hPeek⟩
          cases hPeek
          rcases hSound.read hText hPeeks with
            ⟨hEnd, hNone⟩ |
              ⟨other, last, part, rest, hSome, hRegular, hRest⟩
          · cases hRead.symm.trans hNone
            exact .lines hText hWhole ⟨hPeeks, hEnd⟩
          · cases hRead.symm.trans hSome
            exact .lines hText hWhole
              ⟨hRegular, part, rest, hRest⟩

/- The offset that a stream moves to. -/
theorem eq_of_passed
    {origin : TokenStream}
    {tokens : TokenSource}
    {token : Token}
    {found : Option Token}
    (h : origin.passed tokens token = .ok (found, after)) :
    found = some token ∧
      after = ⟨tokens, origin.offset + token.length⟩ := by
  rcases Checked.bind_eq_ok_iff.1 h with ⟨offset, hOffset, h⟩
  rcases Length.plus_eq_ok_iff.1 hOffset with ⟨_, rfl⟩
  cases h
  exact ⟨rfl, rfl⟩

/- What a read leaves of the characters ahead. -/
def Reads
    (source : LineSource)
    (text : List Char)
    (before ahead : List BreakChar)
    (found : Option Token)
    (after : TokenStream) :
    Prop :=
  ∃ part rest,
    ahead = part ++ rest ∧
      IsAt source text after (before ++ part) rest ∧
      (found = none → part = []) ∧
      ∀ token, found = some token →
        extent part = token.length ∧
          Shows before part (rest ++ pads) token

/- Nothing is read. -/
theorem reads_none
    (h : IsAt source text after before ahead) :
    Reads source text before ahead none after :=
  ⟨[], ahead, rfl, by rwa [List.append_nil], fun _ => rfl,
    nofun⟩

/- A reader passes the token that it read. -/
theorem reads_lines
    {reader : LineReader}
    {origin : TokenStream}
    {token : Token}
    {found : Option Token}
    (hText : ofText text = before ++ ahead)
    (hWhole : IsWhole before)
    (hPeeks :
      (script source text).Peeks reader before ahead
        (some (some token)))
    (hOffset : origin.offset = extent before)
    (h :
      origin.passed (.lines source reader none) token =
        .ok (found, after)) :
    Reads source text before ahead found after := by
  rcases eq_of_passed h with ⟨rfl, rfl⟩
  rcases hPeeks with
    ⟨_, part, rest, rfl, hSome, hSize, hShows, hStands⟩
  refine ⟨part, rest, rfl, ?_, nofun, ?_⟩
  · rw [hOffset, ← hSize, ← extent_append]
    exact .lines (by rw [hText, List.append_assoc])
      (isWhole_append hWhole hShows.1) hStands
  · rintro _ ⟨⟩
    exact ⟨hSize, hShows⟩

/- A token that is read stands for what it shows. -/
theorem read
    {found : Option Token}
    (hSound : (script source text).IsSound)
    (h : IsAt source text stream before ahead)
    (hRead : stream.read = .ok (found, after)) :
    Reads source text before ahead found after := by
  cases h with
  | @scanned tokens _ _ length hText hWhole hSpells =>
      cases tokens with
      | nil =>
          cases hRead
          exact reads_none (.scanned length hText hWhole hSpells)
      | cons token others =>
          rcases eq_of_passed hRead with ⟨rfl, rfl⟩
          rcases hSpells with
            ⟨part, rest, rfl, hSome, hSize, hShows, hMore⟩
          refine ⟨part, rest, rfl, ?_, nofun, ?_⟩
          · rw [← hSize, ← extent_append]
            exact .scanned length
              (by rw [hText, List.append_assoc])
              (isWhole_append hWhole hShows.1) hMore
          · rintro _ ⟨⟩
            exact ⟨hSize, hShows⟩
  | @lines reader peeked _ _ hText hWhole hPeeks =>
      cases peeked with
      | some next =>
          cases next with
          | none =>
              cases hRead
              exact reads_none (.lines hText hWhole hPeeks.1)
          | some token =>
              exact reads_lines hText hWhole hPeeks rfl hRead
      | none =>
          rcases Checked.bind_eq_ok_iff.1 hRead with
            ⟨⟨token, later⟩, hReader, hRead⟩
          rcases hSound.read hText hPeeks with
            ⟨hEnd, hNone⟩ |
              ⟨other, last, part, rest, hSome, hRegular, hRest⟩
          · cases hReader.symm.trans hNone
            cases hRead
            exact reads_none (.lines hText hWhole hPeeks)
          · cases hReader.symm.trans hSome
            exact reads_lines hText hWhole
              ⟨hRegular, part, rest, hRest⟩ rfl hRead

/- A stream that skips a stretch stands behind it. -/
theorem skip
    (hPlain : source.spans = SpanTable.plain)
    (hOf : source.IsOf text)
    (h : IsAt source text stream before (first ++ more))
    (hWhole : IsWhole first)
    (hSkip : stream.skip (extent first) = .ok after) :
    IsAt source text after (before ++ first) more := by
  cases h with
  | scanned length hText hBefore hSpells => cases hSkip
  | lines hText hBefore hPeeks =>
      rcases Checked.bind_eq_ok_iff.1 hSkip with
        ⟨offset, hOffset, hSkip⟩
      rcases Length.plus_eq_ok_iff.1 hOffset with ⟨_, rfl⟩
      cases hSkip
      have hAll := isWhole_append hBefore hWhole
      rw [← List.append_assoc] at hText
      rcases exists_cut hText hAll with
        ⟨passed, rest, rfl, hPassed, hRest, hCut⟩
      have hPlace := LineSource.hasPlace_of_cut hOf hCut
      simp only
      rw [← extent_append]
      rw [← extent_ofText, hPassed] at hPlace
      refine .lines hText hAll
        ⟨LineReader.follows_ofPosition hPlace,
          LineReader.knows_ofPosition ?_ _, ?_, hAll, rfl⟩
      · simp [hPlain, SpanTable.IsSorted, SpanTable.plain]
      · rintro _ ⟨⟩

end IsAt

end BreakChar

end Bracketry
