import Bracketry.Proofs.CountedLines
import Bracketry.Proofs.Lines
import Bracketry.Proofs.Scripts

/-
  Reading the bytes of a document.

  Whatever the classification of its lines is, a reader of a
  document stands at places that split its bytes, and its
  tokens are made of the bytes between two of them.  These
  places remain places where the bytes around them are kept.
  The same holds of pieces that tell more of a document, as
  long as each of them has a byte.

  Key definitions include:
    * `LineSource.IsOf`
    * `TextByte.Shows`, `TextByte.script`
    * `TextByte.Carries`

  Main declarations:
    * `TextByte.read_bytes`
    * `TextByte.isSound_of_carries`, `TextByte.keeps_of_carries`
    * `TextByte.isSound_script`
    * `TextByte.keeps_script`
-/

------------------------------------------------------------
-- Sizes of Bytes
------------------------------------------------------------

namespace Bracketry

open Measured

namespace TextByte

/- A stretch is no longer than the number of its bytes. -/
theorem extent_le_length
    (bytes : List TextByte) :
    (extent bytes).lines ≤ bytes.length ∧
      (extent bytes).columns ≤ bytes.length := by
  induction bytes with
  | nil => exact ⟨Nat.le_refl 0, Nat.le_refl 0⟩
  | cons byte rest ih =>
      have hSize :
          (size byte).lines + (size byte).columns = 1 := by
        cases byte <;> rfl
      rw [extent_cons, Length.add_lines, Length.add_columns,
        List.length_cons]
      split_ifs <;> omega

/- Few bytes make a small text. -/
theorem isSmall_of_length
    {bytes : List TextByte}
    (h : bytes.length < 2 ^ 31) :
    IsSmall bytes := by
  rintro before behind rfl
  have hExtent := extent_le_length before
  rw [List.length_append] at h
  omega

/- Lines behind the end of a text. -/
def pads
    (count : Nat) :
    List TextByte :=
  List.replicate (count + 1) .beyond

theorem beyond_not_mem
    {text : List Char}
    {byte : TextByte}
    {count : Nat}
    (h : byte ∈ ofText text) :
    byte ∉ pads count := by
  intro hPad
  rw [List.eq_of_mem_replicate hPad, ofText,
    List.mem_flatMap] at h
  rcases h with ⟨c, _, hByte⟩
  unfold ofChar at hByte
  split_ifs at hByte
  · simp at hByte
  · simp at hByte
  · cases List.eq_of_mem_replicate hByte

end TextByte

end Bracketry

------------------------------------------------------------
-- Sources of a Document
------------------------------------------------------------

namespace Bracketry

open Measured

namespace LineSource

variable {source : LineSource} {text : List Char}

theorem lastLine_of_areCounted
    (hLines : source.content.lines = Line.split text)
    (hCounted : Line.AreCounted (Line.split text)) :
    source.lastLine = (Line.split text).length - 1 := by
  have hPos :=
    List.length_pos_of_ne_nil (Line.split_ne_nil text)
  rw [lastLine, Content.lineCount, hLines, hCounted.count_eq,
    Nat.max_eq_left hPos]

/- The end of the last line is the length of the text. -/
theorem length_of_areCounted
    (hLines : source.content.lines = Line.split text)
    (hCounted : Line.AreCounted (Line.split text)) :
    source.length = Length.ofText text := by
  have hLast := lastLine_of_areCounted hLines hCounted
  rw [← Line.endPosition_split, ← hCounted.countedEnd_eq,
    length, hLast, ← hCounted.last_eq, Content.columnCount,
    hLines]
  rfl

/-
  The source reads the lines of a text, which a reader can
  count.
-/
structure IsOf
    (source : LineSource)
    (text : List Char) :
    Prop where
  lines : source.content.lines = Line.split text
  readable : Line.AreReadable (Line.split text)

theorem isOf_of_isShort
    (hLines : source.content.lines = Line.split text)
    (hShort : Text.IsShort text) :
    source.IsOf text :=
  ⟨hLines, hShort.areReadable⟩

theorem IsOf.columnCount_eq
    (h : source.IsOf text)
    (number : Nat) :
    source.content.columnCount number =
      Text.byteSize (source.content.line number) := by
  rw [Content.columnCount, Content.line, h.lines]
  exact h.readable.areCounted.width_eq number

theorem IsOf.lastLine_eq
    (h : source.IsOf text) :
    source.lastLine = (Line.split text).length - 1 :=
  lastLine_of_areCounted h.lines h.readable.areCounted

/- A reader has room on each line. -/
theorem IsOf.hasRoom
    (h : source.IsOf text) :
    source.HasRoom := by
  intro number _
  rw [h.columnCount_eq, Content.line, h.lines,
    Line.byteSize_textAt]
  cases hLine : (Line.split text)[number]? with
  | none => decide
  | some line =>
      exact h.readable.2 line (List.mem_of_getElem? hLine)

theorem hasPlace_iff
    {place : Position}
    (h : source.IsOf text) :
    source.HasPlace place ↔
      TextByte.HasSplit (TextByte.ofText text) place := by
  have hPos :=
    List.length_pos_of_ne_nil (Line.split_ne_nil text)
  rw [← TextByte.hasPlace_iff, HasPlace, Line.HasPlace,
    h.lastLine_eq, h.columnCount_eq, Content.line, h.lines,
    Line.byteSize_textAt]
  constructor
  · rintro ⟨hLine, hColumn⟩
    have hLess : place.lines < (Line.split text).length := by
      omega
    rw [List.getElem?_eq_getElem hLess] at hColumn ⊢
    exact ⟨_, rfl, hColumn⟩
  · rintro ⟨line, hLine, hColumn⟩
    rcases List.getElem?_eq_some_iff.1 hLine with ⟨hLess, _⟩
    rw [hLine]
    exact ⟨by omega, hColumn⟩

theorem length_eq
    (h : source.IsOf text) :
    source.length = Length.ofText text :=
  length_of_areCounted h.lines h.readable.areCounted

/- What a stream has room for, as a sum over the lines. -/
theorem bound_ofLines
    (source : LineSource) :
    (TokenStream.ofLines source).bound =
      2 * (source.content.lines.map fun line =>
        Text.byteSize line.text + 1).sum + 2 := by
  have hFold :
      ∀ (lines : List Line) (size : Nat),
        lines.foldl (fun size line =>
            size + Text.byteSize line.text + 1) size =
          size + (lines.map fun line =>
            Text.byteSize line.text + 1).sum := by
    intro lines
    induction lines with
    | nil => simp
    | cons line rest ih =>
        intro size
        rw [List.foldl_cons, ih, List.map_cons,
          List.sum_cons]
        omega
  simp only [TokenStream.bound, TokenStream.ofLines, hFold,
    Nat.zero_add]

/- A stream has room for all bytes. -/
theorem length_le_bound
    (h : source.IsOf text) :
    (TextByte.ofText text).length ≤
      (TokenStream.ofLines source).bound := by
  have hLines := (Line.sum_columns_split text).2
  unfold Line.columns at hLines
  rw [bound_ofLines, h.lines, TextByte.length_ofText]
  omega

end LineSource

end Bracketry

------------------------------------------------------------
-- The Script of a Document
------------------------------------------------------------

namespace Bracketry

open Measured

namespace TextByte

/- A token begins and ends where the bytes can be split. -/
def Shows
    (before part behind : List TextByte)
    (_ : Token) :
    Prop :=
  Splits before (part ++ behind) ∧
    Splits (before ++ part) behind

/- A document that is read by lines, as bytes. -/
def script
    (source : LineSource)
    (text : List Char)
    (count : Nat) :
    Script TextByte where
  source := source
  text := ofText text
  ending := pads count
  Shows := Shows
  Stands reader before _ :=
    reader.Follows source ∧ reader.place = extent before

variable {source : LineSource} {text : List Char}

theorem splits_pads
    {before ahead : List TextByte}
    {count : Nat} :
    Splits before (ahead ++ pads count) ↔
      Splits before ahead := by
  unfold Splits
  cases ahead with
  | nil => simp [pads, List.replicate_succ]
  | cons byte rest => rfl

/- A reader stands where the bytes are split. -/
theorem splits_of_follows
    {reader : LineReader}
    {before ahead : List TextByte}
    (hOf : source.IsOf text)
    (hText : ofText text = before ++ ahead)
    (hReader : reader.Follows source)
    (hPlace : reader.place = extent before) :
    Splits before ahead := by
  have hHas := hReader.hasPlace
  rw [LineSource.hasPlace_iff hOf] at hHas
  rcases hHas with ⟨first, last, hBytes, hExtent, hSplits⟩
  have hSame : first ++ last = before ++ ahead := by
    rw [← hBytes, hText]
  rcases eq_of_extent_eq hSame (hExtent.trans hPlace) with
    ⟨rfl, rfl⟩
  exact hSplits

/-
  In front of the end of a document, a reader reads a token
  of some of the bytes ahead of it.
-/
theorem read_bytes
    {reader : LineReader}
    {before ahead : List TextByte}
    (hOf : source.IsOf text)
    (hSolid : source.table.IsSolid)
    (hText : ofText text = before ++ ahead)
    (hReader : reader.Follows source)
    (hPlace : reader.place = extent before) :
    (ahead = [] ∧ reader.read source = .ok (none, reader)) ∨
      ∃ token after first more,
        reader.read source = .ok (some token, after) ∧
          LineReader.Passes source reader token after ∧
          ahead = first ++ more ∧ first ≠ [] ∧
          extent first = token.length ∧
          Splits (before ++ first) more ∧
          after.place = extent (before ++ first) := by
  rcases LineReader.read_of_hasRoom hOf.hasRoom hSolid
      hReader with
    ⟨hEnd, hRead⟩ | ⟨token, after, hRead, hPasses⟩
  · refine .inl ⟨?_, hRead⟩
    rw [hPlace, LineSource.length_eq hOf, ← extent_ofText,
      hText, extent_append] at hEnd
    exact extent_eq_zero.1 (Length.add_eq_left.1 hEnd.symm)
  · have hAfter := hPasses.follows.hasPlace
    rw [LineSource.hasPlace_iff hOf] at hAfter
    rcases hAfter with ⟨passed, more, hBytes, hExtent, hStop⟩
    have hLength :
        extent passed = extent before + token.length := by
      rw [hExtent, hPasses.place, hPlace]
    have hSame : before ++ ahead = passed ++ more := by
      rw [← hText, hBytes]
    rcases exists_of_extent_le hSame (by
        rw [hLength]
        exact Length.le_add_right _ _) with
      ⟨first, rfl, rfl⟩
    rw [extent_append] at hLength
    have hFirst := Length.add_left_cancel hLength
    refine .inr ⟨token, after, first, more, hRead, hPasses,
      rfl, ?_, hFirst, hStop, hExtent.symm⟩
    rintro rfl
    exact hPasses.ne_zero hFirst.symm

/- Only the bytes next to a place tell if it splits them. -/
theorem splits_congr
    {a b c d : List TextByte}
    (hLast : a.getLast? = c.getLast?)
    (hHead : b.head? = d.head?) :
    Splits a b ↔ Splits c d := by
  unfold Splits
  rw [hLast, hHead]

/- What a token shows depends on the bytes next to it. -/
theorem isLocal_shows :
    IsLocal Shows := by
  rintro before other first behind later token hSome hLast
    hHead ⟨hStart, hStop⟩
  refine ⟨(splits_congr hLast ?_).1 hStart,
    (splits_congr ?_ hHead).1 hStop⟩
  · cases first with
    | nil => exact absurd rfl hSome
    | cons byte rest => rfl
  · rw [List.getLast?_append_of_ne_nil _ hSome,
      List.getLast?_append_of_ne_nil _ hSome]

end TextByte

end Bracketry

------------------------------------------------------------
-- Pieces with Bytes
------------------------------------------------------------

namespace Bracketry

open Measured

namespace TextByte

variable {α : Type} {byteOf : α → TextByte}

/- What holds of bytes next to a token is local to pieces. -/
theorem isLocal_map
    (Means : List α → Token → Prop) :
    IsLocal fun before part behind token =>
      Shows (before.map byteOf) (part.map byteOf)
          (behind.map byteOf) token ∧
        Means part token := by
  rintro before other first behind later token hSome hLast
    hHead ⟨hBytes, hMeans⟩
  refine ⟨?_, hMeans⟩
  apply isLocal_shows _ _ _ _ _ token _ _ _ hBytes
  · intro hNil
    exact hSome (List.map_eq_nil_iff.1 hNil)
  · rw [List.getLast?_map, List.getLast?_map, hLast]
  · rw [List.head?_map, List.head?_map, hHead]

variable [Measured α]

/-
  Pieces that have the bytes of a text, each with one of its
  own size, and others for lines behind the end of the text.
-/
structure Carries
    (byteOf : α → TextByte)
    (text : List Char)
    (count : Nat)
    (pieces padding : List α) :
    Prop where
  sizes : ∀ piece : α, size (byteOf piece) = size piece
  bytes : pieces.map byteOf = ofText text
  beyond : padding.map byteOf = pads count

/- Pieces are as long as their bytes. -/
theorem extent_map
    (hSizes : ∀ piece : α, size (byteOf piece) = size piece)
    (pieces : List α) :
    extent (pieces.map byteOf) = extent pieces := by
  induction pieces with
  | nil => rfl
  | cons piece rest ih =>
      rw [List.map_cons, extent_cons, extent_cons, hSizes, ih]

variable {source : LineSource} {text old : List Char}
variable {count : Nat} {pieces padding : List α}

theorem Carries.length
    (h : Carries byteOf text count pieces padding) :
    pieces.length = Text.byteSize text := by
  rw [← length_ofText, ← h.bytes, List.length_map]

/- Few bytes and few lines behind them make a small text. -/
theorem Carries.isSmall
    (h : Carries byteOf text count pieces padding)
    (hSize : Text.byteSize text + count + 1 < 2 ^ 31) :
    IsSmall (pieces ++ padding) := by
  have hSmall : IsSmall (ofText text ++ pads count) := by
    apply isSmall_of_length
    rw [List.length_append, length_ofText, pads,
      List.length_replicate]
    omega
  intro before behind hSplit
  have hParts := congrArg (List.map byteOf) hSplit
  rw [List.map_append, List.map_append, h.bytes, h.beyond]
    at hParts
  rw [← extent_map h.sizes]
  exact hSmall _ _ hParts

/- No piece of a text is one behind its end. -/
theorem Carries.apart
    (h : Carries byteOf text count pieces padding) :
    ∀ piece ∈ pieces, piece ∉ padding := by
  intro piece hPiece hPad
  have hByte := List.mem_map_of_mem (f := byteOf) hPiece
  have hBeyond := List.mem_map_of_mem (f := byteOf) hPad
  rw [h.bytes] at hByte
  rw [h.beyond] at hBeyond
  exact beyond_not_mem hByte hBeyond

/-
  Where tokens show what they show of the bytes, what they
  show ends at a place of the text.
-/
theorem Carries.hasPlace
    {Among : List α → List α → List α → Token → Prop}
    {before part ahead : List α}
    {tokens : List Token}
    (h : Carries byteOf text count pieces padding)
    (hOf : source.IsOf text)
    (hAmong :
      ∀ before first behind token,
        Among before first behind token →
          Shows (before.map byteOf) (first.map byteOf)
            (behind.map byteOf) token)
    (hText : pieces = before ++ (part ++ ahead))
    (hPart : part ≠ [])
    (hSpells :
      Spells Among before tokens part (ahead ++ padding)) :
    source.HasPlace (extent (before ++ part)) := by
  let Ends (before behind : List α) : Prop :=
    Splits (before.map byteOf) (behind.map byteOf)
  have hEnds :
      ∀ before first behind token,
        Among before first behind token →
          Ends (before ++ first) behind := by
    intro before first behind token hShows
    simpa only [Ends, List.map_append] using
      (hAmong _ _ _ _ hShows).2
  have hCut :
      Splits ((before ++ part).map byteOf)
        ((ahead ++ padding).map byteOf) :=
    hSpells.stop hEnds hPart
  have hBehind :
      (ahead ++ padding).map byteOf =
        ahead.map byteOf ++ pads count := by
    rw [List.map_append, h.beyond]
  rw [hBehind, splits_pads] at hCut
  rw [LineSource.hasPlace_iff hOf]
  refine ⟨(before ++ part).map byteOf, ahead.map byteOf, ?_,
    extent_map h.sizes _, hCut⟩
  rw [← List.map_append, List.append_assoc, ← hText, h.bytes]

/-
  A script of such pieces is read as the document is, if it
  tells of each token that is read what the token shows and
  where the reader stands behind it.
-/
theorem isSound_of_carries
    {script : Script α}
    (hCarries :
      Carries byteOf text count script.text script.ending)
    (hOf : script.source.IsOf text)
    (hSolid : script.source.table.IsSolid)
    (hSize : Text.byteSize text + count + 1 < 2 ^ 31)
    (hStart :
      script.Stands LineReader.start [] script.text)
    (hStands :
      ∀ reader before ahead,
        script.Stands reader before ahead →
          reader.Follows script.source ∧
            reader.place = extent before)
    (hRead :
      ∀ reader after token before first more,
        script.text = before ++ (first ++ more) →
          script.Stands reader before (first ++ more) →
          reader.read script.source =
            .ok (some token, after) →
          LineReader.Passes script.source reader token
            after →
          first ≠ [] → extent first = token.length →
          after.place = extent (before ++ first) →
          Shows (before.map byteOf) (first.map byteOf)
            ((more ++ script.ending).map byteOf) token →
            script.Shows before first
                (more ++ script.ending) token ∧
              script.Stands after (before ++ first) more) :
    script.IsSound := by
  constructor
  case small => exact hCarries.isSmall hSize
  case few =>
    have hFew := LineSource.length_le_bound hOf
    rwa [length_ofText, ← hCarries.length] at hFew
  case short =>
    have hLength := hCarries.length
    omega
  case ends =>
    intro hNil
    have hBeyond := hCarries.beyond
    simp [hNil, pads, List.replicate_succ] at hBeyond
  case start => exact hStart
  case read =>
    intro reader before ahead hText hHere
    rcases hStands _ _ _ hHere with ⟨hReader, hPlace⟩
    have hBytes :
        ofText text =
          before.map byteOf ++ ahead.map byteOf := by
      rw [← hCarries.bytes, hText, List.map_append]
    rw [← extent_map hCarries.sizes] at hPlace
    rcases read_bytes hOf hSolid hBytes hReader hPlace with
      ⟨hNil, hEnd⟩ |
        ⟨token, after, bytes, others, hToken, hPasses, hAhead,
          hSome, hExtent, hStop, hNext⟩
    · exact .inl ⟨List.map_eq_nil_iff.1 hNil, hEnd⟩
    · have hSplits :=
        splits_of_follows hOf hBytes hReader hPlace
      rcases List.map_eq_append_iff.1 hAhead with
        ⟨first, more, rfl, rfl, rfl⟩
      rw [extent_map hCarries.sizes] at hExtent
      rw [← List.map_append, extent_map hCarries.sizes]
        at hNext
      have hFirst : first ≠ [] := by
        rintro rfl
        exact hSome rfl
      have hShows :
          Shows (before.map byteOf) (first.map byteOf)
            ((more ++ script.ending).map byteOf) token := by
        rw [List.map_append, hCarries.beyond]
        refine ⟨?_, splits_pads.2 hStop⟩
        rw [← List.append_assoc, ← List.map_append]
        exact splits_pads.2 hSplits
      rcases hRead reader after token before first more hText
          hHere hToken hPasses hFirst hExtent hNext hShows with
        ⟨hShown, hLater⟩
      exact .inr ⟨token, after, first, more, hToken,
        hPasses.regular, rfl, hFirst, hExtent, hShown, hLater⟩

/-
  An old document keeps its places in a new one, if a reader
  that is put at a place of the new one stands there.
-/
theorem keeps_of_carries
    {script : Script α}
    {past : Past α}
    (hNew :
      Carries byteOf text count script.text script.ending)
    (hOld :
      Carries byteOf old count past.text script.ending)
    (hOf : script.source.IsOf text)
    (hSize : Text.byteSize old + count + 1 < 2 ^ 31)
    (hInherited : Forest.IsInherited past.kept)
    (hMatched :
      ∀ forest, past.kept forest → forest.IsMatched)
    (hLocal : IsLocal script.Shows)
    (hShows :
      ∀ before first behind token,
        script.Shows before first behind token →
          Shows (before.map byteOf) (first.map byteOf)
            (behind.map byteOf) token)
    (hStands :
      ∀ before ahead,
        (LineReader.ofPosition (extent before)).Follows
            script.source →
          script.Stands
            (LineReader.ofPosition (extent before)) before
            ahead)
    (hSpells :
      Spells script.Shows [] past.tokens past.text
        script.ending) :
    script.Keeps past where
  inherited := hInherited
  matched := hMatched _
  small := hOld.isSmall hSize
  apart := hOld.apart
  spelled := hSpells
  spells := by
    intro oldBefore part more oldBehind newBefore ahead
      newBehind forest _ hAhead hText hPart hMore hEnd _ _
      hTokens
    have hAgain :=
      hTokens.relocate hLocal newBehind hMore hEnd.getLast?_eq
    rw [← hAhead] at hAgain
    have hPlace :=
      hNew.hasPlace hOf hShows hText hPart hAgain
    exact ⟨hAgain, hStands _ _
      (LineReader.follows_ofPosition hPlace)⟩

end TextByte

end Bracketry

------------------------------------------------------------
-- The Script of Bytes
------------------------------------------------------------

namespace Bracketry

open Measured

namespace TextByte

variable {source : LineSource} {text : List Char}
variable {count : Nat}

/- A text is its own bytes. -/
theorem carries_ofText
    (text : List Char)
    (count : Nat) :
    Carries id text count (ofText text) (pads count) :=
  ⟨fun _ => rfl, List.map_id _, List.map_id _⟩

/- Each document is read as its bytes. -/
theorem isSound_script
    (hOf : source.IsOf text)
    (hSolid : source.table.IsSolid)
    (hSize : Text.byteSize text + count + 1 < 2 ^ 31) :
    (script source text count).IsSound := by
  refine isSound_of_carries (carries_ofText text count) hOf
    hSolid hSize ⟨LineReader.follows_start source, rfl⟩ ?_ ?_
  · exact fun _ _ _ hStands => hStands
  · intro reader after token before first more _ _ _ hPasses
      _ _ hNext hShows
    simp only [List.map_id] at hShows
    exact ⟨hShows, hPasses.follows, hNext⟩

/- An old document keeps its places in a new one. -/
theorem keeps_script
    {old : List Char}
    {tokens : List Token}
    (hOf : source.IsOf text)
    (hSize : Text.byteSize old + count + 1 < 2 ^ 31)
    (hSpells :
      Spells Shows [] tokens (ofText old) (pads count)) :
    (script source text count).Keeps
      ⟨ofText old, tokens, Forest.IsMatched⟩ := by
  refine keeps_of_carries (carries_ofText text count)
    (carries_ofText old count) hOf hSize
    Forest.isInherited_isMatched (fun _ h => h) isLocal_shows
    ?_ (fun _ _ hReader => ⟨hReader, rfl⟩) hSpells
  intro before first behind token hShows
  have hBytes : Shows before first behind token := hShows
  simpa only [List.map_id] using hBytes

end TextByte

end Bracketry
