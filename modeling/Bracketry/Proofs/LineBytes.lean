import Bracketry.Proofs.ByteReading
import Bracketry.Proofs.Marks

/-
  Bytes with their lines.

  Each byte of a text is taken with its column, and with the
  line that it stands on as it is classified.  What is marked
  between two places of a text can be told by the bytes
  between them alone.  So tokens mean the same wherever their
  bytes are kept, and tokens that spell all bytes of a text
  have the brackets of the text.

  Key definitions include:
    * `ClassifiedLine`
    * `LineByte`, `LineByte.stamp`, `LineByte.ofText`
    * `LineByte.IsQuiet`, `LineByte.Shows`

  Main declarations:
    * `LineByte.isQuiet_stamp`
    * `LineByte.isLocal_shows`
    * `LineByte.brackets_of_spells`
-/

------------------------------------------------------------
-- Classified Lines
------------------------------------------------------------

namespace Bracketry

/- The text of a line, and what its columns are. -/
structure ClassifiedLine where
  text : List Char
  spans : List Span
deriving DecidableEq, Repr, Inhabited

namespace ClassifiedLine

/- The brackets that can be read from a column on. -/
def marks
    (table : TokenTable)
    (line : ClassifiedLine)
    (column : Nat) :
    List (Nat × Token) :=
  LineReader.marksOn table line.text column line.spans

/- A line of a text, empty behind the last. -/
def ofText
    (text : List Char)
    (spans : SpanTable)
    (number : Nat) :
    ClassifiedLine :=
  ⟨(((Line.split text)[number]?).map Line.text).getD [],
    spans.onLine number⟩

end ClassifiedLine

namespace LineSource

variable {source : LineSource} {text : List Char}

theorem marksAt_eq
    (hOf : source.IsOf text)
    (place : Position) :
    source.marksAt place =
      (ClassifiedLine.ofText text source.spans
        place.lines).marks source.table place.columns := by
  unfold marksAt Content.line Line.textAt
  rw [hOf.lines]
  unfold ClassifiedLine.marks ClassifiedLine.ofText
  cases (Line.split text)[place.lines]? <;> rfl

/- A break ends what is silent on its line. -/
theorem isSilent_break
    {place stop : Position}
    (hLess : place.lines < stop.lines) :
    source.IsSilent place stop ↔
      source.marksAt place = [] ∧
        source.IsSilent ⟨place.lines + 1, 0⟩ stop := by
  constructor
  · rintro (⟨hSame, _⟩ | ⟨_, hNone, hBetween, hLast⟩)
    · omega
    · refine ⟨hNone, ?_⟩
      by_cases hNext : stop.lines = place.lines + 1
      · rw [hNext] at hLast
        exact .inl ⟨hNext, hLast⟩
      · refine .inr ⟨?_, ?_, ?_, hLast⟩
        · simp only
          omega
        · exact hBetween _ (Nat.lt_succ_self _) (by omega)
        · intro line hLow hHigh
          exact hBetween line (Nat.lt_of_succ_lt hLow) hHigh
  · rintro ⟨hNone, hRest⟩
    refine .inr ⟨hLess, hNone, ?_⟩
    rcases hRest with
      ⟨hNext, hSame⟩ | ⟨hMore, hFirst, hBetween, hLast⟩
    · simp only at hNext
      constructor
      · intro line hLow hHigh
        omega
      · rw [hNext]
        exact hSame
    · refine ⟨?_, hLast⟩
      intro line hLow hHigh
      by_cases hHere : line = place.lines + 1
      · rw [hHere]
        exact hFirst
      · apply hBetween line _ hHigh
        simp only
        omega

end LineSource

end Bracketry

------------------------------------------------------------
-- Bytes with Lines
------------------------------------------------------------

namespace Bracketry

open Measured

/- A byte with its column and its line. -/
structure LineByte where
  byte : TextByte
  column : Nat
  line : ClassifiedLine
deriving DecidableEq, Repr, Inhabited

namespace LineByte

instance : Measured LineByte where
  size lineByte := lineByte.byte.length
  size_ne_zero lineByte := size_ne_zero lineByte.byte

/- Bytes with their lines, from the first place on. -/
def stamp
    (lines : Nat → ClassifiedLine)
    (place : Position) :
    List TextByte → List LineByte
  | [] => []
  | byte :: rest =>
      ⟨byte, place.columns, lines place.lines⟩ ::
        stamp lines (place + byte.length) rest

/- The bytes of a text with its classification. -/
def ofText
    (text : List Char)
    (spans : SpanTable) :
    List LineByte :=
  stamp (ClassifiedLine.ofText text spans) 0
    (TextByte.ofText text)

/- Lines behind the end of a text. -/
def pads
    (count : Nat) :
    List LineByte :=
  List.replicate (count + 1) ⟨.beyond, 0, ⟨[], []⟩⟩

variable {lines : Nat → ClassifiedLine}
variable {place : Position} {bytes : List TextByte}

/- With its line, a byte is as long as before. -/
theorem size_byte
    (lineByte : LineByte) :
    size lineByte.byte = size lineByte :=
  rfl

@[simp] theorem map_byte_stamp
    (lines : Nat → ClassifiedLine)
    (place : Position)
    (bytes : List TextByte) :
    (stamp lines place bytes).map byte = bytes := by
  induction bytes generalizing place with
  | nil => rfl
  | cons first rest ih => rw [stamp, List.map_cons, ih]

@[simp] theorem map_byte_pads
    (count : Nat) :
    (pads count).map byte = TextByte.pads count :=
  List.map_replicate

theorem stamp_eq_nil :
    stamp lines place bytes = [] ↔ bytes = [] := by
  cases bytes <;> simp [stamp]

/- What has the bytes of a text carries them. -/
theorem carries_of_bytes
    {lineBytes : List LineByte}
    {text : List Char}
    (count : Nat)
    (hBytes : lineBytes.map byte = TextByte.ofText text) :
    TextByte.Carries byte text count lineBytes (pads count) :=
  ⟨size_byte, hBytes, map_byte_pads count⟩

theorem carries_ofText
    (text : List Char)
    (spans : SpanTable)
    (count : Nat) :
    TextByte.Carries byte text count (ofText text spans)
      (pads count) :=
  carries_of_bytes count (map_byte_stamp _ _ _)

@[simp] theorem extent_stamp
    (lines : Nat → ClassifiedLine)
    (place : Position)
    (bytes : List TextByte) :
    extent (stamp lines place bytes) = extent bytes := by
  rw [← TextByte.extent_map size_byte, map_byte_stamp]

theorem stamp_append
    (lines : Nat → ClassifiedLine)
    (place : Position)
    (a b : List TextByte) :
    stamp lines place (a ++ b) =
      stamp lines place a ++
        stamp lines (place + extent a) b := by
  induction a generalizing place with
  | nil => rw [extent_nil, add_zero]; rfl
  | cons first rest ih =>
      rw [List.cons_append, stamp, ih, extent_cons, ← add_assoc]
      rfl

/- Stamped bytes are cut as the bytes are. -/
theorem exists_of_stamp
    {first last : List LineByte}
    (h : stamp lines place bytes = first ++ last) :
    ∃ a b,
      bytes = a ++ b ∧ first = stamp lines place a ∧
        last = stamp lines (place + extent a) b := by
  have hBytes := congrArg (List.map byte) h
  rw [map_byte_stamp, List.map_append] at hBytes
  rw [hBytes, stamp_append] at h
  rcases List.append_inj h (by
    rw [← List.length_map (f := byte), map_byte_stamp,
      List.length_map]) with
    ⟨hFirst, hLast⟩
  exact ⟨_, _, hBytes, hFirst.symm, hLast.symm⟩

end LineByte

end Bracketry

------------------------------------------------------------
-- Quiet Bytes
------------------------------------------------------------

namespace Bracketry

open Measured

/- A byte is a column of a line, or a break. -/
theorem TextByte.length_cases
    (byte : TextByte) :
    byte.length = ⟨0, 1⟩ ∨ byte.length = ⟨1, 0⟩ := by
  cases byte
  · exact .inr rfl
  · exact .inl rfl
  · exact .inl rfl
  · exact .inr rfl

namespace LineByte

/-
  Nothing is marked on the bytes, seen from a column of the
  line of the first byte.
-/
def IsQuiet
    (table : TokenTable)
    (column : Nat) :
    List LineByte → Prop
  | [] => True
  | lineByte :: rest =>
      if lineByte.byte.length.lines = 0 then
        (rest = [] →
          lineByte.line.marks table column =
            lineByte.line.marks table (lineByte.column + 1)) ∧
          IsQuiet table column rest
      else
        lineByte.line.marks table column = [] ∧
          IsQuiet table 0 rest

variable {source : LineSource} {text : List Char}

/- On bytes of a text, that is silence between two places. -/
theorem isQuiet_stamp
    {bytes : List TextByte}
    {column : Nat}
    {place : Position}
    (hOf : source.IsOf text)
    (hSome : bytes ≠ []) :
    IsQuiet source.table column
        (stamp (ClassifiedLine.ofText text source.spans) place
          bytes) ↔
      source.IsSilent ⟨place.lines, column⟩
        (place + extent bytes) := by
  induction bytes generalizing column place with
  | nil => exact absurd rfl hSome
  | cons byte rest ih =>
      have hMarks := fun column =>
        LineSource.marksAt_eq hOf ⟨place.lines, column⟩
      have hSize : size byte = byte.length := rfl
      simp only at hMarks
      rw [stamp, IsQuiet, extent_cons, ← add_assoc, hSize]
      simp only [← hMarks]
      rcases TextByte.length_cases byte with hFlat | hBreak
      · have hNext :
            place + byte.length =
              ⟨place.lines, place.columns + 1⟩ := by
          rw [hFlat, Length.add_def]
          rfl
        rw [hFlat, if_pos rfl, ← hFlat, hNext]
        by_cases hLast : rest = []
        · subst hLast
          rw [extent_nil, add_zero]
          constructor
          · rintro ⟨hSame, _⟩
            exact .inl ⟨rfl, hSame rfl⟩
          · rintro (⟨_, hSame⟩ | ⟨hLess, _⟩)
            · exact ⟨fun _ => hSame, trivial⟩
            · exact absurd hLess (Nat.lt_irrefl _)
        · rw [ih hLast]
          constructor
          · exact fun h => h.2
          · intro h
            refine ⟨fun hNil => ?_, h⟩
            exact absurd (stamp_eq_nil.1 hNil) hLast
      · have hNext :
            place + byte.length = ⟨place.lines + 1, 0⟩ := by
          rw [hBreak, Length.add_def]
          rfl
        have hLess :
            place.lines <
              (place + byte.length + extent rest).lines := by
          rw [Length.add_lines, hNext]
          simp only
          omega
        have hStart :
            source.IsSilent ⟨place.lines, column⟩
                (place + byte.length + extent rest) ↔
              source.marksAt ⟨place.lines, column⟩ = [] ∧
                source.IsSilent ⟨place.lines + 1, 0⟩
                  (place + byte.length + extent rest) :=
          LineSource.isSilent_break hLess
        rw [hStart, hNext, hBreak, if_neg (by decide)]
        apply and_congr_right
        intro _
        by_cases hLast : rest = []
        · subst hLast
          rw [extent_nil, add_zero]
          exact ⟨fun _ => .inl ⟨rfl, rfl⟩, fun _ => trivial⟩
        · exact ih hLast

/-
  A token stands for the bytes: it is the next mark, or
  nothing is marked on them.
-/
def IsMeant
    (table : TokenTable)
    (token : Token) :
    List LineByte → Prop
  | [] => False
  | lineByte :: rest =>
      if token.isBracket then
        token.length.lines = 0 ∧
          lineByte.line.marks table lineByte.column =
            (lineByte.column, token) ::
              lineByte.line.marks table
                (lineByte.column + token.length.columns)
      else IsQuiet table lineByte.column (lineByte :: rest)

/- On bytes of a text, that is what a reader would read. -/
theorem isMeant_stamp
    {bytes : List TextByte}
    {place : Position}
    {token : Token}
    (hOf : source.IsOf text)
    (hSome : bytes ≠ []) :
    IsMeant source.table token
        (stamp (ClassifiedLine.ofText text source.spans) place
          bytes) ↔
      if token.isBracket then
        token.length.lines = 0 ∧ source.IsMarked place token
      else
        source.IsSilent place (place + extent bytes) := by
  have hQuiet :
      IsQuiet source.table place.columns
          (stamp (ClassifiedLine.ofText text source.spans)
            place bytes) ↔
        source.IsSilent ⟨place.lines, place.columns⟩
          (place + extent bytes) :=
    isQuiet_stamp hOf hSome
  rcases List.exists_cons_of_ne_nil hSome with
    ⟨byte, rest, rfl⟩
  rw [stamp] at hQuiet ⊢
  unfold IsMeant
  split_ifs with hBracket
  · apply and_congr_right
    intro hFlat
    have hStop :
        place + token.length =
          ⟨place.lines,
            place.columns + token.length.columns⟩ := by
      rw [Length.add_def, if_pos hFlat]
    rw [LineSource.IsMarked, LineSource.marksAt_eq hOf place,
      LineSource.marksAt_eq hOf (place + token.length), hStop]
  · exact hQuiet

end LineByte

end Bracketry

------------------------------------------------------------
-- What Tokens Stand For
------------------------------------------------------------

namespace Bracketry

open Measured

namespace LineByte

/- What a token stands for, among bytes of a text. -/
def Shows
    (table : TokenTable)
    (before part behind : List LineByte)
    (token : Token) :
    Prop :=
  TextByte.Shows (before.map byte) (part.map byte)
      (behind.map byte) token ∧
    IsMeant table token part

/- What a token shows depends on the bytes next to it. -/
theorem isLocal_shows
    (table : TokenTable) :
    IsLocal (Shows table) :=
  TextByte.isLocal_map fun part token => IsMeant table token part

variable {source : LineSource} {text : List Char}

/- Tokens of a text have its brackets, at their places. -/
theorem brackets_of_spells
    {before behind : List LineByte}
    {bytes : List TextByte}
    {tokens : List Token}
    {place : Position}
    (hOf : source.IsOf text)
    (hEnd : place + extent bytes = source.length)
    (h :
      Spells (Shows source.table) before tokens
        (stamp (ClassifiedLine.ofText text source.spans) place
          bytes)
        behind) :
    Placed.brackets (Placed.row place tokens) =
      source.bracketsFrom place := by
  induction tokens generalizing before place bytes with
  | nil =>
      have hNil := congrArg (List.map byte) h
      rw [map_byte_stamp, List.map_nil] at hNil
      rw [hNil, extent_nil, add_zero] at hEnd
      rw [hEnd, LineSource.bracketsFrom_length]
      rfl
  | cons token rest ih =>
      rcases h with
        ⟨first, more, hSplit, hSome, hSize, hShows, hMore⟩
      rcases exists_of_stamp hSplit with ⟨a, b, rfl, rfl, rfl⟩
      have hBytes : a ≠ [] := by
        rintro rfl
        exact hSome rfl
      rw [extent_stamp] at hSize
      rw [extent_append, ← add_assoc, hSize] at hEnd
      rw [hSize] at hMore
      have hMeant := (isMeant_stamp hOf hBytes).1 hShows.2
      have hRest := ih hEnd hMore
      rw [hSize] at hMeant
      have hRow :
          Placed.brackets (Placed.row place (token :: rest)) =
            Placed.brackets [⟨place, token⟩] ++
              source.bracketsFrom (place + token.length) := by
        rw [← hRest, Placed.brackets, Placed.brackets,
          Placed.brackets, ← List.filter_append]
        rfl
      rw [hRow]
      split_ifs at hMeant with hBracket
      · rcases hMeant with ⟨hFlat, hMarked⟩
        rw [LineSource.bracketsFrom_of_isMarked hFlat hMarked]
        simp [Placed.brackets, hBracket]
      · have hStop :
            (place + token.length).lines ≤
              source.lastLine := by
          have hLe := Length.le_add_right
            (place + token.length) (extent b)
          rw [hEnd, Length.le_def] at hLe
          simp only [LineSource.length] at hLe
          omega
        rw [LineSource.bracketsFrom_of_isSilent hStop hMeant]
        simp [Placed.brackets, hBracket]

end LineByte

end Bracketry
