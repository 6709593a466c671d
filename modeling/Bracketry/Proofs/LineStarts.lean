import Bracketry.Proofs.BreakChars
import Bracketry.Tree.Indentation

/-
  Indentation among characters.

  The least indentation of a stretch of text counts the lines
  that begin in it.  So it depends on the stretch, on whether
  that begins a line, and on what is behind it if its last
  line is blank so far.  A stretch is settled if a character
  stands behind such a line that shows the column of the
  line, or ends it.

  Key definitions include:
    * `BreakChar.starts`, `BreakChar.endsLine`
    * `BreakChar.visibleAt`, `BreakChar.leastAt`
    * `BreakChar.Settles`

  Main declarations:
    * `BreakChar.textIndentation_eq`
    * `BreakChar.leastAt_starts_congr`
-/

------------------------------------------------------------
-- Starts of Lines
------------------------------------------------------------

namespace Bracketry

open Measured

namespace BreakChar

/- The character ends a line. -/
def breaks : BreakChar → Bool
  | .char c => c = '\n'
  | .carriage => false
  | .beyond => true

/- A line begins behind a stretch, or where it begins. -/
def endsLine
    (begins : Bool) :
    List BreakChar → Bool
  | [] => begins
  | first :: rest => endsLine first.breaks rest

/- What is ahead of each line that begins in a stretch. -/
def starts
    (begins : Bool)
    (behind : List BreakChar) :
    List BreakChar → List (List BreakChar)
  | [] => []
  | first :: rest =>
      (if begins then [first :: rest ++ behind] else []) ++
        starts first.breaks behind rest

/- The same, with the line that may begin behind it. -/
def allStarts
    (begins : Bool)
    (behind part : List BreakChar) :
    List (List BreakChar) :=
  starts begins behind part ++
    if endsLine begins part then [behind] else []

theorem endsLine_append
    (begins : Bool)
    (a b : List BreakChar) :
    endsLine begins (a ++ b) =
      endsLine (endsLine begins a) b := by
  induction a generalizing begins with
  | nil => rfl
  | cons char rest ih => exact ih char.breaks

theorem starts_append
    (begins : Bool)
    (behind a b : List BreakChar) :
    starts begins behind (a ++ b) =
      starts begins (b ++ behind) a ++
        starts (endsLine begins a) behind b := by
  induction a generalizing begins with
  | nil => rfl
  | cons char rest ih =>
      rw [List.cons_append, starts, starts, ih, endsLine]
      simp only [List.cons_append, List.append_assoc]

theorem allStarts_true
    (behind part : List BreakChar) :
    allStarts true behind part =
      (part ++ behind) :: allStarts false behind part := by
  cases part with
  | nil => rfl
  | cons char rest => rfl

theorem allStarts_cons
    (behind : List BreakChar)
    (char : BreakChar)
    (rest : List BreakChar) :
    allStarts false behind (char :: rest) =
      allStarts char.breaks behind rest :=
  rfl

theorem lines_size
    (char : BreakChar) :
    (size char).lines = if char.breaks then 1 else 0 := by
  cases char with
  | char c =>
      have hSize :
          size (BreakChar.char c) = Length.ofChar c := rfl
      rw [hSize, Length.ofChar, breaks]
      by_cases hBreak : c = '\n' <;> simp [hBreak]
  | carriage => rfl
  | beyond => rfl

/- As many lines begin as end, but for the ends. -/
theorem length_starts
    (begins : Bool)
    (behind part : List BreakChar) :
    (starts begins behind part).length +
        (if endsLine begins part then 1 else 0) =
      (extent part).lines + if begins then 1 else 0 := by
  induction part generalizing begins with
  | nil => rfl
  | cons char rest ih =>
      have hRest := ih char.breaks
      rw [starts, endsLine, List.length_append, extent_cons,
        Length.add_lines, lines_size]
      have hHere :
          (if begins then [char :: rest ++ behind]
            else []).length = if begins then 1 else 0 := by
        cases begins <;> rfl
      omega

theorem columns_size
    (char : BreakChar) :
    (size char).columns = 0 ↔ char.breaks = true := by
  cases char with
  | char c =>
      have hSize :
          size (BreakChar.char c) = Length.ofChar c := rfl
      have hPos := Char.utf8Size_pos c
      rw [hSize, Length.ofChar, breaks]
      by_cases hBreak : c = '\n'
      · simp [hBreak]
      · simp only [hBreak, if_false, decide_false,
          Bool.false_eq_true, iff_false]
        omega
  | carriage => decide
  | beyond => decide

/- A stretch ends a line if its last column is the first. -/
theorem endsLine_iff
    {begins : Bool}
    {part : List BreakChar} :
    endsLine begins part = true ↔
      (extent part).columns = 0 ∧
        (begins = true ∨ (extent part).lines ≠ 0) := by
  induction part generalizing begins with
  | nil => simp [endsLine]
  | cons char rest ih =>
      have hLines := lines_size char
      have hColumns := columns_size char
      rw [endsLine, ih, extent_cons, Length.add_columns,
        Length.add_lines, hLines]
      cases hBreaks : char.breaks <;>
        rw [hBreaks] at hColumns <;> split_ifs <;> grind

/- A place begins a line if it is in the first column. -/
theorem endsLine_true_iff
    {part : List BreakChar} :
    endsLine true part = true ↔ (extent part).columns = 0 := by
  rw [endsLine_iff]
  exact and_iff_left (.inl rfl)

end BreakChar

end Bracketry

------------------------------------------------------------
-- Visible Columns
------------------------------------------------------------

namespace Bracketry

open Measured

namespace BreakChar

/- A blank or a tab. -/
def IsBlank
    (char : BreakChar) :
    Prop :=
  char = .char ' ' ∨ char = .char '\t'

/-
  The visible column of the first character behind blanks,
  if it is on the line, counted on from a column.
-/
def visibleAt
    (tabSize column : Nat) :
    List BreakChar → Checked (Option Nat)
  | .char c :: rest =>
      if c = ' ' then do
        let column ← checkedSum column 1
        visibleAt tabSize column rest
      else if c = '\t' then do
        let column ←
          checkedSum column (tabSize - column % tabSize)
        visibleAt tabSize column rest
      else if c = '\n' then .ok none
      else .ok (some column)
  | _ => .ok none

/- The least indentation of the lines with some starts. -/
def leastAt
    (tabSize : Nat) :
    List (List BreakChar) → Checked Nat
  | [] => .ok noIndentation
  | start :: rest => do
      let column ← visibleAt tabSize 0 start
      let least ← leastAt tabSize rest
      return min (column.getD noIndentation) least

/- A line is seen where it starts among the characters. -/
def IsSeenAt
    (line : Line)
    (start : List BreakChar) :
    Prop :=
  ∀ tabSize column,
    visibleFrom tabSize column line.text =
      visibleAt tabSize column start

/- The text of the line that starts with some characters. -/
def lineAt : List BreakChar → List Char
  | .char c :: rest =>
      if c = '\n' then [] else c :: lineAt rest
  | _ => []

/- The lines of a text are what starts where they do. -/
theorem text_split
    (text : List Char) :
    List.Forall₂ (fun line start => line.text = lineAt start)
      (Line.split text) (allStarts true pads (ofText text)) := by
  fun_induction Line.split text with
  | case1 => exact .cons rfl .nil
  | case2 rest ih =>
      rw [allStarts_true]
      exact .cons rfl ih
  | case3 rest ih =>
      rw [allStarts_true]
      exact .cons rfl ih
  | case4 c rest _ _ hNil ih =>
      exact absurd hNil (Line.split_ne_nil rest)
  | case5 c rest hFeed hReturn first lines hCons ih =>
      rw [hCons, allStarts_true] at ih
      rcases List.forall₂_cons.1 ih with ⟨hFirst, hLines⟩
      have hChar : mark c rest.head? = .char c := by
        rw [mark, if_neg]
        rintro ⟨rfl, hHead⟩
        rcases List.head?_eq_some_iff.1 hHead with ⟨others, rfl⟩
        exact hReturn others rfl rfl
      have hBreaks : (BreakChar.char c).breaks = false := by
        simpa [breaks] using hFeed
      rw [ofText, hChar, allStarts_true, allStarts_cons, hBreaks]
      refine .cons ?_ hLines
      rw [List.cons_append, lineAt, if_neg hFeed, hFirst]

/- A column is visible on a line as where the line starts. -/
theorem visibleFrom_lineAt
    (tabSize column : Nat)
    (start : List BreakChar) :
    visibleFrom tabSize column (lineAt start) =
      visibleAt tabSize column start := by
  induction start generalizing column with
  | nil => rfl
  | cons char rest ih =>
      cases char with
      | carriage => rfl
      | beyond => rfl
      | char c =>
          rw [lineAt, visibleAt]
          by_cases hFeed : c = '\n'
          · subst hFeed
            rfl
          · rw [if_neg hFeed, visibleFrom, if_neg hFeed]
            simp only [ih]

/- The lines of a text are seen where they start. -/
theorem isSeenAt_split
    (text : List Char) :
    List.Forall₂ IsSeenAt (Line.split text)
      (allStarts true pads (ofText text)) := by
  refine (text_split text).imp ?_
  intro line start hText tabSize column
  rw [hText, visibleFrom_lineAt]

/- The least of some lines is that of their starts. -/
theorem linesIndentation_eq
    (tabSize : Nat)
    {lines : List Line}
    {found : List (List BreakChar)}
    (h : List.Forall₂ IsSeenAt lines found) :
    Node.linesIndentation tabSize lines =
      leastAt tabSize found := by
  induction h with
  | nil => rfl
  | cons hLine _ ih =>
      rw [Node.linesIndentation, leastAt, ih,
        visibleIndentation, hLine]

/- How many lines begin before a place. -/
def linesBefore
    (place : Position) :
    Nat :=
  if place.columns = 0 then place.lines else place.lines + 1

theorem linesBefore_eq
    (behind part : List BreakChar) :
    linesBefore (extent part) =
      (starts true behind part).length := by
  have hLength := length_starts true behind part
  have hEnds := @endsLine_true_iff part
  rw [linesBefore]
  split_ifs with hColumns
  · rw [if_pos (hEnds.2 hColumns), if_pos rfl] at hLength
    omega
  · rw [if_neg (hEnds.not.2 hColumns), if_pos rfl] at hLength
    omega

/- A stretch has the lines that begin before its end. -/
theorem textIndentation_of_fits
    {content : Content}
    {offset : Position}
    {length : Length}
    (hLines : content.lines.length < countLimit)
    (hOffset : offset.lines < maxCount)
    (hStop : (offset + length).Fits) :
    Node.textIndentation content offset length =
      Node.linesIndentation (max content.tabSize 1)
        ((content.lines.take
          (linesBefore (offset + length))).drop
            (linesBefore offset)) := by
  have hSum :
      checkedSum offset.lines 1 = .ok (offset.lines + 1) :=
    if_pos (by
      have hMax : maxCount = 2 ^ 32 - 1 := rfl
      have hLimit : countLimit = 2 ^ 32 := rfl
      omega)
  have hTake :
      ∀ last,
        content.lines.take
            (min last (max content.lineCount 1)) =
          content.lines.take last := by
    intro last
    rw [Content.lineCount, Line.count, wrapCount_of_lt hLines,
      List.take_eq_take_iff]
    omega
  rw [Node.textIndentation, Length.plus_eq_ok hStop, hSum]
  unfold linesBefore
  by_cases hColumns : offset.columns = 0
  · rw [if_pos hColumns, if_pos hColumns]
    simp only [bind, Except.bind, pure, Except.pure, hTake]
  · rw [if_neg hColumns, if_neg hColumns]
    simp only [bind, Except.bind, hTake]

/-
  What relates all lines of a text to their starts relates
  the lines that begin in a stretch to the starts in it.
-/
theorem forall₂_starts
    {Like : Line → List BreakChar → Prop}
    {text : List Char}
    {before part behind : List BreakChar}
    (hText : ofText text = before ++ (part ++ behind))
    (hLike :
      List.Forall₂ Like (Line.split text)
        (allStarts true pads (ofText text))) :
    List.Forall₂ Like
      (((Line.split text).take
        (linesBefore (extent (before ++ part)))).drop
          (linesBefore (extent before)))
      (starts (endsLine true before) (behind ++ pads)
        part) := by
  rw [linesBefore_eq (behind ++ pads) (before ++ part),
    linesBefore_eq (part ++ (behind ++ pads)) before,
    starts_append]
  generalize hLeft :
    starts true (part ++ (behind ++ pads)) before = left
  generalize hMiddle :
    starts (endsLine true before) (behind ++ pads) part =
      middle
  rw [allStarts, hText, starts_append, starts_append,
    List.append_assoc part, hLeft, hMiddle,
    ← List.append_assoc left, List.append_assoc] at hLike
  have hPart :=
    List.forall₂_drop left.length
      (List.forall₂_take (left ++ middle).length hLike)
  rwa [List.take_left, List.drop_left] at hPart

/-
  The indentation of a stretch is that of the lines that
  begin in it.
-/
theorem textIndentation_eq
    {content : Content}
    {text : List Char}
    {before part behind : List BreakChar}
    (hLines : content.lines = Line.split text)
    (hShort : Text.IsShort text)
    (hText : ofText text = before ++ (part ++ behind)) :
    Node.textIndentation content (extent before)
        (extent part) =
      leastAt (max content.tabSize 1)
        (starts (endsLine true before) (behind ++ pads)
          part) := by
  have hSmall := isSmall_ofText hShort
  rw [hText] at hSmall
  have hBefore := hSmall before
    (part ++ behind ++ pads) (by simp)
  have hStop := hSmall.fitsFrom (before ++ part)
    (behind ++ pads) (by simp)
  rw [zero_add, extent_append] at hStop
  have hMax : maxCount = 2 ^ 32 - 1 := rfl
  have hCounted : content.lines.length < countLimit := by
    rw [hLines]
    exact hShort.areReadable.1
  rw [textIndentation_of_fits hCounted (by omega) hStop,
    ← extent_append, hLines]
  exact linesIndentation_eq _
    (forall₂_starts hText (isSeenAt_split text))

end BreakChar

end Bracketry

------------------------------------------------------------
-- Settled Stretches
------------------------------------------------------------

namespace Bracketry

namespace BreakChar

instance (char : BreakChar) : Decidable char.IsBlank :=
  inferInstanceAs (Decidable (_ ∨ _))

/-
  A character behind a stretch shows the column of a line
  that is blank so far, or ends the line, also in later
  texts.
-/
def StopsAt
    (behind : List BreakChar) :
    Prop :=
  ∃ next ∈ behind.head?, ¬next.IsBlank ∧ next ≠ .char '\r'

/-
  The rest of a stretch that begins one of its lines is not
  blank, or something stops it.
-/
def Settles
    (begins : Bool)
    (behind : List BreakChar) :
    List BreakChar → Prop
  | [] => True
  | first :: rest =>
      (begins = true →
        (∀ other ∈ first :: rest, other.IsBlank) →
          StopsAt behind) ∧
        Settles first.breaks behind rest

variable {begins : Bool} {part behind : List BreakChar}

theorem not_breaks_of_isBlank
    {char : BreakChar}
    (h : char.IsBlank) :
    char.breaks = false := by
  rcases h with rfl | rfl <;> rfl

/- Whatever is stopped is settled. -/
theorem settles_of_stopsAt
    (begins : Bool)
    (part : List BreakChar)
    (h : StopsAt behind) :
    Settles begins behind part := by
  induction part generalizing begins with
  | nil => trivial
  | cons char rest ih => exact ⟨fun _ _ => h, ih _⟩

theorem endsLine_of_isBlank
    (hBlank : ∀ char ∈ part, char.IsBlank) :
    endsLine false part = false := by
  induction part with
  | nil => rfl
  | cons char rest ih =>
      rw [List.forall_mem_cons] at hBlank
      rw [endsLine, not_breaks_of_isBlank hBlank.1]
      exact ih hBlank.2

/- A stretch is settled where it ends a line. -/
theorem settles_of_endsLine
    {other : Bool}
    (hEnds : endsLine other part = true) :
    Settles begins behind part := by
  induction part generalizing begins other with
  | nil => trivial
  | cons char rest ih =>
      refine ⟨fun _ hBlank => ?_, ih hEnds⟩
      rw [List.forall_mem_cons] at hBlank
      rw [endsLine, not_breaks_of_isBlank hBlank.1,
        endsLine_of_isBlank hBlank.2] at hEnds
      cases hEnds

/- So is a stretch on one line that is not blank. -/
theorem settles_of_visible
    {char : BreakChar}
    {rest : List BreakChar}
    (hVisible : ¬char.IsBlank)
    (hFlat : ∀ other ∈ char :: rest, other.breaks = false) :
    Settles begins behind (char :: rest) := by
  have hRest :
      ∀ chars : List BreakChar,
        (∀ other ∈ chars, other.breaks = false) →
          Settles false behind chars := by
    intro chars hChars
    induction chars with
    | nil => trivial
    | cons first others ih =>
        rw [List.forall_mem_cons] at hChars
        refine ⟨nofun, ?_⟩
        rw [hChars.1]
        exact ih hChars.2
  rw [List.forall_mem_cons] at hFlat
  refine ⟨fun _ hBlank => ?_, ?_⟩
  · exact absurd (hBlank char List.mem_cons_self) hVisible
  · rw [hFlat.1]
    exact hRest rest hFlat.2

/- What is settled at a start of a line is settled. -/
theorem Settles.mono
    (begins : Bool)
    (h : Settles true behind part) :
    Settles begins behind part := by
  cases part with
  | nil => trivial
  | cons char rest => exact ⟨fun _ => h.1 rfl, h.2⟩

end BreakChar

end Bracketry

------------------------------------------------------------
-- The Same Stretch in Another Text
------------------------------------------------------------

namespace Bracketry

namespace BreakChar

variable {begins : Bool} {part behind others : List BreakChar}
variable {next other : BreakChar}

/- What stops a stretch stays. -/
theorem eq_of_stopsAt
    (hNext : Stays next other)
    (h : StopsAt (next :: behind)) :
    other = next := by
  rcases h with ⟨_, ⟨⟩, _, hReturn⟩
  exact hNext.eq_of_ne hReturn

theorem Settles.stays
    (others : List BreakChar)
    (hNext : Stays next other)
    (h : Settles begins (next :: behind) part) :
    Settles begins (other :: others) part := by
  induction part generalizing begins with
  | nil => trivial
  | cons char rest ih =>
      refine ⟨fun hBegins hBlank => ?_, ih h.2⟩
      have hStops := h.1 hBegins hBlank
      rcases eq_of_stopsAt hNext hStops with rfl
      exact hStops

/- Behind what is not blank, nothing is looked at. -/
theorem visibleAt_cons
    {char : BreakChar}
    (tabSize column : Nat)
    (rest others : List BreakChar)
    (hVisible : ¬char.IsBlank) :
    visibleAt tabSize column (char :: rest) =
      visibleAt tabSize column (char :: others) := by
  cases char with
  | carriage => rfl
  | beyond => rfl
  | char c =>
      have hSpace : c ≠ ' ' := by
        rintro rfl
        exact hVisible (.inl rfl)
      have hTab : c ≠ '\t' := by
        rintro rfl
        exact hVisible (.inr rfl)
      simp only [visibleAt, hSpace, hTab, if_false]

theorem visibleAt_append
    {tabSize : Nat}
    (hBehind :
      (∀ char ∈ part, char.IsBlank) →
        ∀ column,
          visibleAt tabSize column behind =
            visibleAt tabSize column others)
    (column : Nat) :
    visibleAt tabSize column (part ++ behind) =
      visibleAt tabSize column (part ++ others) := by
  induction part generalizing column with
  | nil => exact hBehind (by simp) column
  | cons char rest ih =>
      by_cases hBlank : char.IsBlank
      · have hRest := ih fun hAll =>
          hBehind (List.forall_mem_cons.2 ⟨hBlank, hAll⟩)
        rcases hBlank with rfl | rfl <;>
          simp only [List.cons_append, visibleAt, hRest]
      · exact visibleAt_cons tabSize column _ _ hBlank

theorem visibleAt_of_stopsAt
    (tabSize column : Nat)
    (hNext : Stays next other)
    (h : StopsAt (next :: behind)) :
    visibleAt tabSize column (next :: behind) =
      visibleAt tabSize column (other :: others) := by
  rcases eq_of_stopsAt hNext h with rfl
  rcases h with ⟨_, ⟨⟩, hVisible, _⟩
  exact visibleAt_cons tabSize column _ _ hVisible

/-
  The lines that begin in a settled stretch are indented as
  they are in any text that has it, where one more character
  is kept.  The induction is on the stretch.
-/
theorem leastAt_starts_congr
    {tabSize : Nat}
    (others : List BreakChar)
    (hNext : Stays next other)
    (h : Settles begins (next :: behind) part) :
    leastAt tabSize (starts begins (next :: behind) part) =
      leastAt tabSize (starts begins (other :: others) part) := by
  induction part generalizing begins with
  | nil => rfl
  | cons char rest ih =>
      have hRest := ih h.2
      cases begins with
      | false => exact hRest
      | true =>
          have hVisible :
              visibleAt tabSize 0
                  (char :: rest ++ next :: behind) =
                visibleAt tabSize 0
                  (char :: rest ++ other :: others) :=
            visibleAt_append
              (fun hBlank column =>
                visibleAt_of_stopsAt tabSize column hNext
                  (h.1 rfl hBlank)) 0
          simp only [starts, if_true, List.singleton_append,
            leastAt, hVisible, hRest]

end BreakChar

end Bracketry
