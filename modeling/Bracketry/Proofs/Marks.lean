import Bracketry.Proofs.Lines

/-
  The brackets of a classified text.

  The spans of a line are looked up by halving, which needs
  them sorted.  A reader then knows the marks of its line
  wherever it begins to read, so a token tells what is
  marked between its ends, whatever was read before it.

  Key definitions include:
    * `SpanTable.IsSorted`
    * `LineReader.Knows`
    * `LineSource.IsSilent`
    * `LineSource.bracketsFrom`, `LineSource.brackets`

  Main declarations:
    * `LineReader.marksOn_drop`
    * `LineReader.Knows.read_spec`
    * `LineSource.bracketsFrom_of_isSilent`
-/

------------------------------------------------------------
-- Sorted Spans
------------------------------------------------------------

namespace Bracketry

namespace Span

/- The spans of a line are sorted by column. -/
def AreSorted
    (spans : List Span) :
    Prop :=
  spans.Pairwise fun a b => a.column ≤ b.column

instance (spans : List Span) : Decidable (AreSorted spans) :=
  inferInstanceAs (Decidable (List.Pairwise _ _))

/- Halving ends at its base or at an accepted entry. -/
theorem bisectFrom_spec
    {α : Type}
    (isBefore : α → Bool)
    (entries : List α)
    (fuel base size : Nat) :
    bisectFrom isBefore entries fuel base size = base ∨
      entries[bisectFrom isBefore entries fuel base size]?.any
        isBefore = true := by
  induction fuel generalizing base size with
  | zero => exact .inl rfl
  | succ fuel ih =>
      unfold bisectFrom
      split_ifs with hSmall
      · exact .inl rfl
      · simp only
        split_ifs with hMiddle
        · rcases ih (base + size / 2) (size - size / 2) with
            hBase | hFound
          · rw [hBase]
            exact .inr hMiddle
          · exact .inr hFound
        · exact ih base (size - size / 2)

/- The span of a column is the first, or begins before it. -/
theorem indexAt_spec
    (spans : List Span)
    (column : Nat) :
    indexAt spans column = 0 ∨
      ∃ span,
        spans[indexAt spans column]? = some span ∧
          span.column ≤ column := by
  have hBase :=
    bisectFrom_spec (fun span : Span => span.column ≤ column)
      spans spans.length 0 spans.length
  unfold indexAt bisect
  simp only
  generalize bisectFrom _ spans spans.length 0 spans.length =
    base at hBase ⊢
  split_ifs with hSome
  · rcases (Option.any_eq_true _ _).1 hSome with
      ⟨span, hSpan, hColumn⟩
    exact .inr ⟨span, hSpan, of_decide_eq_true hColumn⟩
  · exact .inl (by
      rw [hBase.resolve_right hSome])

/- The first of sorted spans starts in front of all others. -/
theorem spanStop_le_of_sorted
    {line : List Char}
    {spans : List Span}
    {span : Span}
    {index : Nat}
    (hSorted : AreSorted spans)
    (hSpan : spans[index]? = some span) :
    LineReader.spanStop line spans ≤ span.column := by
  cases spans with
  | nil => cases hSpan
  | cons first rest =>
      have hFirst : first.column ≤ span.column := by
        cases index with
        | zero =>
            exact Nat.le_of_eq (congrArg Span.column
              (Option.some.inj hSpan))
        | succ below =>
            exact (List.pairwise_cons.1 hSorted).1 _
              (List.mem_of_getElem? hSpan)
      simp only [LineReader.spanStop, List.head?_cons]
      omega

end Span

namespace SpanTable

/- The spans of all lines are sorted. -/
def IsSorted
    (table : SpanTable) :
    Prop :=
  ∀ spans ∈ table.lines, Span.AreSorted spans

instance (table : SpanTable) : Decidable table.IsSorted :=
  inferInstanceAs (Decidable (∀ _ ∈ _, _))

theorem IsSorted.onLine
    {table : SpanTable}
    (h : table.IsSorted)
    (line : Nat) :
    Span.AreSorted (table.onLine line) := by
  unfold SpanTable.onLine
  split
  · rename_i span rest hLine
    exact h _ (List.mem_of_getElem? hLine)
  · exact List.pairwise_singleton _ _

end SpanTable

namespace LineReader

variable {table : TokenTable} {line : List Char}

/- Spans that end before a column have no marks behind it. -/
theorem marksOn_drop
    {spans : List Span}
    {index column later : Nat}
    (hSorted : Span.AreSorted spans)
    (hIndex :
      index = 0 ∨
        ∃ span,
          spans[index]? = some span ∧ span.column ≤ column)
    (hLater : column ≤ later) :
    marksOn table line later (spans.drop index) =
      marksOn table line later spans := by
  induction spans generalizing index with
  | nil => rw [List.drop_nil]
  | cons first rest ih =>
      cases index with
      | zero => rfl
      | succ below =>
          rcases hIndex.resolve_left (Nat.succ_ne_zero _) with
            ⟨span, hSpan, hColumn⟩
          rw [List.getElem?_cons_succ] at hSpan
          rcases List.pairwise_cons.1 hSorted with ⟨_, hRest⟩
          rw [List.drop_succ_cons, ih hRest
            (.inr ⟨span, hSpan, hColumn⟩), marksOn_behind]
          exact (Span.spanStop_le_of_sorted hRest hSpan).trans
            (hColumn.trans hLater)

end LineReader

end Bracketry

------------------------------------------------------------
-- Readers that Know Their Line
------------------------------------------------------------

namespace Bracketry

namespace LineSource

/- The bracket is the next mark at a place of a line. -/
def IsMarked
    (source : LineSource)
    (place : Position)
    (token : Token) :
    Prop :=
  source.marksAt place =
    (place.columns, token) ::
      source.marksAt (place + token.length)

/- Nothing is marked between two places. -/
def IsSilent
    (source : LineSource)
    (place stop : Position) :
    Prop :=
  (stop.lines = place.lines ∧
    source.marksAt place = source.marksAt stop) ∨
    (place.lines < stop.lines ∧ source.marksAt place = [] ∧
      (∀ line, place.lines < line → line < stop.lines →
        source.marksAt ⟨line, 0⟩ = []) ∧
      source.marksAt ⟨stop.lines, 0⟩ = source.marksAt stop)

end LineSource

namespace LineReader

variable {source : LineSource}

/- A reader finds all marks that its line has behind it. -/
def Knows
    (source : LineSource)
    (reader : LineReader) :
    Prop :=
  ∀ column ≥ reader.column,
    reader.marksFrom source column =
      source.marksAt ⟨reader.line, column⟩

theorem Knows.ahead
    {reader : LineReader}
    (h : reader.Knows source) :
    reader.ahead source = source.marksAt reader.place :=
  h reader.column (Nat.le_refl _)

/- A reader that is put at a place looks its spans up. -/
theorem knows_ofPosition
    (hSorted : source.spans.IsSorted)
    (place : Position) :
    (ofPosition place).Knows source := by
  intro column hColumn
  exact marksOn_drop (hSorted.onLine place.lines)
    (Span.indexAt_spec _ place.columns) hColumn

/- A reader goes on knowing its line. -/
theorem Passes.knows
    {reader after : LineReader}
    {token : Token}
    (hKnows : reader.Knows source)
    (h : Passes source reader token after) :
    after.Knows source := by
  intro column hColumn
  rw [h.agrees column hColumn]
  split_ifs with hLine
  · have hPlace := h.place
    have hLe : reader.place ≤ after.place := by
      rw [hPlace]
      exact Length.le_add_right _ _
    rw [Length.le_def] at hLe
    simp only [LineReader.place] at hLe
    rw [hLine]
    exact hKnows column (by omega)
  · rfl

/-
  A token that such a reader reads is the next mark, or text
  up to a place with nothing marked between.
-/
theorem Passes.isMarked_or_isSilent
    {reader after : LineReader}
    {token : Token}
    (hKnows : reader.Knows source)
    (h : Passes source reader token after) :
    if token.isBracket then
      token.length.lines = 0 ∧
        source.IsMarked reader.place token
    else source.IsSilent reader.place after.place := by
  have hAfter := h.knows hKnows
  have hMarks := h.marks
  by_cases hBracket : token.isBracket = true
  · rw [if_pos hBracket] at hMarks ⊢
    rcases hMarks with ⟨hLine, hAhead⟩
    have hPlace := h.place
    have hFlat : token.length.lines = 0 := by
      have hLines := congrArg Length.lines hPlace
      rw [Length.add_lines] at hLines
      simp only [LineReader.place] at hLines hLine
      omega
    refine ⟨hFlat, ?_⟩
    rw [hKnows.ahead, hAfter.ahead, hPlace] at hAhead
    exact hAhead
  · rw [if_neg hBracket] at hMarks ⊢
    rcases hMarks with
      ⟨hLine, hSame⟩ | ⟨hLine, hNone, hBetween, hLast⟩
    · rw [hKnows.ahead, hAfter.ahead] at hSame
      exact .inl ⟨hLine, hSame⟩
    · rw [hKnows.ahead] at hNone
      rw [hAfter.ahead] at hLast
      exact .inr ⟨hLine, hNone, hBetween, hLast⟩

/- Such a reader reads a token, or stands at the end. -/
theorem Knows.read_spec
    {reader : LineReader}
    (hRoom : source.HasRoom)
    (hSolid : source.table.IsSolid)
    (hFollows : reader.Follows source)
    (h : reader.Knows source) :
    (reader.place = source.length ∧
      reader.read source = .ok (none, reader)) ∨
      ∃ token after,
        reader.read source = .ok (some token, after) ∧
          Passes source reader token after ∧
          after.Knows source ∧
          if token.isBracket then
            token.length.lines = 0 ∧
              source.IsMarked reader.place token
          else
            source.IsSilent reader.place after.place := by
  rcases read_of_hasRoom hRoom hSolid hFollows with
    hEnd | ⟨token, after, hRead, hPasses⟩
  · exact .inl hEnd
  · exact .inr ⟨token, after, hRead, hPasses, hPasses.knows h,
      hPasses.isMarked_or_isSilent h⟩

end LineReader

end Bracketry

------------------------------------------------------------
-- All Brackets of a Source
------------------------------------------------------------

namespace Bracketry

namespace LineSource

variable (source : LineSource)

/- The brackets of the line of a place from there on. -/
def marked
    (place : Position) :
    List Placed :=
  (source.marksAt place).map fun (column, token) =>
    ⟨⟨place.lines, column⟩, token⟩

/- The brackets of some lines below a line. -/
def markedBelow
    (line : Nat) :
    Nat → List Placed
  | 0 => []
  | more + 1 =>
      source.marked ⟨line + 1, 0⟩ ++
        markedBelow (line + 1) more

/- The brackets from a place on. -/
def bracketsFrom
    (place : Position) :
    List Placed :=
  source.marked place ++
    source.markedBelow place.lines
      (source.lastLine - place.lines)

/- All brackets of the content. -/
def brackets : List Placed :=
  source.bracketsFrom 0

variable {source}

/- Lines without marks have no brackets. -/
theorem markedBelow_of_silent
    {line below more : Nat}
    (h :
      ∀ other, line < other → other ≤ line + below →
        source.marksAt ⟨other, 0⟩ = []) :
    source.markedBelow line (below + more) =
      source.markedBelow (line + below) more := by
  induction below generalizing line with
  | zero => rw [Nat.zero_add, Nat.add_zero]
  | succ below ih =>
      have hFirst := h (line + 1) (by omega) (by omega)
      have hRest := @ih (line + 1) fun other hLow hHigh =>
        h other (by omega) (by omega)
      rw [Nat.succ_add, markedBelow, marked, hFirst, hRest,
        Nat.add_assoc, Nat.add_comm 1]
      rfl

theorem bracketsFrom_of_isSilent
    {place stop : Position}
    (hStop : stop.lines ≤ source.lastLine)
    (h : source.IsSilent place stop) :
    source.bracketsFrom place = source.bracketsFrom stop := by
  rcases h with
    ⟨hLine, hSame⟩ | ⟨hLess, hNone, hBetween, hLast⟩
  · rw [bracketsFrom, bracketsFrom, marked, marked, hSame,
      hLine]
  · have hLines :
        source.lastLine - place.lines =
          (stop.lines - 1 - place.lines) +
            (source.lastLine - stop.lines + 1) := by
      omega
    have hStart :
        place.lines + (stop.lines - 1 - place.lines) + 1 =
          stop.lines := by
      omega
    rw [bracketsFrom, hLines, markedBelow_of_silent,
      markedBelow, hStart, marked, hNone, marked, hLast]
    · rfl
    · intro other hLow hHigh
      exact hBetween other hLow (by omega)

theorem bracketsFrom_of_isMarked
    {place : Position}
    {token : Token}
    (hFlat : token.length.lines = 0)
    (h : source.IsMarked place token) :
    source.bracketsFrom place =
      ⟨place, token⟩ ::
        source.bracketsFrom (place + token.length) := by
  have hLine :
      (place + token.length).lines = place.lines := by
    rw [Length.add_lines, hFlat, Nat.add_zero]
  rw [bracketsFrom, bracketsFrom, marked, h, marked, hLine]
  rfl

/- At the end of the content there are no brackets. -/
theorem bracketsFrom_length :
    source.bracketsFrom source.length = [] := by
  have hNone : source.marksAt source.length = [] :=
    LineReader.marksOn_of_width_le _ (Nat.le_refl _)
  rw [bracketsFrom, marked, hNone]
  simp [length, markedBelow]

end LineSource

end Bracketry
