import Bracketry.Proofs.BreakReading

/-
  Margins of lines.

  The margin of a line are the blanks and tabs that it begins
  with.  Where no margin is too wide for a count, a line that
  has more than its margin is indented by the width of that,
  and the least indentation of some lines is told exactly.  A
  text counts the lines that begin between its two ends.

  Key definitions include:
    * `Text.margin`, `Text.indent?`
    * `Content.FitsMargins`
    * `Content.linesFrom`, `Content.leastWhere`

  Main declarations:
    * `visibleIndentation_eq`
    * `Content.textIndentation_eq`
    * `Content.told?_linesFrom`
-/

------------------------------------------------------------
-- Margins
------------------------------------------------------------

namespace Bracketry

namespace Text

/- The blanks and tabs that a text begins with. -/
def margin
    (text : List Char) :
    List Char :=
  text.takeWhile (IsIndent ·)

/- The column behind a blank, or the next stop of tabs. -/
def advance
    (tabSize column : Nat)
    (c : Char) :
    Nat :=
  if c = '\t' then (column / tabSize + 1) * tabSize
  else column + 1

/- The visible column behind the margin, from a column on. -/
def widthFrom
    (tabSize column : Nat)
    (text : List Char) :
    Nat :=
  (margin text).foldl (advance tabSize) column

/-
  The visible column of the first character that is neither
  a blank nor a tab, if there is one.
-/
def indent?
    (tabSize : Nat)
    (text : List Char) :
    Option Nat :=
  if margin text = text then none
  else some (widthFrom tabSize 0 text)

variable {tabSize : Nat}

theorem margin_cons
    (c : Char)
    (rest : List Char) :
    margin (c :: rest) =
      if IsIndent c then c :: margin rest else [] := by
  rw [margin, List.takeWhile_cons]
  by_cases hIndent : IsIndent c <;> simp [hIndent, margin]

/- A stop of tabs is so many columns ahead. -/
theorem advance_tab
    (column : Nat)
    (hTab : 0 < tabSize) :
    advance tabSize column '\t' =
      column + (tabSize - column % tabSize) := by
  have hSplit := Nat.div_add_mod column tabSize
  have hMod := Nat.mod_lt column hTab
  rw [advance, if_pos rfl, Nat.succ_mul, Nat.mul_comm]
  omega

theorem lt_advance
    (column : Nat)
    (c : Char)
    (hTab : 0 < tabSize) :
    column < advance tabSize column c := by
  by_cases hChar : c = '\t'
  · have hMod := Nat.mod_lt column hTab
    rw [hChar, advance_tab column hTab]
    omega
  · rw [advance, if_neg hChar]
    exact Nat.lt_succ_self column

theorem le_widthFrom
    (column : Nat)
    (text : List Char)
    (hTab : 0 < tabSize) :
    column ≤ widthFrom tabSize column text := by
  unfold widthFrom
  induction margin text generalizing column with
  | nil => exact Nat.le_refl column
  | cons c rest ih =>
      exact (lt_advance column c hTab).le.trans (ih _)

theorem widthFrom_cons
    {c : Char}
    (column : Nat)
    (rest : List Char)
    (hIndent : IsIndent c) :
    widthFrom tabSize column (c :: rest) =
      widthFrom tabSize (advance tabSize column c) rest := by
  rw [widthFrom, margin_cons, if_pos hIndent]
  rfl

end Text

/-
  The column of a text that is not all margin is found if it
  fits a count.  The induction is on the text: each blank or
  tab of the margin is a sum that stays below the column that
  is found at the end.
-/
theorem visibleFrom_eq
    {tabSize column : Nat}
    {text : List Char}
    (hTab : 0 < tabSize)
    (hFits : Text.widthFrom tabSize column text < maxCount) :
    visibleFrom tabSize column text =
      .ok (if Text.margin text = text then none
        else some (Text.widthFrom tabSize column text)) := by
  induction text generalizing column with
  | nil => rfl
  | cons c rest ih =>
      have hMax : maxCount < countLimit := by decide
      by_cases hIndent : IsIndent c
      · rw [Text.widthFrom_cons column rest hIndent] at hFits ⊢
        have hLe :=
          Text.le_widthFrom (Text.advance tabSize column c)
            rest hTab
        have hSum :
            ∀ step,
              Text.advance tabSize column c = column + step →
                checkedSum column step =
                  .ok (Text.advance tabSize column c) := by
          intro step hStep
          rw [hStep]
          exact if_pos (by omega)
        rw [Text.margin_cons, if_pos hIndent]
        simp only [List.cons.injEq, true_and]
        rw [← ih hFits]
        rcases hIndent with rfl | rfl
        · rw [visibleFrom, if_pos rfl, hSum 1 rfl]
          rfl
        · rw [visibleFrom, if_neg (by decide), if_pos rfl,
            hSum _ (Text.advance_tab column hTab)]
          rfl
      · have hSpace : c ≠ ' ' := fun h => hIndent (.inl h)
        have hStop : c ≠ '\t' := fun h => hIndent (.inr h)
        rw [visibleFrom, if_neg hSpace, if_neg hStop,
          Text.widthFrom, Text.margin_cons, if_neg hIndent]
        rfl

/- The indentation of a line is the width of its margin. -/
theorem visibleIndentation_eq
    {tabSize : Nat}
    {text : List Char}
    (hTab : 0 < tabSize)
    (hFits : Text.widthFrom tabSize 0 text < maxCount) :
    visibleIndentation tabSize text =
      .ok (Text.indent? tabSize text) :=
  visibleFrom_eq hTab hFits

end Bracketry

------------------------------------------------------------
-- The Least of Some Columns
------------------------------------------------------------

namespace Bracketry

/- The least of some columns, or the indentation of nothing. -/
def leastColumn
    (columns : List Nat) :
    Nat :=
  columns.foldr min noIndentation

/- A least indentation, as it is told. -/
def told?
    (value : Nat) :
    Option Nat :=
  if value = noIndentation then none else some value

@[simp] theorem leastColumn_nil :
    leastColumn [] = noIndentation :=
  rfl

@[simp] theorem leastColumn_cons
    (column : Nat)
    (rest : List Nat) :
    leastColumn (column :: rest) =
      min column (leastColumn rest) :=
  rfl

theorem leastColumn_le
    (columns : List Nat) :
    leastColumn columns ≤ noIndentation := by
  cases columns with
  | nil => exact Nat.le_refl _
  | cons column rest =>
      exact (Nat.min_le_right _ _).trans (leastColumn_le rest)

theorem leastColumn_append
    (a b : List Nat) :
    leastColumn (a ++ b) =
      min (leastColumn a) (leastColumn b) := by
  induction a with
  | nil => exact (Nat.min_eq_right (leastColumn_le b)).symm
  | cons column rest ih =>
      rw [List.cons_append, leastColumn_cons, ih,
        leastColumn_cons, Nat.min_assoc]

/- Columns that are counts are told by their least one. -/
theorem told?_leastColumn
    {columns : List Nat}
    (h : ∀ column ∈ columns, column < noIndentation) :
    told? (leastColumn columns) = columns.min? := by
  induction columns with
  | nil => rfl
  | cons column rest ih =>
      rw [List.forall_mem_cons] at h
      have hHere :
          min column (leastColumn rest) ≠ noIndentation :=
        Nat.ne_of_lt ((Nat.min_le_left _ _).trans_lt h.1)
      rw [List.min?_cons, ← ih h.2, leastColumn_cons, told?,
        if_neg hHere, told?]
      split_ifs with hNone
      · rw [hNone, Nat.min_eq_left h.1.le]
        rfl
      · rfl

/- The least indentation of lines whose margins fit. -/
theorem linesIndentation_eq
    {tabSize : Nat}
    {lines : List Line}
    (hTab : 0 < tabSize)
    (hFits :
      ∀ line ∈ lines,
        Text.widthFrom tabSize 0 line.text < maxCount) :
    Node.linesIndentation tabSize lines =
      .ok (leastColumn
        (lines.filterMap (Text.indent? tabSize ·.text))) := by
  induction lines with
  | nil => rfl
  | cons line rest ih =>
      rw [List.forall_mem_cons] at hFits
      have hLe :=
        leastColumn_le
          (rest.filterMap (Text.indent? tabSize ·.text))
      rw [Node.linesIndentation, ih hFits.2,
        visibleIndentation_eq hTab hFits.1,
        List.filterMap_cons]
      cases Text.indent? tabSize line.text with
      | none =>
          exact congrArg Except.ok (Nat.min_eq_right hLe)
      | some column => rfl

end Bracketry

------------------------------------------------------------
-- Lines between Two Places
------------------------------------------------------------

namespace Bracketry

namespace Content

/- The margins of all lines are counts of columns. -/
def FitsMargins
    (content : Content) :
    Prop :=
  ∀ line ∈ content.lines,
    Text.widthFrom (max content.tabSize 1) 0 line.text <
      maxCount

instance (content : Content) : Decidable content.FitsMargins :=
  inferInstanceAs (Decidable (∀ _ ∈ _, _))

/- The visible column of the first character of a line. -/
def indent?
    (content : Content)
    (line : Line) :
    Option Nat :=
  Text.indent? (max content.tabSize 1) line.text

/- The lines that begin from one place on before another. -/
def linesFrom
    (content : Content)
    (start stop : Position) :
    List Line :=
  (content.lines.take (BreakChar.linesBefore stop)).drop
    (BreakChar.linesBefore start)

/-
  The least indentation of the lines whose numbers and texts
  are chosen, if one of them is more than a margin.
-/
def leastWhere
    (content : Content)
    (chosen : Nat → List Char → Bool) :
    Option Nat :=
  (content.lines.zipIdx.filterMap fun row =>
    if chosen row.2 row.1.text then content.indent? row.1
    else none).min?

variable {content : Content} {start middle stop : Position}

theorem mem_lines_of_mem_linesFrom
    {line : Line}
    (h : line ∈ content.linesFrom start stop) :
    line ∈ content.lines :=
  List.mem_of_mem_take (List.mem_of_mem_drop h)

/- A line begins before a place if its number is below. -/
theorem lt_linesBefore_iff
    {number : Nat} :
    number < BreakChar.linesBefore stop ↔
      (⟨number, 0⟩ : Position) < stop := by
  rw [BreakChar.linesBefore, Length.lt_def]
  split_ifs <;> simp only <;> omega

theorem linesBefore_le_iff
    {number : Nat} :
    BreakChar.linesBefore start ≤ number ↔
      start ≤ (⟨number, 0⟩ : Position) := by
  rw [← not_lt, lt_linesBefore_iff, not_lt]

theorem linesBefore_mono
    (h : start ≤ stop) :
    BreakChar.linesBefore start ≤ BreakChar.linesBefore stop := by
  rw [linesBefore_le_iff]
  exact h.trans (linesBefore_le_iff.1 (Nat.le_refl _))

/- A text counts the lines that begin in it. -/
theorem textIndentation_eq
    {length : Length}
    (hCounted : content.lines.length < countLimit)
    (hMargins : content.FitsMargins)
    (hStart : start.lines < maxCount)
    (hStop : (start + length).Fits) :
    Node.textIndentation content start length =
      .ok (leastColumn
        ((content.linesFrom start (start + length)).filterMap
          content.indent?)) := by
  rw [BreakChar.textIndentation_of_fits hCounted hStart hStop]
  exact linesIndentation_eq (by omega) fun line hLine =>
    hMargins line (mem_lines_of_mem_linesFrom hLine)

theorem linesFrom_self
    (content : Content)
    (start : Position) :
    content.linesFrom start start = [] := by
  rw [linesFrom, List.drop_eq_nil_iff]
  exact List.length_take_le _ _

/- A place between cuts the lines that begin between two. -/
theorem linesFrom_append
    (content : Content)
    (hStart : start ≤ middle)
    (hStop : middle ≤ stop) :
    content.linesFrom start stop =
      content.linesFrom start middle ++
        content.linesFrom middle stop := by
  have hFirst := linesBefore_mono hStart
  have hLast := linesBefore_mono hStop
  unfold linesFrom
  rw [List.drop_take, List.drop_take, List.drop_take,
    ← Nat.sub_add_sub_cancel hLast hFirst, Nat.add_comm,
    List.take_add, List.drop_drop, Nat.add_sub_cancel' hFirst]

/- A stretch of a list has the items with certain numbers. -/
theorem filterMap_stretch
    {α β : Type}
    (items : List α)
    (first start stop : Nat)
    (tell : α → Option β) :
    ((items.take (stop - first)).drop
        (start - first)).filterMap tell =
      (items.zipIdx first).filterMap fun row =>
        if start ≤ row.2 ∧ row.2 < stop then tell row.1
        else none := by
  induction items generalizing first with
  | nil => simp
  | cons item rest ih =>
      rw [List.zipIdx_cons, List.filterMap_cons, ← ih]
      by_cases hStop : first < stop
      · have hMore :
            stop - first = stop - (first + 1) + 1 := by
          omega
        rw [hMore, List.take_succ_cons]
        by_cases hStart : start ≤ first
        · have hNone : start - first = 0 := by omega
          have hNext : start - (first + 1) = 0 := by omega
          rw [if_pos ⟨hStart, hStop⟩, hNone, hNext,
            List.drop_zero, List.drop_zero,
            List.filterMap_cons]
        · have hSome :
              start - first = start - (first + 1) + 1 := by
            omega
          rw [if_neg fun h => hStart h.1, hSome,
            List.drop_succ_cons]
      · have hNone : stop - first = 0 := by omega
        have hNext : stop - (first + 1) = 0 := by omega
        rw [if_neg fun h => hStop h.2, hNone, hNext,
          List.take_zero, List.take_zero, List.drop_nil,
          List.drop_nil, List.filterMap_nil]

/- Lines between two places are chosen by their numbers. -/
theorem told?_linesFrom
    {chosen : List Char → Bool}
    (hMargins : content.FitsMargins) :
    told? (leastColumn
        ((content.linesFrom start stop).filterMap fun line =>
          if chosen line.text then content.indent? line
          else none)) =
      content.leastWhere fun number text =>
        decide (start ≤ ⟨number, 0⟩) &&
          decide (⟨number, 0⟩ < stop) && chosen text := by
  have hFits :
      ∀ column ∈ (content.linesFrom start stop).filterMap
          fun line =>
            if chosen line.text then content.indent? line
            else none,
        column < noIndentation := by
    intro column hColumn
    rcases List.mem_filterMap.1 hColumn with
      ⟨line, hLine, hTold⟩
    split_ifs at hTold
    unfold indent? Text.indent? at hTold
    split_ifs at hTold
    rw [← Option.some.inj hTold]
    exact hMargins line (mem_lines_of_mem_linesFrom hLine)
  rw [told?_leastColumn hFits, linesFrom, leastWhere]
  have hStretch :=
    filterMap_stretch content.lines 0
      (BreakChar.linesBefore start) (BreakChar.linesBefore stop)
      fun line =>
        if chosen line.text then content.indent? line else none
  rw [Nat.sub_zero, Nat.sub_zero] at hStretch
  rw [hStretch]
  congr 2
  funext row
  simp only [linesBefore_le_iff, lt_linesBefore_iff,
    Bool.and_eq_true, decide_eq_true_eq, ite_and]

/- The choice only matters for the lines that there are. -/
theorem leastWhere_congr
    {chosen other : Nat → List Char → Bool}
    (h :
      ∀ row ∈ content.lines.zipIdx,
        chosen row.2 row.1.text = other row.2 row.1.text) :
    content.leastWhere chosen = content.leastWhere other := by
  unfold leastWhere
  congr 1
  apply List.filterMap_congr
  intro row hRow
  rw [h row hRow]

end Content

end Bracketry
