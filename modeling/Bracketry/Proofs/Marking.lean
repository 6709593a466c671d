import Bracketry.Proofs.Marks

/-
  Marking columns of a line.

  The kind of a column is the kind of the last span at or
  before it.  Marking a range of columns overwrites the kinds
  of that range and no others: what was there before goes on
  behind it, and the spans stay sorted.  A range whose start
  lies behind its end is the one case in which the spans do
  not stay sorted.

  Key definitions include:
    * `Span.lastKind`

  Main declarations:
    * `bisect_append`
    * `Span.mark_eq`
    * `Span.lastKind_mark`
    * `SpanTable.mark_overwrites`
-/

------------------------------------------------------------
-- Bisection of Parted Lists
------------------------------------------------------------

namespace Bracketry

variable {α : Type} {isBefore : α → Bool}
variable {entries : List α} {count : Nat}

/-
  The window always holds the last accepted entry, if there
  is one, and reaches to the first refused one.
-/
theorem bisectFrom_of_parted
    (hParted :
      ∀ place,
        entries[place]?.any isBefore =
          decide (place < count))
    (fuel base size : Nat)
    (hBase : base < count ∨ base = 0)
    (hCount : count ≤ base + size)
    (hFuel : size ≤ fuel + 1) :
    (bisectFrom isBefore entries fuel base size < count ∨
        bisectFrom isBefore entries fuel base size = 0) ∧
      count ≤ bisectFrom isBefore entries fuel base size + 1 := by
  induction fuel generalizing base size with
  | zero => exact ⟨hBase, by rw [bisectFrom]; omega⟩
  | succ fuel ih =>
      rw [bisectFrom]
      split
      · exact ⟨hBase, by omega⟩
      · simp only [hParted, decide_eq_true_eq]
        split
        · rename_i hMiddle
          exact ih _ _ (.inl hMiddle) (by omega) (by omega)
        · exact ih _ _ hBase (by omega) (by omega)

/- Bisection finds where accepted entries give way. -/
theorem bisect_append
    {front behind : List α}
    (hFront : ∀ entry ∈ front, isBefore entry = true)
    (hBehind : ∀ entry ∈ behind, isBefore entry = false) :
    bisect isBefore (front ++ behind) = front.length := by
  have hParted (place : Nat) :
      (front ++ behind)[place]?.any isBefore =
        decide (place < front.length) := by
    by_cases hPlace : place < front.length
    · rw [List.getElem?_append_left hPlace,
        List.getElem?_eq_getElem hPlace]
      simp [hPlace, hFront _ (List.getElem_mem hPlace)]
    · rw [List.getElem?_append_right (by omega)]
      cases hEntry : behind[place - front.length]? with
      | none => simp [hPlace]
      | some entry =>
          simp [hPlace,
            hBehind entry (List.mem_of_getElem? hEntry)]
  have hLength : front.length ≤ (front ++ behind).length := by
    simp
  rcases bisectFrom_of_parted hParted (front ++ behind).length 0
      (front ++ behind).length (.inr rfl) (by omega)
      (by omega) with
    ⟨hLast, hReach⟩
  simp only [bisect, hParted, decide_eq_true_eq]
  split <;> omega

end Bracketry

------------------------------------------------------------
-- Marking a Line
------------------------------------------------------------

namespace Bracketry

namespace Span

variable {spans : List Span} {start stop column : Nat}
variable {kind : SpanKind}

/- The kind of the last span at or before a column. -/
def lastKind
    (spans : List Span)
    (column : Nat) :
    SpanKind :=
  match
    (spans.filter (·.column ≤ column)).getLast? with
  | some span => span.kind
  | none => .other

/- Sorted spans at or before a column are the first ones. -/
theorem takeWhile_eq_filter
    (h : AreSorted spans)
    (column : Nat) :
    spans.takeWhile (·.column ≤ column) =
      spans.filter (·.column ≤ column) := by
  induction spans with
  | nil => rfl
  | cons first rest ih =>
      rcases List.pairwise_cons.1 h with ⟨hFirst, hRest⟩
      by_cases hHere : first.column ≤ column
      · rw [List.takeWhile_cons_of_pos (by simpa using hHere),
          List.filter_cons_of_pos (by simpa using hHere),
          ih hRest]
      · have hNone :
            rest.filter (·.column ≤ column) = [] := by
          rw [List.filter_eq_nil_iff]
          intro span hSpan
          have hLe := hFirst span hSpan
          simp only [decide_eq_true_eq]
          omega
        rw [List.takeWhile_cons_of_neg (by simpa using hHere),
          List.filter_cons_of_neg (by simpa using hHere),
          hNone]

theorem kindAt_eq_lastKind
    (h : AreSorted spans)
    (column : Nat) :
    kindAt spans column = lastKind spans column := by
  rw [kindAt, takeWhile_eq_filter h]
  rfl

/- Sorted spans are those before a column and the others. -/
theorem filter_lt_append
    (h : AreSorted spans)
    (column : Nat) :
    spans.filter (·.column < column) ++
        spans.filter (column ≤ ·.column) =
      spans := by
  induction spans with
  | nil => rfl
  | cons first rest ih =>
      rcases List.pairwise_cons.1 h with ⟨hFirst, hRest⟩
      by_cases hHere : first.column < column
      · rw [List.filter_cons_of_pos (by simpa using hHere),
          List.filter_cons_of_neg (by simpa using hHere),
          List.cons_append, ih hRest]
      · have hNone :
            rest.filter (·.column < column) = [] := by
          rw [List.filter_eq_nil_iff]
          intro span hSpan
          have hLe := hFirst span hSpan
          simp only [decide_eq_true_eq]
          omega
        have hAll := ih hRest
        rw [hNone, List.nil_append] at hAll
        rw [List.filter_cons_of_neg (by simpa using hHere),
          List.filter_cons_of_pos (by simpa using hHere),
          hNone, List.nil_append, hAll]

/- The spans outside a range, those before it first. -/
theorem filter_outside
    (h : AreSorted spans)
    (start stop : Nat) :
    (spans.filter fun span =>
        span.column < start || stop < span.column) =
      spans.filter (·.column < start) ++
        (spans.filter (start ≤ ·.column)).filter
          (stop < ·.column) := by
  conv_lhs => rw [← filter_lt_append h start]
  rw [List.filter_append]
  congr 1
  · rw [List.filter_eq_self]
    intro span hSpan
    simp_all
  · rw [List.filter_filter, List.filter_filter]
    refine List.filter_congr fun span _ => ?_
    by_cases hStart : start ≤ span.column
    · simp [hStart]
    · simp [hStart]

/- Behind the end of a range is behind its start. -/
theorem filter_behind
    (hLe : start ≤ stop) :
    (spans.filter (start ≤ ·.column)).filter
        (stop < ·.column) =
      spans.filter (stop < ·.column) := by
  rw [List.filter_filter]
  refine List.filter_congr fun span _ => ?_
  rw [Bool.eq_iff_iff, Bool.and_eq_true,
    decide_eq_true_eq, decide_eq_true_eq]
  omega

/-
  Marking cuts sorted spans at the two ends of the range.
  Of the spans from `start` on, those up to `stop` are left
  out, and the kind of `stop` is said there again.
-/
theorem mark_eq
    (h : AreSorted spans)
    (start stop : Nat)
    (kind : SpanKind) :
    mark start stop kind spans =
      spans.filter (·.column < start) ++
        ⟨start, kind⟩ :: ⟨stop, lastKind spans stop⟩ ::
          (spans.filter (start ≤ ·.column)).filter
            (stop < ·.column) := by
  have hPlace :
      bisect (fun span : Span => decide (span.column < start))
          (spans.filter (·.column < start) ++
            (spans.filter (start ≤ ·.column)).filter
              (stop < ·.column)) =
        (spans.filter (·.column < start)).length := by
    refine bisect_append ?_ ?_
    · intro span hSpan
      exact (List.mem_filter.1 hSpan).2
    · intro span hSpan
      simp_all
  have hResumed :
      ((spans.filter (start ≤ ·.column)).filter
          (stop < ·.column)).head?.any
        (·.column = stop) = false := by
    rw [← Bool.not_eq_true, Option.any_eq_true]
    rintro ⟨span, hSpan, hColumn⟩
    have hMem := List.mem_of_mem_head? hSpan
    simp only [List.mem_filter, decide_eq_true_eq] at hMem
    simp only [decide_eq_true_eq] at hColumn
    omega
  simp only [mark, filter_outside h, hPlace, List.take_left,
    List.drop_left, hResumed, kindAt_eq_lastKind h]
  simp

/- Marked spans are sorted if the range is not reversed. -/
theorem areSorted_mark_iff
    (h : AreSorted spans) :
    AreSorted (mark start stop kind spans) ↔
      start ≤ stop := by
  rw [mark_eq h]
  constructor
  · intro hSorted
    have hEnds := (List.pairwise_append.1 hSorted).2.1
    exact (List.pairwise_cons.1 hEnds).1 _
      List.mem_cons_self
  · intro hLe
    have hBehind :
        ∀ span ∈ (spans.filter (start ≤ ·.column)).filter
            (stop < ·.column), stop ≤ span.column := by
      intro span hSpan
      simp only [List.mem_filter, decide_eq_true_eq] at hSpan
      omega
    refine List.pairwise_append.2
      ⟨List.Pairwise.filter _ h,
        List.pairwise_cons.2 ⟨?_, List.pairwise_cons.2
          ⟨hBehind,
            List.Pairwise.filter _
              (List.Pairwise.filter _ h)⟩⟩, ?_⟩
    · intro span hSpan
      rcases List.mem_cons.1 hSpan with rfl | hMem
      · exact hLe
      · exact Nat.le_trans hLe (hBehind span hMem)
    · intro first hFirst second hSecond
      simp only [List.mem_filter, decide_eq_true_eq] at hFirst
      rcases List.mem_cons.1 hSecond with rfl | hSecond
      · exact Nat.le_of_lt hFirst.2
      · rcases List.mem_cons.1 hSecond with rfl | hMem
        · exact Nat.le_trans (Nat.le_of_lt hFirst.2) hLe
        · have hStop := hBehind second hMem
          omega

/- The spans up to a column, parted at an earlier one. -/
theorem filter_le_append
    (h : AreSorted spans)
    (hLe : stop ≤ column) :
    spans.filter (·.column ≤ column) =
      spans.filter (·.column ≤ stop) ++
        (spans.filter (stop < ·.column)).filter
          (·.column ≤ column) := by
  conv_lhs => rw [← filter_lt_append h (stop + 1)]
  simp only [Nat.lt_succ_iff, Nat.succ_le_iff,
    List.filter_append]
  congr 1
  rw [List.filter_eq_self]
  intro span hSpan
  simp only [List.mem_filter, decide_eq_true_eq] at hSpan ⊢
  omega

/- Marking overwrites the kinds of the range. -/
theorem lastKind_mark
    (h : AreSorted spans)
    (hLe : start ≤ stop)
    (kind : SpanKind)
    (column : Nat) :
    lastKind (mark start stop kind spans) column =
      if start ≤ column ∧ column < stop then kind
      else lastKind spans column := by
  have hFront (hStart : column < start) :
      (spans.filter (·.column < start)).filter
          (·.column ≤ column) =
        spans.filter (·.column ≤ column) := by
    rw [List.filter_filter]
    refine List.filter_congr fun span _ => ?_
    rw [Bool.eq_iff_iff, Bool.and_eq_true,
      decide_eq_true_eq, decide_eq_true_eq]
    omega
  have hBehind (hStop : column < stop) :
      (spans.filter (stop < ·.column)).filter
          (·.column ≤ column) = [] := by
    rw [List.filter_eq_nil_iff]
    intro span hSpan
    simp only [List.mem_filter, decide_eq_true_eq] at hSpan ⊢
    omega
  rw [mark_eq h, filter_behind hLe, lastKind,
    List.filter_append]
  -- before the range, in it, and behind it
  rcases Nat.lt_or_ge column start with hStart | hStart
  · rw [if_neg (by omega), hFront hStart,
      List.filter_cons_of_neg (by simpa using hStart),
      List.filter_cons_of_neg
        (by simpa using Nat.lt_of_lt_of_le hStart hLe),
      hBehind (by omega), List.append_nil, lastKind]
  · rcases Nat.lt_or_ge column stop with hStop | hStop
    · rw [if_pos ⟨hStart, hStop⟩,
        List.filter_cons_of_pos (by simpa using hStart),
        List.filter_cons_of_neg (by simpa using hStop),
        hBehind hStop, List.getLast?_append]
      rfl
    · rw [if_neg (by omega),
        List.filter_cons_of_pos (by simpa using hStart),
        List.filter_cons_of_pos (by simpa using hStop),
        lastKind, lastKind, filter_le_append h hStop,
        List.getLast?_append, List.getLast?_append,
        List.getLast?_cons_cons, List.getLast?_cons]
      cases
        ((spans.filter (stop < ·.column)).filter
          (·.column ≤ column)).getLast? <;> rfl

end Span

end Bracketry

------------------------------------------------------------
-- Marking a Table
------------------------------------------------------------

namespace Bracketry

namespace SpanTable

theorem onLine_zero
    {spans : List Span}
    (h : spans ≠ [])
    (rest : List (List Span)) :
    onLine ⟨spans :: rest⟩ 0 = spans := by
  rcases List.exists_cons_of_ne_nil h with ⟨first, others, rfl⟩
  rfl

variable (start stop : Nat) (kind : SpanKind)

/- Only the spans of the marked line are others. -/
theorem onLine_markLine
    (line : Nat)
    (lines : List (List Span))
    (other : Nat) :
    onLine ⟨markLine start stop kind line lines⟩ other =
      if other = line then
        Span.mark start stop kind (onLine ⟨lines⟩ line)
      else onLine ⟨lines⟩ other := by
  have hSome (spans : List Span) :
      Span.mark start stop kind spans ≠ [] := by
    simp [Span.mark]
  fun_induction markLine start stop kind line lines
    generalizing other with
  | case1 =>
      cases other with
      | zero => exact onLine_zero (hSome _) _
      | succ other => rfl
  | case2 rest =>
      cases other with
      | zero => exact onLine_zero (hSome _) _
      | succ other => rfl
  | case3 spans rest hSpans =>
      cases other with
      | zero =>
          rw [onLine_zero (hSome _), if_pos rfl,
            onLine_zero hSpans]
      | succ other => rfl
  | case4 line ih =>
      cases other with
      | zero => rfl
      | succ other =>
          simp only [Nat.succ_inj]
          exact ih other
  | case5 line spans rest ih =>
      cases other with
      | zero => rfl
      | succ other =>
          simp only [Nat.succ_inj]
          exact ih other

/- What lines are there behind the marking of one. -/
theorem mem_markLine
    {spans : List Span}
    (line : Nat)
    (lines : List (List Span))
    (h : spans ∈ markLine start stop kind line lines) :
    spans = [] ∨ spans ∈ lines ∨
      spans =
        Span.mark start stop kind (onLine ⟨lines⟩ line) := by
  fun_induction markLine start stop kind line lines with
  | case1 =>
      exact .inr (.inr (List.mem_singleton.1 h))
  | case2 rest =>
      rcases List.mem_cons.1 h with hHere | hRest
      · exact .inr (.inr hHere)
      · exact .inr (.inl (List.mem_cons_of_mem _ hRest))
  | case3 first rest hFirst =>
      rcases List.mem_cons.1 h with hHere | hRest
      · rw [onLine_zero hFirst]
        exact .inr (.inr hHere)
      · exact .inr (.inl (List.mem_cons_of_mem _ hRest))
  | case4 line ih =>
      rcases List.mem_cons.1 h with hHere | hRest
      · exact .inl hHere
      · exact ih hRest
  | case5 line first rest ih =>
      rcases List.mem_cons.1 h with hHere | hRest
      · exact .inr (.inl (hHere ▸ List.mem_cons_self))
      · exact (ih hRest).imp_right
          (.imp_left (List.mem_cons_of_mem _))

variable {start stop} {kind}

theorem isSorted_mark_iff
    {table : SpanTable}
    (h : table.IsSorted)
    (line : Nat) :
    (table.mark line start stop kind).IsSorted ↔
      start ≤ stop := by
  have hLine := h.onLine line
  constructor
  · intro hSorted
    have hMarked := hSorted.onLine line
    rw [mark, onLine_markLine, if_pos rfl] at hMarked
    exact (Span.areSorted_mark_iff hLine).1 hMarked
  · intro hLe spans hSpans
    rcases mem_markLine _ _ _ _ _ hSpans with
      rfl | hOld | rfl
    · exact List.Pairwise.nil
    · exact h spans hOld
    · exact (Span.areSorted_mark_iff hLine).2 hLe

/-
  Marking leaves the other lines as they are.  If the range
  is not reversed, and only then, the spans stay sorted; the
  columns of the range have the new kind then, and all other
  columns the kind they had.
-/
theorem mark_overwrites
    {table : SpanTable}
    (h : table.IsSorted)
    (line start stop : Nat)
    (kind : SpanKind) :
    let marked := table.mark line start stop kind
    (∀ other, other ≠ line →
        marked.onLine other = table.onLine other) ∧
      (marked.IsSorted ↔ start ≤ stop) ∧
      (start ≤ stop →
        ∀ column,
          Span.lastKind (marked.onLine line) column =
            if start ≤ column ∧ column < stop then kind
            else
              Span.lastKind (table.onLine line) column) := by
  intro marked
  have hOnLine (other : Nat) :
      marked.onLine other =
        if other = line then
          Span.mark start stop kind (table.onLine line)
        else table.onLine other :=
    onLine_markLine start stop kind line table.lines other
  refine ⟨?_, isSorted_mark_iff h line, ?_⟩
  · intro other hOther
    rw [hOnLine, if_neg hOther]
  · intro hLe column
    rw [hOnLine, if_pos rfl]
    exact Span.lastKind_mark (h.onLine line) hLe kind column

/- A text inside a comment, which goes on behind it. -/
theorem mark_overwrites_comment :
    let table : SpanTable :=
      ⟨[[], [⟨0, .other⟩, ⟨2, .comment⟩, ⟨6, .regexp⟩]]⟩
    let marked := table.mark 1 4 6 .string
    table.IsSorted ∧
      marked.onLine 0 = table.onLine 0 ∧
      marked.IsSorted ∧
      Span.lastKind (marked.onLine 1) 3 = .comment ∧
      Span.lastKind (marked.onLine 1) 5 = .string ∧
      Span.lastKind (marked.onLine 1) 6 = .regexp := by
  intro table marked
  have hSorted : table.IsSorted := by decide
  rcases mark_overwrites hSorted 1 4 6 .string with
    ⟨hOthers, hStays, hKinds⟩
  have hColumns := hKinds (by decide)
  exact ⟨hSorted, hOthers 0 (by decide),
    hStays.2 (by decide), hColumns 3, hColumns 5,
    hColumns 6⟩

end SpanTable

end Bracketry
