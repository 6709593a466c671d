import Bracketry.Proofs.LineMatches
import Bracketry.Proofs.Peeks
import Mathlib.Data.List.Sort
import Mathlib.Data.List.TakeWhile

/-
  The brackets in the code of a line.

  The kinds of the columns of a line cut it into longest
  stretches of code.  Where the columns of its spans ascend,
  these stretches are what a reader searches, and where all
  is ASCII it finds all matches in each of them.  But a
  reader takes the first span of a line from the start of the
  line on.

  Key definitions include:
    * `Span.fromStart`
    * `Span.IsRun`, `Span.runs`
    * `TokenTable.codeOn`

  Main declarations:
    * `Span.mem_runs`
    * `LineReader.stretches_eq_runs`
    * `LineReader.marksBetween_run`
    * `TokenStream.brackets_eq_runs`
-/

------------------------------------------------------------
-- Kinds of Columns
------------------------------------------------------------

namespace Bracketry

namespace Span

variable {kind : SpanKind} {column : Nat}
variable {spans rest : List Span}

/- The columns of the spans of a line ascend. -/
def AreAscending
    (spans : List Span) :
    Prop :=
  spans.Pairwise fun a b => a.column < b.column

instance (spans : List Span) :
    Decidable (AreAscending spans) :=
  inferInstanceAs (Decidable (List.Pairwise _ _))

theorem AreAscending.areSorted
    (h : AreAscending spans) :
    AreSorted spans :=
  h.imp Nat.le_of_lt

/- The spans with the first one from the start of the line. -/
def fromStart : List Span → List Span
  | [] => []
  | first :: rest => ⟨0, first.kind⟩ :: rest

theorem fromStart_eq
    (h : ∀ first ∈ spans.head?, first.column = 0) :
    fromStart spans = spans := by
  cases spans with
  | nil => rfl
  | cons first rest =>
      have hZero := h first rfl
      rw [fromStart, ← hZero]

/- The kind of a column, where spans follow a kind. -/
def kindFrom
    (kind : SpanKind) :
    List Span → Nat → SpanKind
  | [], _ => kind
  | next :: rest, column =>
      if next.column ≤ column then
        kindFrom next.kind rest column
      else kind

/- A column in front of the spans has the kind before them. -/
theorem kindFrom_of_lt
    (h : ∀ span ∈ spans, column < span.column) :
    kindFrom kind spans column = kind := by
  cases spans with
  | nil => rfl
  | cons next rest =>
      have hNext := h next List.mem_cons_self
      rw [kindFrom, if_neg (Nat.not_le.2 hNext)]

theorem match_getLast?_eq
    (kind : SpanKind)
    (spans : List Span)
    (column : Nat) :
    (match
        (spans.takeWhile (·.column ≤ column)).getLast? with
      | some span => span.kind
      | none => kind) =
      kindFrom kind spans column := by
  induction spans generalizing kind with
  | nil => rfl
  | cons next rest ih =>
      rw [kindFrom, List.takeWhile_cons]
      by_cases hNext : next.column ≤ column
      · rw [if_pos hNext, if_pos (decide_eq_true hNext),
          ← ih next.kind, List.getLast?_cons]
        cases
          (rest.takeWhile (·.column ≤ column)).getLast? <;>
          rfl
      · rw [if_neg hNext,
          if_neg (by simpa using hNext)]
        rfl

theorem kindAt_fromStart
    (first : Span)
    (rest : List Span)
    (column : Nat) :
    kindAt (fromStart (first :: rest)) column =
      kindFrom first.kind rest column := by
  have hFrom :=
    match_getLast?_eq .other (fromStart (first :: rest))
      column
  rw [fromStart, kindFrom, if_pos (Nat.zero_le _)] at hFrom
  exact hFrom

end Span

namespace SpanTable

/- The columns of the spans of each line ascend. -/
def IsAscending
    (table : SpanTable) :
    Prop :=
  ∀ spans ∈ table.lines, Span.AreAscending spans

instance (table : SpanTable) : Decidable table.IsAscending :=
  inferInstanceAs (Decidable (∀ _ ∈ _, _))

/- The first span of each line begins where the line does. -/
def StartsLines
    (table : SpanTable) :
    Prop :=
  ∀ spans ∈ table.lines,
    ∀ first ∈ spans.head?, first.column = 0

instance (table : SpanTable) : Decidable table.StartsLines :=
  inferInstanceAs (Decidable (∀ _ ∈ _, ∀ _ ∈ _, _))

/- What holds of all spans, and of code, holds of a line. -/
theorem onLine_induction
    {table : SpanTable}
    {holds : List Span → Prop}
    (hPlain : holds Span.plain)
    (h : ∀ spans ∈ table.lines, holds spans)
    (line : Nat) :
    holds (table.onLine line) := by
  unfold onLine
  split
  · rename_i span rest hLine
    exact h _ (List.mem_of_getElem? hLine)
  · exact hPlain

end SpanTable

end Bracketry

------------------------------------------------------------
-- Runs of Code
------------------------------------------------------------

namespace Bracketry

namespace Span

/-
  The columns from one up to another are a longest stretch of
  code among the columns from `origin` up to `width`.
-/
def IsRun
    (kind : Nat → SpanKind)
    (origin width : Nat)
    (run : Nat × Nat) :
    Prop :=
  (origin ≤ run.1 ∧ run.1 < run.2 ∧ run.2 ≤ width) ∧
    (∀ column < run.2, run.1 ≤ column →
      kind column = .other) ∧
    (run.1 = origin ∨ kind (run.1 - 1) ≠ .other) ∧
    (run.2 = width ∨ kind run.2 ≠ .other)

instance
    (kind : Nat → SpanKind)
    (origin width : Nat)
    (run : Nat × Nat) :
    Decidable (IsRun kind origin width run) :=
  inferInstanceAs (Decidable (_ ∧ _))

/- The runs of a line, in their order. -/
def runs
    (kind : Nat → SpanKind)
    (width : Nat) :
    List (Nat × Nat) :=
  (List.range width).filterMap fun start =>
    ((List.range (width + 1)).find? fun stop =>
      IsRun kind 0 width (start, stop)).map (start, ·)

variable {kind known : Nat → SpanKind}
variable {origin width stop : Nat} {run : Nat × Nat}

/- A run ends where it does because of how it begins. -/
theorem IsRun.eq_of_start
    {next : Nat × Nat}
    (h : IsRun kind origin width run)
    (hNext : IsRun kind origin width next)
    (hStart : run.1 = next.1) :
    run = next := by
  rcases h with ⟨⟨_, hLess, hWidth⟩, hCode, _, hEnds⟩
  rcases hNext with
    ⟨⟨_, hNextLess, hNextWidth⟩, hNextCode, _, hNextEnds⟩
  refine Prod.ext hStart ?_
  rcases Nat.lt_trichotomy run.2 next.2 with
    hBefore | hSame | hBehind
  · have hOther :=
      hNextCode run.2 hBefore (by omega)
    rcases hEnds with hAll | hStops
    · omega
    · exact absurd hOther hStops
  · exact hSame
  · have hOther := hCode next.2 hBehind (by omega)
    rcases hNextEnds with hAll | hStops
    · omega
    · exact absurd hOther hStops

theorem mem_runs :
    run ∈ runs kind width ↔ IsRun kind 0 width run := by
  rw [runs, List.mem_filterMap]
  constructor
  · rintro ⟨start, _, hFound⟩
    rcases Option.map_eq_some_iff.1 hFound with
      ⟨stop, hStop, rfl⟩
    have hRun := List.find?_some hStop
    exact of_decide_eq_true hRun
  · intro h
    rcases h.1 with ⟨_, hLess, hWidth⟩
    refine ⟨run.1, List.mem_range.2 (by omega), ?_⟩
    cases hStop :
        (List.range (width + 1)).find? fun stop =>
          IsRun kind 0 width (run.1, stop) with
    | none =>
        have hNone :=
          List.find?_eq_none.1 hStop run.2
            (List.mem_range.2 (by omega))
        exact absurd (decide_eq_true h) hNone
    | some stop =>
        have hRun := List.find?_some hStop
        have hFound : IsRun kind 0 width (run.1, stop) :=
          of_decide_eq_true hRun
        rw [Option.map_some, hFound.eq_of_start h rfl]

/- Each run begins behind the one before it. -/
theorem pairwise_runs
    (kind : Nat → SpanKind)
    (width : Nat) :
    (runs kind width).Pairwise fun a b => a.1 < b.1 := by
  rw [runs, List.pairwise_filterMap]
  refine List.pairwise_lt_range.imp ?_
  intro a b hLess run hRun next hNext
  rcases Option.map_eq_some_iff.1 hRun with ⟨_, _, rfl⟩
  rcases Option.map_eq_some_iff.1 hNext with ⟨_, _, rfl⟩
  exact hLess

theorem IsRun.congr
    (hSame : ∀ column ≥ origin, kind column = known column)
    (h : IsRun kind origin width run) :
    IsRun known origin width run := by
  rcases h with
    ⟨⟨hOrigin, hLess, hWidth⟩, hCode, hBegins, hEnds⟩
  refine ⟨⟨hOrigin, hLess, hWidth⟩, ?_, ?_, ?_⟩
  · intro column hStop hStart
    rw [← hSame column (by omega)]
    exact hCode column hStop hStart
  · by_cases hHere : run.1 = origin
    · exact .inl hHere
    · rw [← hSame (run.1 - 1) (by omega)]
      exact hBegins
  · rw [← hSame run.2 (by omega)]
    exact hEnds

theorem isRun_congr
    (hSame : ∀ column ≥ origin, kind column = known column) :
    IsRun kind origin width run ↔
      IsRun known origin width run :=
  ⟨.congr hSame, .congr fun column hColumn =>
    (hSame column hColumn).symm⟩

/- Behind the end of a line there are no runs. -/
theorem not_isRun_of_le
    (h : width ≤ origin) :
    ¬IsRun kind origin width run := by
  rintro ⟨⟨hOrigin, hOpen, hClose⟩, _⟩
  omega

/-
  Where the kind stays the same up to a column and changes
  there, a run lies behind it, or it is that stretch.
-/
theorem isRun_iff_of_same
    {same : SpanKind}
    (hLess : origin < stop)
    (hWidth : stop ≤ width)
    (hSame :
      ∀ column < stop, origin ≤ column → kind column = same)
    (hStop : stop = width ∨ kind stop ≠ same) :
    IsRun kind origin width run ↔
      (same = .other ∧ run = (origin, stop)) ∨
        IsRun kind stop width run := by
  constructor
  · rintro ⟨⟨hOrigin, hOpen, hClose⟩, hCode, hBegins, hEnds⟩
    by_cases hBehind : stop ≤ run.1
    · right
      refine ⟨⟨hBehind, hOpen, hClose⟩, hCode, ?_, hEnds⟩
      exact .inr (hBegins.resolve_left (by omega))
    · have hFirst := hCode run.1 hOpen (Nat.le_refl _)
      rw [hSame run.1 (by omega) hOrigin] at hFirst
      subst hFirst
      left
      refine ⟨rfl, Prod.ext ?_ ?_⟩
      · by_contra hLater
        exact hBegins.resolve_left hLater
          (hSame (run.1 - 1) (by omega) (by omega))
      · have hReaches : ¬run.2 < stop := by
          intro hEarly
          exact hEnds.resolve_left (by omega)
            (hSame run.2 hEarly (by omega))
        by_contra hFurther
        exact hStop.resolve_left (by omega)
          (hCode stop (by omega) (by omega))
  · rintro (⟨rfl, rfl⟩ |
      ⟨⟨hOrigin, hOpen, hClose⟩, hCode, hBegins, hEnds⟩)
    · exact ⟨⟨Nat.le_refl _, hLess, hWidth⟩, hSame, .inl rfl,
        hStop⟩
    · refine ⟨⟨by omega, hOpen, hClose⟩, hCode, ?_, hEnds⟩
      right
      rcases hBegins with hHere | hBefore
      · have hFirst := hCode run.1 hOpen (Nat.le_refl _)
        rw [hHere] at hFirst hOpen ⊢
        rw [hSame (stop - 1) (by omega) (by omega), ← hFirst]
        exact (hStop.resolve_left (by omega)).symm
      · exact hBefore

end Span

end Bracketry

------------------------------------------------------------
-- What a Reader Searches
------------------------------------------------------------

namespace Bracketry

namespace LineReader

open Bracketry.Span

/- The columns that are searched, from one of them on. -/
def stretches
    (line : List Char)
    (column : Nat) :
    List Span → List (Nat × Nat)
  | [] => []
  | span :: rest =>
      if rest.head?.any (·.kind = span.kind) then
        stretches line column rest
      else
        (if span.kind = .other ∧
            column < spanStop line rest then
          [(column, spanStop line rest)]
        else []) ++
          stretches line (max column (spanStop line rest))
            rest

variable {table : TokenTable} {line : List Char}
variable {column : Nat}

/- The marks of a line are those of what is searched. -/
theorem marksOn_eq_flatMap
    (spans : List Span)
    (column : Nat) :
    marksOn table line column spans =
      (stretches line column spans).flatMap fun run =>
        marksBetween table line run.1 run.2 := by
  induction spans generalizing column with
  | nil => rfl
  | cons span rest ih =>
      rw [marksOn_cons, stretches]
      by_cases hMerged :
          rest.head?.any (·.kind = span.kind) = true
      · rw [if_pos hMerged, if_pos hMerged]
        exact ih column
      · rw [if_neg hMerged, if_neg hMerged, ih,
          List.flatMap_append]
        congr 1
        by_cases hLess : column < spanStop line rest
        · by_cases hCode : span.kind = .other <;>
            simp [hCode, hLess]
        · rw [marksBetween_of_le (Nat.not_lt.1 hLess)]
          simp [hLess]

theorem stretches_of_le
    (spans : List Span)
    (h : width line ≤ column) :
    stretches line column spans = [] := by
  induction spans generalizing column with
  | nil => rfl
  | cons span rest ih =>
      have hStop := spanStop_le line rest
      have hLess : ¬column < spanStop line rest :=
        Nat.not_lt.2 (hStop.trans h)
      rw [stretches, Nat.max_eq_left (hStop.trans h), ih h]
      simp [hLess]

/- Behind the end of a line nothing is searched. -/
theorem mem_stretches_of_le
    {kind : Nat → SpanKind}
    {run : Nat × Nat}
    (spans : List Span)
    (h : width line ≤ column) :
    run ∈ stretches line column spans ↔
      IsRun kind column (width line) run := by
  rw [stretches_of_le spans h]
  exact iff_of_false List.not_mem_nil (not_isRun_of_le h)

/- Each stretch begins behind the one before it. -/
theorem pairwise_stretches
    (spans : List Span)
    (column : Nat) :
    (∀ run ∈ stretches line column spans, column ≤ run.1) ∧
      (stretches line column spans).Pairwise fun a b =>
        a.1 < b.1 := by
  induction spans generalizing column with
  | nil => exact ⟨List.forall_mem_nil _, .nil⟩
  | cons span rest ih =>
      rw [stretches]
      split_ifs with hMerged hCode
      · exact ih column
      · rcases ih (max column (spanStop line rest)) with
          ⟨hLater, hOrder⟩
        rw [List.singleton_append, List.forall_mem_cons,
          List.pairwise_cons]
        refine ⟨⟨Nat.le_refl _, fun run hRun => ?_⟩,
          fun run hRun => ?_, hOrder⟩
        · exact (Nat.le_max_left _ _).trans (hLater run hRun)
        · exact hCode.2.trans_le
            ((Nat.le_max_right _ _).trans (hLater run hRun))
      · rcases ih (max column (spanStop line rest)) with
          ⟨hLater, hOrder⟩
        rw [List.nil_append]
        exact ⟨fun run hRun =>
          (Nat.le_max_left _ _).trans (hLater run hRun),
          hOrder⟩

/-
  A span whose kind ends where it does adds its own stretch
  to what is searched behind it.
-/
theorem mem_stretches_cons
    {kind : Nat → SpanKind}
    {span : Span}
    {rest : List Span}
    {run : Nat × Nat}
    (hMerged : ¬rest.head?.any (·.kind = span.kind) = true)
    (hLess : column < spanStop line rest)
    (hSame :
      ∀ other < spanStop line rest, column ≤ other →
        kind other = span.kind)
    (hChanges :
      spanStop line rest = width line ∨
        kind (spanStop line rest) ≠ span.kind)
    (hRest :
      run ∈ stretches line (spanStop line rest) rest ↔
        IsRun kind (spanStop line rest) (width line)
          run) :
    run ∈ stretches line column (span :: rest) ↔
      IsRun kind column (width line) run := by
  rw [isRun_iff_of_same hLess (spanStop_le _ _) hSame hChanges,
    ← hRest, stretches, if_neg hMerged,
    Nat.max_eq_right (Nat.le_of_lt hLess), List.mem_append]
  by_cases hCode : span.kind = .other <;>
    simp [hCode, hLess]

/-
  What is searched is the runs of the kinds of the columns.
  The induction is on the spans: each reaches up to the next
  one, or to the end of the line.
-/
theorem mem_stretches
    {span : Span}
    {rest : List Span}
    {run : Nat × Nat}
    (hOrder : AreAscending rest)
    (hBehind : ∀ next ∈ rest, column < next.column) :
    run ∈ stretches line column (span :: rest) ↔
      IsRun (kindFrom span.kind rest) column
        (width line) run := by
  induction rest generalizing span column with
  | nil =>
      rcases Nat.lt_or_ge column (width line) with
        hInside | hBeyond
      · exact mem_stretches_cons (by simp) hInside
          (fun _ _ _ => rfl) (.inl rfl)
          (mem_stretches_of_le [] (Nat.le_refl _))
      · exact mem_stretches_of_le [span] hBeyond
  | cons next others ih =>
      rw [AreAscending, List.pairwise_cons] at hOrder
      rcases hOrder with ⟨hNext, hOthers⟩
      rw [List.forall_mem_cons] at hBehind
      rcases hBehind with ⟨hColumn, hFurther⟩
      have hBefore :
          ∀ other < next.column,
            kindFrom span.kind (next :: others) other =
              span.kind := by
        intro other hOther
        rw [kindFrom, if_neg (Nat.not_le.2 hOther)]
      have hAfter :
          ∀ other ≥ next.column,
            kindFrom span.kind (next :: others) other =
              kindFrom next.kind others other := by
        intro other hOther
        rw [kindFrom, if_pos hOther]
      by_cases hMerged : next.kind = span.kind
      · have hKinds :
            ∀ other ≥ column,
              kindFrom span.kind (next :: others) other =
                kindFrom next.kind others other := by
          intro other _
          rcases Nat.lt_or_ge other next.column with
            hLess | hLater
          · rw [hBefore other hLess, ← hMerged]
            exact (kindFrom_of_lt fun span hSpan =>
              hLess.trans (hNext span hSpan)).symm
          · exact hAfter other hLater
        rw [stretches, if_pos (by simpa using hMerged),
          isRun_congr hKinds]
        exact ih hOthers hFurther
      · have hParts :
            ¬(next :: others).head?.any
              (·.kind = span.kind) = true := by
          simpa using hMerged
        have hStop :
            spanStop line (next :: others) =
              min next.column (width line) :=
          rfl
        rcases Nat.lt_or_ge column (width line) with
          hInside | hBeyond
        · have hLonger :
              column < spanStop line (next :: others) := by
            omega
          have hSame :
              ∀ other < spanStop line (next :: others),
                column ≤ other →
                  kindFrom span.kind (next :: others) other =
                    span.kind :=
            fun other hOther _ => hBefore other (by omega)
          rcases Nat.lt_or_ge next.column
              (width line) with hLess | hLast
          · rw [Nat.min_eq_left hLess.le] at hStop
            refine mem_stretches_cons hParts hLonger hSame
              (.inr ?_) ?_
            · rw [hStop, hAfter _ (Nat.le_refl _),
                kindFrom_of_lt hNext]
              exact hMerged
            · rw [hStop, isRun_congr hAfter]
              exact ih hOthers hNext
          · rw [Nat.min_eq_right hLast] at hStop
            exact mem_stretches_cons hParts hLonger hSame
              (.inl hStop)
              (mem_stretches_of_le _ hStop.ge)
        · exact mem_stretches_of_le _ hBeyond

/- A reader searches the runs of code of a line. -/
theorem stretches_eq_runs
    {spans : List Span}
    (hOrder : AreAscending spans)
    (hSome : spans ≠ []) :
    stretches line 0 spans =
      runs (kindAt (fromStart spans))
        (width line) := by
  rcases List.exists_cons_of_ne_nil hSome with
    ⟨first, rest, rfl⟩
  rcases List.pairwise_cons.1 hOrder with ⟨hFirst, hRest⟩
  have hKinds :
      kindAt (fromStart (first :: rest)) =
        kindFrom first.kind rest :=
    funext (kindAt_fromStart first rest)
  have hAntisymm :
      Std.Antisymm fun a b : Nat × Nat => a.1 < b.1 :=
    ⟨fun a b hLess hMore =>
      absurd hMore (Nat.lt_asymm hLess)⟩
  have hIrrefl : Std.Irrefl fun a b : Nat × Nat => a.1 < b.1 :=
    ⟨fun a => Nat.lt_irrefl a.1⟩
  refine (pairwise_stretches _ _).2.eq_of_mem_iff
    (pairwise_runs _ _) fun run => ?_
  rw [mem_runs, hKinds]
  exact mem_stretches hRest fun next hNext =>
    (Nat.zero_le _).trans_lt (hFirst next hNext)

end LineReader

end Bracketry

------------------------------------------------------------
-- Matches in ASCII
------------------------------------------------------------

namespace Bracketry

namespace Text

/- Each character takes one byte. -/
def IsAscii
    (text : List Char) :
    Prop :=
  ∀ c ∈ text, c.toNat < 128

instance (text : List Char) : Decidable (IsAscii text) :=
  List.decidableBAll (fun c : Char => c.toNat < 128) text

variable {text : List Char}

theorem IsAscii.byteSize_eq
    (h : IsAscii text) :
    byteSize text = text.length := by
  induction text with
  | nil => rfl
  | cons c rest ih =>
      rw [IsAscii, List.forall_mem_cons] at h
      rw [byteSize, ih h.2, utf8Size_eq_one.2 h.1,
        List.length_cons, Nat.add_comm]

theorem IsAscii.byteSize_take
    {count : Nat}
    (h : IsAscii text)
    (hCount : count ≤ text.length) :
    byteSize (text.take count) = count := by
  have hTaken : IsAscii (text.take count) :=
    fun c hChar => h c (List.mem_of_mem_take hChar)
  rw [hTaken.byteSize_eq, List.length_take,
    Nat.min_eq_left hCount]

/- Lower case folds each character by itself. -/
theorem IsAscii.lowercase_eq
    (h : IsAscii text) :
    lowercase text = text.map foldChar := by
  have hFrom :
      ∀ passed,
        lowercaseFrom passed text = text.map foldChar := by
    induction text with
    | nil => exact fun _ => rfl
    | cons c rest ih =>
        rw [IsAscii, List.forall_mem_cons] at h
        intro passed
        rw [lowercaseFrom_of_ascii passed rest h.1, ih h.2,
          List.map_cons]
  exact hFrom []

end Text

theorem foldChar_foldChar
    {c : Char}
    (h : c.toNat < 128) :
    foldChar (foldChar c) = foldChar c := by
  by_cases hUpper : isAsciiUpper c.toNat = true
  · have hBoth : 65 ≤ c.toNat ∧ c.toNat ≤ 90 := by
      simpa [isAsciiUpper] using hUpper
    have hLower :
        (Char.ofNat (c.toNat + 32)).toNat = c.toNat + 32 := by
      unfold Char.ofNat
      rw [dif_pos (.inl (by omega))]
      rfl
    have hFold : foldChar c = Char.ofNat (c.toNat + 32) := by
      rw [foldChar, if_pos h, if_pos hUpper]
    rw [hFold, foldChar, hLower, if_pos (by omega), if_neg]
    simp only [isAsciiUpper, Bool.and_eq_true,
      decide_eq_true_eq]
    omega
  · have hFold : foldChar c = c := by
      rw [foldChar, if_pos h, if_neg hUpper]
    rw [hFold, hFold]

namespace BracketDeclaration

/- All declared literals are ASCII. -/
def IsAscii
    (declaration : BracketDeclaration) :
    Prop :=
  ∀ pair ∈ declaration.declared,
    Text.IsAscii pair.opener ∧ Text.IsAscii pair.closer

instance
    (declaration : BracketDeclaration) :
    Decidable declaration.IsAscii :=
  inferInstanceAs (Decidable (∀ _ ∈ _, _ ∧ _))

end BracketDeclaration

namespace TokenTable

/- The keys are ASCII in lower case, as wide as the tokens. -/
def IsAscii
    (table : TokenTable) :
    Prop :=
  ∀ entry ∈ table.entries,
    entry.key.map foldChar = entry.key ∧
      entry.token.length.columns = entry.key.length

variable {table : TokenTable} {before : Option Char}

theorem isAscii_ofDeclaration
    {declaration : BracketDeclaration}
    (h : declaration.IsAscii) :
    (ofDeclaration declaration).IsAscii := by
  intro entry hEntry
  rcases exists_literal hEntry with
    ⟨pair, hPair, literal, hLiteral, hKey, hLength, _⟩
  have hAscii : Text.IsAscii literal := by
    rcases hLiteral with rfl | rfl
    · exact (h pair hPair).1
    · exact (h pair hPair).2
  rw [hKey, hAscii.lowercase_eq]
  refine ⟨?_, ?_⟩
  · rw [List.map_map]
    exact List.map_congr_left fun c hChar =>
      foldChar_foldChar (hAscii c hChar)
  · rw [TokenEntry.token, Token.length, hLength,
      literalLength, hAscii.byteSize_eq, List.length_map]

/- What folds as a literal is the token of one. -/
theorem IsAscii.isSome_tokenOfMatch?
    {found literal : List Char}
    (hTable : table.IsAscii)
    (hFound : Text.IsAscii found)
    (hLiteral : literal ∈ table.literals)
    (hFold : found.map foldChar = literal.map foldChar) :
    (table.tokenOfMatch? found).isSome = true := by
  rcases List.mem_map.1 hLiteral with ⟨entry, hEntry, rfl⟩
  rw [(hTable entry hEntry).1] at hFold
  have hKnown :
      ∃ other ∈ table.entries,
        table.token? found = some other.token ∧
          other.key.length = found.length := by
    unfold token? entry?
    cases hExact :
        table.entries.find? fun entry =>
          entry.key == found with
    | some other =>
        have hKey := List.find?_some hExact
        exact ⟨other, List.mem_of_find?_eq_some hExact, rfl,
          congrArg List.length (beq_iff_eq.1 hKey)⟩
    | none =>
        rw [hFound.lowercase_eq, hFold]
        cases hLower :
            table.entries.find? fun other =>
              other.key == entry.key with
        | none =>
            have hNone :=
              List.find?_eq_none.1 hLower entry hEntry
            exact absurd (beq_self_eq_true entry.key) hNone
        | some other =>
            have hKey := List.find?_some hLower
            refine ⟨other, List.mem_of_find?_eq_some hLower,
              rfl, ?_⟩
            rw [beq_iff_eq.1 hKey, ← hFold, List.length_map]
  rcases hKnown with ⟨other, hOther, hToken, hSize⟩
  rw [tokenOfMatch?, hToken]
  simp only
  rw [(hTable other hOther).2, hSize, hFound.byteSize_eq,
    if_pos rfl]
  rfl

/- In ASCII, each match is a token. -/
theorem IsAscii.isSome_of_mem_matchesFrom
    {text : List Char}
    (hTable : table.IsAscii)
    (hText : Text.IsAscii text)
    (before : Option Char)
    (column skip : Nat) :
    ∀ found ∈ table.matchesFrom before column skip text,
      found.2.isSome = true := by
  induction text generalizing before column skip with
  | nil => exact List.forall_mem_nil _
  | cons c rest ih =>
      have hRest : Text.IsAscii rest :=
        fun d hChar => hText d (List.mem_cons_of_mem _ hChar)
      rw [matchesFrom]
      split_ifs with hSkip
      · exact ih hRest _ _ _
      · split
        · exact ih hRest _ _ _
        · rename_i found behind hFirst
          rw [List.forall_mem_cons]
          refine ⟨?_, ih hRest _ _ _⟩
          rcases Pattern.exists_of_firstAt? hFirst with
            ⟨hSplit, literal, hLiteral, hFold⟩
          refine hTable.isSome_tokenOfMatch? ?_ hLiteral hFold
          intro d hChar
          apply hText
          rw [hSplit]
          exact List.mem_append_left _ hChar

end TokenTable

end Bracketry

------------------------------------------------------------
-- What a Reader Finds in Runs
------------------------------------------------------------

namespace Bracketry

namespace TokenTable

/-
  The matches of a run of an ASCII line.  The search begins
  behind what is in front of the run, and ends with it.
-/
def matchesIn
    (table : TokenTable)
    (line : List Char)
    (run : Nat × Nat) :
    List (Nat × Option Token) :=
  table.matchesFrom (line.take run.1).getLast? run.1 0
    ((line.take run.2).drop run.1)

/- In ASCII, each match of a run is a token. -/
theorem IsAscii.isSome_of_mem_matchesIn
    {table : TokenTable}
    {line : List Char}
    (hTable : table.IsAscii)
    (hLine : Text.IsAscii line)
    (run : Nat × Nat) :
    ∀ found ∈ table.matchesIn line run,
      found.2.isSome = true := by
  refine hTable.isSome_of_mem_matchesFrom ?_ _ _ _
  exact fun c hChar => hLine c
    (List.mem_of_mem_take (List.mem_of_mem_drop hChar))

/- The tokens of the runs of code of a line. -/
def codeOn
    (table : TokenTable)
    (kind : Nat → SpanKind)
    (number : Nat)
    (line : List Char) :
    List Placed :=
  (Span.runs kind (Text.byteSize line)).flatMap fun run =>
    placed number (table.matchesIn line run)

end TokenTable

namespace LineReader

variable {table : TokenTable}

/- What stands behind the searched columns does not count. -/
theorem marksBetween_append
    (table : TokenTable)
    (searched beyond : List Char)
    (start : Nat) :
    marksBetween table (searched ++ beyond) start
        (Text.byteSize searched) =
      marksBetween table searched start
        (Text.byteSize searched) := by
  have hFind :
      ∀ start,
        findBracket? table (searched ++ beyond) start
            (Text.byteSize searched) =
          findBracket? table searched start
            (Text.byteSize searched) := by
    intro start
    have hAll := Text.splitAt?_append searched []
    rw [List.append_nil] at hAll
    rw [findBracket?, findBracket?, hAll,
      Text.splitAt?_append]
    rfl
  fun_induction marksBetween table (searched ++ beyond) start
    (Text.byteSize searched) with
  | case1 start hNone =>
      rw [marksBetween_of_none ((hFind start).symm.trans hNone)]
  | case2 start skipped token hFound hLess ih =>
      have hSame := (hFind start).symm.trans hFound
      conv => rhs; rw [marksBetween, hSame]
      simp only
      rw [if_pos hLess, ih]
  | case3 start skipped token hFound hLess =>
      have hSame := (hFind start).symm.trans hFound
      rw [marksBetween, hSame]
      simp only
      rw [if_neg hLess]

/- The marks of a run of an ASCII line are its matches. -/
theorem marksBetween_run
    {line : List Char}
    {run : Nat × Nat}
    (number : Nat)
    (hSolid : table.IsSolid)
    (hTable : table.IsAscii)
    (hLine : Text.IsAscii line)
    (hRun : run.1 ≤ run.2)
    (hWidth : run.2 ≤ line.length) :
    (marksBetween table line run.1 run.2).map
        (fun mark => Placed.mk ⟨number, mark.1⟩ mark.2) =
      TokenTable.placed number (table.matchesIn line run) := by
  have hStart := hLine.byteSize_take (hRun.trans hWidth)
  have hStop := hLine.byteSize_take hWidth
  have hSearched :
      line.take run.1 ++ (line.take run.2).drop run.1 =
        line.take run.2 := by
    have hFirst :
        (line.take run.2).take run.1 = line.take run.1 := by
      rw [List.take_take, Nat.min_eq_left hRun]
    rw [← hFirst, List.take_append_drop]
  have hAppend :=
    marksBetween_append table (line.take run.2)
      (line.drop run.2) run.1
  rw [List.take_append_drop, hStop] at hAppend
  have hMatches :=
    marksBetween_matches hSolid number (line.take run.1)
      ((line.take run.2).drop run.1)
  rw [hSearched, hStart, hStop] at hMatches
  rw [hAppend, hMatches, TokenTable.matchesIn]
  congr 1
  exact List.takeWhile_eq_self_iff.2
    (hTable.isSome_of_mem_matchesIn hLine run)

end LineReader

namespace LineSource

variable {source : LineSource}

/- A line has the matches of its runs of code. -/
theorem marked_eq_codeOn
    {text : List Char}
    {line : Line}
    {number : Nat}
    (hOf : source.IsOf text)
    (hSolid : source.table.IsSolid)
    (hTable : source.table.IsAscii)
    (hText : Text.IsAscii line.text)
    (hOrder : source.spans.IsAscending)
    (hLine : source.content.lines[number]? = some line) :
    source.marked ⟨number, 0⟩ =
      source.table.codeOn
        (Span.kindAt
          (Span.fromStart (source.spans.onLine number)))
        number line.text := by
  have hSpans :
      Span.AreAscending (source.spans.onLine number) :=
    SpanTable.onLine_induction (List.pairwise_singleton _ _)
      hOrder number
  have hHere : source.content.line number = line.text :=
    Content.line_of_getElem? hLine
  have hWhole :
      LineReader.width line.text = Text.byteSize line.text := by
    rw [← hHere]
    exact hOf.columnCount_eq number
  rw [marked, marksAt, LineReader.marksOn_eq_flatMap,
    LineReader.stretches_eq_runs hSpans
      (LineReader.onLine_ne_nil _ _),
    List.map_flatMap, TokenTable.codeOn, hHere, hWhole]
  refine List.flatMap_congr fun run hRun => ?_
  rcases Span.mem_runs.1 hRun with ⟨⟨_, hLess, hWidth⟩, _⟩
  rw [hText.byteSize_eq] at hWidth
  exact LineReader.marksBetween_run number hSolid hTable
    hText hLess.le hWidth

end LineSource

namespace LineReader

variable {source : LineSource}

/- A reader that knows its line delivers all brackets. -/
theorem Delivers.brackets_eq
    {reader : LineReader}
    {tokens : List Token}
    (hFollows : reader.Follows source)
    (hKnows : reader.Knows source)
    (h : reader.Delivers source tokens) :
    Placed.brackets (Placed.row reader.place tokens) =
      source.bracketsFrom reader.place := by
  induction tokens generalizing reader with
  | nil =>
      rw [h.1, LineSource.bracketsFrom_length]
      rfl
  | cons token rest ih =>
      rcases h with ⟨after, hRead, hPasses, hRest⟩
      have hMarks := hPasses.isMarked_or_isSilent hKnows
      have hLater :=
        ih hPasses.follows (hPasses.knows hKnows) hRest
      rw [hPasses.place] at hLater
      rw [Placed.row, Placed.brackets, List.filter_cons]
      by_cases hBracket : token.isBracket = true
      · rw [if_pos hBracket] at hMarks
        rw [if_pos hBracket,
          LineSource.bracketsFrom_of_isMarked hMarks.1
            hMarks.2, ← hLater]
        rfl
      · rw [if_neg hBracket] at hMarks
        rw [if_neg hBracket,
          LineSource.bracketsFrom_of_isSilent
            hPasses.follows.hasPlace.1 hMarks,
          hPasses.place, ← hLater]
        rfl

end LineReader

namespace TokenStream

/-
  In an ASCII document whose spans ascend on each line, the
  brackets on a line are the matches in the runs of code of
  its columns, each match a token.  The columns in front of
  the first span of a line count as its columns; so the kinds
  are those of the spans where the first one begins the line.
-/
theorem brackets_eq_runs
    {declaration : BracketDeclaration}
    {document : Document}
    {spans : SpanTable}
    (hLiterals : declaration.IsAscii)
    (hText : Text.IsAscii document.text)
    (hReadable : Line.AreReadable document.lines)
    (hOrder : spans.IsAscending) :
    let table := TokenTable.ofDeclaration declaration
    ∃ tokens last,
      (ofLines ⟨.ofDocument document, spans, table⟩).readAll =
          .ok (tokens, last) ∧
        Token.total tokens = Length.ofText document.text ∧
        (∀ line ∈ document.lines, ∀ run,
          ∀ found ∈ table.matchesIn line.text run,
            found.2.isSome = true) ∧
        Placed.brackets (Placed.row 0 tokens) =
          Line.gather
            (fun number line =>
              table.codeOn
                (Span.kindAt
                  (Span.fromStart (spans.onLine number)))
                number line)
            0 document.lines ∧
        (spans.StartsLines →
          Placed.brackets (Placed.row 0 tokens) =
            Line.gather
              (fun number line =>
                table.codeOn
                  (Span.kindAt (spans.onLine number)) number
                  line)
              0 document.lines) := by
  intro table
  have hSolid := TokenTable.isSolid_ofDeclaration declaration
  have hTable := TokenTable.isAscii_ofDeclaration hLiterals
  have hOf :
      LineSource.IsOf ⟨.ofDocument document, spans, table⟩
        document.text :=
    ⟨rfl, hReadable⟩
  rcases (exists_readAll hSolid).resolve_right
      (fun hFull => hFull.2 hOf.hasRoom) with
    ⟨tokens, last, hTokens, hRead, _⟩
  have hLines :
      ∀ line ∈ document.lines, Text.IsAscii line.text := by
    intro line hLine c hChar
    refine hText c ?_
    rw [← Line.join_split document.text]
    exact List.mem_flatMap.2
      ⟨line, hLine, List.mem_append_left _ hChar⟩
  have hBrackets :
      Placed.brackets (Placed.row 0 tokens) =
        Line.gather
          (fun number line =>
            table.codeOn
              (Span.kindAt
                (Span.fromStart (spans.onLine number)))
              number line)
          0 document.lines := by
    have hSorted : spans.IsSorted :=
      fun line hLine => (hOrder line hLine).areSorted
    have hAll :=
      hTokens.brackets_eq (LineReader.follows_start _)
        (LineReader.knows_ofPosition hSorted 0)
    refine hAll.trans
      (LineSource.brackets_eq_gather hOf ?_)
    intro number line hLine
    exact LineSource.marked_eq_codeOn hOf hSolid hTable
      (hLines line (List.mem_of_getElem? hLine)) hOrder hLine
  refine ⟨tokens, last, hRead, ?_, ?_, hBrackets, ?_⟩
  · rw [← LineSource.length_eq hOf,
      ← hTokens.place_add_total]
    exact (zero_add _).symm
  · exact fun line hLine =>
      hTable.isSome_of_mem_matchesIn (hLines line hLine)
  · intro hStarts
    rw [hBrackets]
    congr 1
    funext number
    rw [Span.fromStart_eq
      (SpanTable.onLine_induction (by rintro _ ⟨⟩; rfl)
        hStarts number)]

/- Brackets in a string, between brackets in code. -/
theorem brackets_eq_runs_string :
    let declaration : BracketDeclaration :=
      ⟨[⟨['('], [')']⟩], none⟩
    let document :=
      Document.ofText ['(', '(', ')', ')']
    let spans : SpanTable :=
      ⟨[[⟨0, .other⟩, ⟨1, .string⟩, ⟨3, .other⟩]]⟩
    let table := TokenTable.ofDeclaration declaration
    declaration.IsAscii ∧ Text.IsAscii document.text ∧
      Line.AreReadable document.lines ∧
      spans.IsAscending ∧ spans.StartsLines ∧
      ∃ tokens last,
        (ofLines
            ⟨.ofDocument document, spans, table⟩).readAll =
            .ok (tokens, last) ∧
          (Placed.brackets (Placed.row 0 tokens)).map
              Placed.start =
            [⟨0, 0⟩, ⟨0, 3⟩] := by
  intro declaration document spans table
  have hLiterals : declaration.IsAscii := by decide
  have hText : Text.IsAscii document.text := by decide
  have hReadable : Line.AreReadable document.lines := by
    decide
  have hOrder : spans.IsAscending := by decide
  have hStarts : spans.StartsLines := by decide
  rcases brackets_eq_runs hLiterals hText hReadable hOrder with
    ⟨tokens, last, hRead, _, _, _, hBrackets⟩
  refine ⟨hLiterals, hText, hReadable, hOrder, hStarts,
    tokens, last, hRead, ?_⟩
  rw [hBrackets hStarts]
  decide +kernel

end TokenStream

end Bracketry
