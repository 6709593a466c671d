import Bracketry.Index.Basic
import Bracketry.Proofs.Turns

/-
  Lines that are classified anew, as edits.

  Merged spans of lines are in order and apart, and cover
  all lines that the given spans cover.  As edits, they turn
  a text into one that differs from it in the covered lines
  only.

  Key definitions include:
    * `LineSpan.Cover`
    * `LineSpan.AreApart`, `LineSpan.AreSeparate`
    * `AgreesBut`

  Main declarations:
    * `LineSpan.areSeparate_merge`, `LineSpan.areApart_merge`
    * `LineSpan.cover_merge`
    * `Turns.ofLines`
-/

------------------------------------------------------------
-- Merged Spans
------------------------------------------------------------

namespace Bracketry

namespace LineSpan

/- One of the spans has the line. -/
def Cover
    (spans : List LineSpan)
    (line : Nat) :
    Prop :=
  ∃ span ∈ spans, span.first ≤ line ∧ line ≤ span.last

theorem cover_cons
    {span : LineSpan}
    {rest : List LineSpan}
    {line : Nat} :
    Cover (span :: rest) line ↔
      (span.first ≤ line ∧ line ≤ span.last) ∨
        Cover rest line := by
  simp [Cover]

/- Spans with lines, each behind the one before it. -/
def AreApart
    (low : Nat) :
    List LineSpan → Prop
  | [] => True
  | span :: rest =>
      low ≤ span.first ∧ span.first ≤ span.last ∧
        AreApart (span.last + 1) rest

theorem mem_enter
    {span other : LineSpan}
    {spans : List LineSpan} :
    other ∈ enter span spans ↔
      other = span ∨ other ∈ spans := by
  induction spans with
  | nil => simp [enter]
  | cons first rest ih =>
      unfold enter
      split_ifs
      · rw [List.mem_cons]
      · rw [List.mem_cons, ih, List.mem_cons, or_left_comm]

/- Spans that begin in ascending order. -/
def AreSorted
    (spans : List LineSpan) :
    Prop :=
  spans.Pairwise fun a b => a.first ≤ b.first

theorem areSorted_enter
    {span : LineSpan}
    {spans : List LineSpan}
    (h : AreSorted spans) :
    AreSorted (enter span spans) := by
  induction spans with
  | nil => exact List.pairwise_singleton _ _
  | cons first rest ih =>
      rcases List.pairwise_cons.1 h with ⟨hFirst, hRest⟩
      unfold enter
      split_ifs with hBefore
      · have hLe : span.first ≤ first.first := by
          simp only [isBefore, Bool.or_eq_true,
            Bool.and_eq_true, decide_eq_true_eq] at hBefore
          omega
        refine List.pairwise_cons.2 ⟨?_, h⟩
        intro other hOther
        rcases List.mem_cons.1 hOther with rfl | hMem
        · exact hLe
        · exact Nat.le_trans hLe (hFirst other hMem)
      · have hLe : first.first ≤ span.first := by
          simp only [isBefore, Bool.or_eq_true,
            Bool.and_eq_true, decide_eq_true_eq] at hBefore
          omega
        refine List.pairwise_cons.2 ⟨?_, ih hRest⟩
        intro other hOther
        rcases mem_enter.1 hOther with rfl | hMem
        · exact hLe
        · exact hFirst other hMem

/- The spans with lines, sorted. -/
def sorted
    (spans : List LineSpan) :
    List LineSpan :=
  (spans.filter isProper).foldr enter []

theorem mem_sorted
    {span : LineSpan}
    {spans : List LineSpan} :
    span ∈ sorted spans ↔
      span ∈ spans ∧ span.first ≤ span.last := by
  have hFold :
      ∀ others : List LineSpan,
        span ∈ others.foldr enter [] ↔ span ∈ others := by
    intro others
    induction others with
    | nil => rfl
    | cons first rest ih =>
        rw [List.foldr_cons, mem_enter, ih, List.mem_cons]
  rw [sorted, hFold, List.mem_filter]
  simp [isProper]

theorem areSorted_sorted
    (spans : List LineSpan) :
    AreSorted (sorted spans) := by
  unfold sorted
  induction spans.filter isProper with
  | nil => exact .nil
  | cons first rest ih => exact areSorted_enter ih

/- Joined spans have all the lines. -/
theorem cover_joinFrom
    {current : LineSpan}
    {rest : List LineSpan}
    {line : Nat}
    (hSorted : AreSorted (current :: rest))
    (h : Cover (current :: rest) line) :
    Cover (joinFrom current rest) line := by
  induction rest generalizing current with
  | nil => exact h
  | cons span others ih =>
      rcases List.pairwise_cons.1 hSorted with ⟨hFirst, hRest⟩
      rcases List.pairwise_cons.1 hRest with ⟨hSpan, hOthers⟩
      rw [List.forall_mem_cons] at hFirst
      rw [cover_cons, cover_cons] at h
      unfold joinFrom
      split_ifs with hTouch
      · refine ih (List.pairwise_cons.2 ⟨hFirst.2, hOthers⟩)
          ?_
        rw [cover_cons]
        rcases h with hHere | hNext | hLater
        · exact .inl ⟨hHere.1,
            Nat.le_trans hHere.2 (Nat.le_max_left _ _)⟩
        · exact .inl ⟨Nat.le_trans hFirst.1 hNext.1,
            Nat.le_trans hNext.2 (Nat.le_max_right _ _)⟩
        · exact .inr hLater
      · rw [cover_cons]
        exact h.imp id fun hOther =>
          ih hRest (cover_cons.2 hOther)

/- What joining two spans keeps holds of the joined spans. -/
theorem forall_mem_joinFrom
    {Good : LineSpan → Prop}
    {current : LineSpan}
    {rest : List LineSpan}
    (hJoin :
      ∀ a b, Good a → Good b →
        Good ⟨a.first, max a.last b.last⟩)
    (h : ∀ span ∈ current :: rest, Good span) :
    ∀ span ∈ joinFrom current rest, Good span := by
  induction rest generalizing current with
  | nil => exact h
  | cons span others ih =>
      rw [List.forall_mem_cons, List.forall_mem_cons] at h
      unfold joinFrom
      split_ifs
      · apply ih
        rw [List.forall_mem_cons]
        exact ⟨hJoin current span h.1 h.2.1, h.2.2⟩
      · rw [List.forall_mem_cons]
        exact ⟨h.1, ih (List.forall_mem_cons.2 h.2)⟩

/- There is a line between any two of the spans. -/
def AreSeparate
    (spans : List LineSpan) :
    Prop :=
  spans.Pairwise fun a b => after a.last < b.first

/- Joined spans do not touch. -/
theorem areSeparate_joinFrom
    {current : LineSpan}
    {rest : List LineSpan}
    (hSorted : AreSorted (current :: rest)) :
    AreSeparate (joinFrom current rest) := by
  induction rest generalizing current with
  | nil => exact List.pairwise_singleton _ _
  | cons span others ih =>
      rcases List.pairwise_cons.1 hSorted with ⟨hFirst, hRest⟩
      rcases List.pairwise_cons.1 hRest with ⟨hSpan, hOthers⟩
      unfold joinFrom
      split_ifs with hTouch
      · rw [List.forall_mem_cons] at hFirst
        exact ih (List.pairwise_cons.2 ⟨hFirst.2, hOthers⟩)
      · refine List.pairwise_cons.2 ⟨?_, ih hRest⟩
        -- joining keeps where the first of the spans begins
        have hBehind :
            ∀ other ∈ joinFrom span others,
              span.first ≤ other.first :=
          forall_mem_joinFrom (fun _ _ hBegin _ => hBegin)
            (List.forall_mem_cons.2 ⟨Nat.le_refl _, hSpan⟩)
        exact fun other hOther =>
          Nat.lt_of_lt_of_le (Nat.lt_of_not_le hTouch)
            (hBehind other hOther)

theorem merge_eq
    (spans : List LineSpan) :
    merge spans =
      match sorted spans with
      | [] => []
      | span :: rest => joinFrom span rest :=
  rfl

variable {spans : List LineSpan}

/- What joining two spans keeps holds of merged spans. -/
theorem forall_mem_merge
    {Good : LineSpan → Prop}
    (hJoin :
      ∀ a b, Good a → Good b →
        Good ⟨a.first, max a.last b.last⟩)
    (h : ∀ span ∈ spans, span.first ≤ span.last → Good span) :
    ∀ span ∈ merge spans, Good span := by
  have hSorted : ∀ span ∈ sorted spans, Good span := by
    intro span hSpan
    rcases mem_sorted.1 hSpan with ⟨hMem, hProper⟩
    exact h span hMem hProper
  rw [merge_eq]
  cases hCase : sorted spans with
  | nil => simp
  | cons first rest =>
      rw [hCase] at hSorted
      exact forall_mem_joinFrom hJoin hSorted

/- Merging keeps a bound of the lines. -/
theorem last_le_merge
    {bound : Nat}
    (h : ∀ span ∈ spans, span.last ≤ bound) :
    ∀ span ∈ merge spans, span.last ≤ bound :=
  forall_mem_merge
    (fun _ _ hFirst hOther => Nat.max_le.2 ⟨hFirst, hOther⟩)
    fun span hSpan _ => h span hSpan

/- Merged spans have lines. -/
theorem isProper_merge :
    ∀ span ∈ merge spans, span.first ≤ span.last :=
  forall_mem_merge
    (fun _ _ hFirst _ =>
      Nat.le_trans hFirst (Nat.le_max_left _ _))
    fun _ _ hProper => hProper

theorem areSeparate_merge
    (spans : List LineSpan) :
    AreSeparate (merge spans) := by
  have hSorted := areSorted_sorted spans
  rw [merge_eq]
  cases hCase : sorted spans with
  | nil => exact .nil
  | cons span rest =>
      rw [hCase] at hSorted
      exact areSeparate_joinFrom hSorted

/- Separate spans below the last line number are apart. -/
theorem AreSeparate.areApart
    {low : Nat}
    (h : AreSeparate spans)
    (hLow : ∀ span ∈ spans, low ≤ span.first)
    (hLines :
      ∀ span ∈ spans,
        span.first ≤ span.last ∧ span.last < maxCount) :
    AreApart low spans := by
  induction spans generalizing low with
  | nil => trivial
  | cons span rest ih =>
      rcases List.pairwise_cons.1 h with ⟨hGap, hRest⟩
      rw [List.forall_mem_cons] at hLow hLines
      refine ⟨hLow.1, hLines.1.1,
        ih hRest (fun other hOther => ?_) hLines.2⟩
      have hNext := hGap other hOther
      rw [after, Nat.min_eq_left hLines.1.2] at hNext
      exact Nat.le_of_lt hNext

/- Merged spans are in order and apart. -/
theorem areApart_merge
    (bound : Nat)
    (hBound : ∀ span ∈ spans, span.last ≤ bound)
    (hSmall : bound < maxCount) :
    AreApart 0 (merge spans) ∧
      ∀ span ∈ merge spans, span.last ≤ bound := by
  have hLast := last_le_merge hBound
  refine ⟨(areSeparate_merge spans).areApart
    (fun _ _ => Nat.zero_le _) fun span hSpan => ?_, hLast⟩
  exact ⟨isProper_merge span hSpan,
    Nat.lt_of_le_of_lt (hLast span hSpan) hSmall⟩

/-
  Whatever lines are given, the edit of each merged span
  ends behind its start, within 32 bits.
-/
theorem first_le_after_of_merge
    (h : ∀ span ∈ spans, span.last ≤ maxCount) :
    ∀ span ∈ merge spans,
      span.first ≤ after span.last ∧
        after span.last ≤ maxCount := by
  intro span hSpan
  have hProper := isProper_merge span hSpan
  have hCount := last_le_merge h span hSpan
  unfold after
  omega

/- Merged spans have all the lines of the given ones. -/
theorem cover_merge
    {line : Nat}
    (h : Cover spans line) :
    Cover (merge spans) line := by
  have hSorted : Cover (sorted spans) line := by
    rcases h with ⟨span, hSpan, hFirst, hLast⟩
    exact ⟨span,
      mem_sorted.2 ⟨hSpan, Nat.le_trans hFirst hLast⟩,
      hFirst, hLast⟩
  rw [merge_eq]
  cases hCase : sorted spans with
  | nil =>
      rw [hCase] at hSorted
      exact hSorted
  | cons span rest =>
      have hOrder := areSorted_sorted spans
      rw [hCase] at hSorted hOrder
      exact cover_joinFrom hOrder hSorted

end LineSpan

end Bracketry

------------------------------------------------------------
-- Texts that Differ in Lines
------------------------------------------------------------

namespace Bracketry

open Measured

/- Every piece is a line break or lies on one line. -/
def IsLined
    (α : Type)
    [Measured α] :
    Prop :=
  ∀ piece : α,
    (size piece).lines = 0 ∨ size piece = ⟨1, 0⟩

variable {α β : Type} [Measured α] [Measured β]

/-
  The pieces of two texts are equally long, and related but
  for the covered lines.  The texts begin on a given line.
-/
def AgreesBut
    (rel : α → β → Prop)
    (covered : Nat → Prop) :
    Nat → List α → List β → Prop
  | _, [], [] => True
  | line, a :: old, b :: new =>
      size a = size b ∧ (covered line ∨ rel a b) ∧
        AgreesBut rel covered (line + (size a).lines) old new
  | _, _, _ => False

theorem AgreesBut.refl
    {covered : Nat → Prop}
    (line : Nat)
    (text : List α) :
    AgreesBut Eq covered line text text := by
  induction text generalizing line with
  | nil => trivial
  | cons piece rest ih => exact ⟨rfl, .inr rfl, ih _⟩

/- Texts that agree go on as others that agree. -/
theorem AgreesBut.append
    {rel : α → β → Prop}
    {covered : Nat → Prop}
    {line : Nat}
    {first last : List α}
    {same more : List β}
    (hFirst : AgreesBut rel covered line first same)
    (hLast :
      AgreesBut rel covered (line + (extent first).lines) last
        more) :
    AgreesBut rel covered line (first ++ last)
      (same ++ more) := by
  induction first generalizing line same with
  | nil =>
      cases same with
      | nil => exact hLast
      | cons b rest => exact hFirst.elim
  | cons a others ih =>
      cases same with
      | nil => exact hFirst.elim
      | cons b rest =>
          rcases hFirst with ⟨hSize, hRel, hRest⟩
          refine ⟨hSize, hRel, ih hRest ?_⟩
          rwa [extent_cons, Length.add_lines, ← Nat.add_assoc]
            at hLast

theorem AgreesBut.extent_eq
    {rel : α → β → Prop}
    {covered : Nat → Prop}
    {line : Nat}
    {old : List α}
    {new : List β}
    (h : AgreesBut rel covered line old new) :
    extent old = extent new := by
  induction old generalizing line new with
  | nil =>
      cases new with
      | nil => rfl
      | cons b rest => exact h.elim
  | cons a others ih =>
      cases new with
      | nil => exact h.elim
      | cons b rest =>
          rw [extent_cons, extent_cons, h.1, ih h.2.2]

theorem AgreesBut.exists_append
    {rel : α → β → Prop}
    {covered : Nat → Prop}
    {line : Nat}
    {first last : List α}
    {new : List β}
    (h : AgreesBut rel covered line (first ++ last) new) :
    ∃ same more,
      new = same ++ more ∧
        AgreesBut rel covered line first same ∧
        AgreesBut rel covered (line + (extent first).lines)
          last more := by
  induction first generalizing line new with
  | nil => exact ⟨[], new, rfl, trivial, h⟩
  | cons a others ih =>
      cases new with
      | nil => exact h.elim
      | cons b rest =>
          rcases h with ⟨hSize, hRel, hRest⟩
          rcases ih hRest with ⟨same, more, rfl, hSame, hMore⟩
          refine ⟨b :: same, more, rfl,
            ⟨hSize, hRel, hSame⟩, ?_⟩
          rwa [extent_cons, Length.add_lines, ← Nat.add_assoc]

/- Where no line is covered, all pieces are related. -/
theorem AgreesBut.forall₂
    {rel : α → β → Prop}
    {covered : Nat → Prop}
    {line : Nat}
    {old : List α}
    {new : List β}
    (hNone : ∀ other, line ≤ other → ¬covered other)
    (h : AgreesBut rel covered line old new) :
    List.Forall₂ rel old new := by
  induction old generalizing line new with
  | nil =>
      cases new with
      | nil => exact .nil
      | cons b rest => exact h.elim
  | cons a others ih =>
      cases new with
      | nil => exact h.elim
      | cons b rest =>
          rcases h with ⟨_, hRel, hRest⟩
          refine .cons (hRel.resolve_left (hNone line
            (Nat.le_refl _))) (ih ?_ hRest)
          intro other hOther
          exact hNone other (by omega)

/- Only what is covered from the first line on counts. -/
theorem AgreesBut.mono
    {rel : α → β → Prop}
    {covered others : Nat → Prop}
    {line : Nat}
    {old : List α}
    {new : List β}
    (hCovered :
      ∀ other, line ≤ other → covered other → others other)
    (h : AgreesBut rel covered line old new) :
    AgreesBut rel others line old new := by
  induction old generalizing line new with
  | nil =>
      cases new with
      | nil => trivial
      | cons b rest => exact h.elim
  | cons a more ih =>
      cases new with
      | nil => exact h.elim
      | cons b rest =>
          rcases h with ⟨hSize, hRel, hRest⟩
          refine ⟨hSize,
            hRel.imp_left (hCovered line (Nat.le_refl _)),
            ih ?_ hRest⟩
          intro other hOther
          exact hCovered other (by omega)

/- Whole lines that are not covered are related. -/
theorem AgreesBut.forall₂_of_lines
    {rel : α → β → Prop}
    {covered : Nat → Prop}
    {line : Nat}
    {old : List α}
    {new : List β}
    (hColumns : (extent old).columns = 0)
    (hNone :
      ∀ other, line ≤ other →
        other < line + (extent old).lines → ¬covered other)
    (h : AgreesBut rel covered line old new) :
    List.Forall₂ rel old new := by
  induction old generalizing line new with
  | nil =>
      cases new with
      | nil => exact .nil
      | cons b rest => exact h.elim
  | cons a others ih =>
      cases new with
      | nil => exact h.elim
      | cons b rest =>
          rcases h with ⟨_, hRel, hRest⟩
          rw [extent_cons, Length.add_columns] at hColumns
          rw [extent_cons, Length.add_lines] at hNone
          have hSize := size_ne_zero a
          have hPos :
              0 < (size a).lines + (extent others).lines := by
            by_contra hFlat
            rw [if_pos (by omega)] at hColumns
            exact hSize (Length.ext (by
              rw [Length.zero_lines]
              omega) (by
              rw [Length.zero_columns]
              omega))
          have hHere :=
            hNone line (Nat.le_refl _) (by omega)
          refine .cons (hRel.resolve_left hHere)
            (ih ?_ ?_ hRest)
          · split_ifs at hColumns <;> omega
          · intro other hLow hHigh
            exact hNone other (by omega) (by omega)

/- A text can be cut in front of each of its lines. -/
theorem exists_lines
    (hLined : IsLined α)
    {text : List α}
    {count : Nat}
    (h : count ≤ (extent text).lines) :
    ∃ first last,
      text = first ++ last ∧ extent first = ⟨count, 0⟩ := by
  induction text generalizing count with
  | nil =>
      rw [extent_nil, Length.zero_lines, Nat.le_zero] at h
      exact ⟨[], [], rfl, by rw [h]; rfl⟩
  | cons piece rest ih =>
      rw [extent_cons, Length.add_lines] at h
      cases count with
      | zero => exact ⟨[], piece :: rest, rfl, rfl⟩
      | succ below =>
          rcases hLined piece with hFlat | hBreak
          · rcases @ih (below + 1) (by omega) with
              ⟨first, last, rfl, hFirst⟩
            refine ⟨piece :: first, last, rfl, ?_⟩
            rw [extent_cons, hFirst, Length.add_def,
              if_neg (Nat.succ_ne_zero _), hFlat,
              Nat.zero_add]
          · have hOne : (size piece).lines = 1 := by
              rw [hBreak]
            rcases @ih below (by omega) with
              ⟨first, last, rfl, hFirst⟩
            refine ⟨piece :: first, last, rfl, ?_⟩
            rw [extent_cons, hFirst, hBreak,
              Length.break_add]

/- Lines behind lines. -/
theorem Length.lines_add
    (a b : Nat) :
    (⟨a, 0⟩ : Length) + ⟨b, 0⟩ = ⟨a + b, 0⟩ := by
  simp only [Length.add_def, Nat.add_zero]
  split_ifs with hZero
  · rw [hZero, Nat.add_zero]
  · rfl

theorem LineSpan.AreApart.le_of_cover
    {spans : List LineSpan}
    {low line : Nat}
    (hApart : AreApart low spans)
    (h : Cover spans line) :
    low ≤ line := by
  induction spans generalizing low with
  | nil => simp [Cover] at h
  | cons span rest ih =>
      rcases hApart with ⟨hLow, hProper, hRest⟩
      rcases cover_cons.1 h with hHere | hLater
      · exact Nat.le_trans hLow hHere.1
      · have hLine := ih hRest hLater
        omega

/-
  Spans that are apart turn a text into one that agrees with
  it in all other lines.  The induction is on the spans; each
  keeps the lines before it.
-/
theorem Turns.ofLines
    {rel : α → β → Prop}
    {spans : List LineSpan}
    {low : Nat}
    {old : List α}
    {new : List β}
    (hLined : IsLined α)
    (hApart : LineSpan.AreApart low spans)
    (hBound :
      ∀ span ∈ spans, span.last < low + (extent old).lines)
    (hSmall : low + (extent old).lines ≤ maxCount)
    (h : AgreesBut rel (LineSpan.Cover spans) low old new) :
    Turns rel ⟨low, 0⟩ (spans.map LineSpan.toEdit) old
      new := by
  induction spans generalizing low old new with
  | nil =>
      refine .kept (h.forall₂ ?_)
      simp [LineSpan.Cover]
  | cons span rest ih =>
      rcases hApart with ⟨hLow, hProper, hRest⟩
      rw [List.forall_mem_cons] at hBound
      rcases exists_lines hLined
          (by omega : span.first - low ≤ (extent old).lines) with
        ⟨gap, others, rfl, hGap⟩
      simp only [extent_append, hGap, Length.add_lines]
        at hBound hSmall
      rcases exists_lines hLined
          (by omega : span.last + 1 - span.first ≤
            (extent others).lines) with
        ⟨cut, behind, rfl, hCut⟩
      simp only [extent_append, hCut, Length.add_lines]
        at hBound hSmall
      rcases h.exists_append with
        ⟨same, more, rfl, hSame, hMore⟩
      rcases hMore.exists_append with
        ⟨added, new, rfl, hAdded, hNew⟩
      have hAfter :
          LineSpan.after span.last = span.last + 1 := by
        rw [LineSpan.after]
        omega
      have hLine :
          low + (extent gap).lines + (extent cut).lines =
            span.last + 1 := by
        rw [hGap, hCut]
        simp only
        omega
      rw [hLine] at hNew
      simp only [List.map_cons, LineSpan.toEdit, hAfter]
      refine .edit
        (hSame.forall₂_of_lines (by rw [hGap]) ?_) ?_ ?_ ?_
        (ih hRest ?_ ?_ (hNew.mono ?_))
      · intro other hOther hLess hCover
        simp only [hGap] at hLess
        rcases LineSpan.cover_cons.1 hCover with
          hHere | hLater
        · omega
        · have hLine := hRest.le_of_cover hLater
          omega
      · rw [hGap, Length.lines_add]
        exact Length.ext (by simp only; omega) rfl
      · rw [hCut, Length.lines_add]
        exact Length.ext (by simp only; omega) rfl
      · rw [← hAdded.extent_eq, hCut]
      · intro other hOther
        have hLess := hBound.2 other hOther
        omega
      · omega
      · intro other hOther hCover
        rcases LineSpan.cover_cons.1 hCover with
          hHere | hLater
        · omega
        · exact hLater

end Bracketry
