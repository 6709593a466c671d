import Bracketry.Proofs.Weaving

/-
  What runs keep.

  A stretch of the old text is kept when it lies in one run
  that is copied, or behind all runs.  What is between two
  runs is not kept, also when nothing is replaced there, so
  that an edit that changes nothing shows.

  What a weave keeps is what the first runs keep and the
  others keep after them.

  Key definitions include:
    * `Run.KeepsThen`, `Run.Keeps`

  Main declarations:
    * `Run.keepsWithin_take_iff`, `Run.keeps_add_iff`
    * `Run.keeps_weave_iff`
-/

------------------------------------------------------------
-- Kept Stretches
------------------------------------------------------------

namespace Bracketry

namespace Run

/-
  The runs keep a stretch of some width that begins at the
  place `old`, and it begins at `new` afterwards.  Behind
  them, `later` says what is kept.
-/
def KeepsThen
    (later : Position → Length → Position → Prop) :
    List Run → Position → Length → Position → Prop
  | [], old, width, new => later old width new
  | run :: rest, old, width, new =>
      (run.changed = false ∧ old = new ∧
          old + width ≤ run.before) ∨
        ∃ before after,
          old = run.before + before ∧
            new = run.after + after ∧
            KeepsThen later rest before width after

/- Runs that keep all that is behind them. -/
def Keeps
    (runs : List Run)
    (old : Position)
    (width : Length)
    (new : Position) :
    Prop :=
  KeepsThen (fun old _ new => old = new) runs old width new

/- Only what lies in one of the runs. -/
def KeepsWithin
    (runs : List Run)
    (old : Position)
    (width : Length)
    (new : Position) :
    Prop :=
  KeepsThen (fun _ _ _ => False) runs old width new

theorem keepsThen_append_iff
    {later : Position → Length → Position → Prop}
    {first last : List Run}
    {old new : Position}
    {width : Length} :
    KeepsThen later (first ++ last) old width new ↔
      KeepsThen (KeepsThen later last) first old width
        new := by
  induction first generalizing old new with
  | nil => rfl
  | cons run rest ih =>
      simp only [List.cons_append, KeepsThen, ih]

/- The new text of runs. -/
def breadth
    (runs : List Run) :
    Length :=
  (runs.map Run.after).sum

/- A stretch lies in one of the runs, or behind them. -/
theorem keepsThen_iff
    {later : Position → Length → Position → Prop}
    {runs : List Run}
    {old new : Position}
    {width : Length} :
    KeepsThen later runs old width new ↔
      KeepsWithin runs old width new ∨
        ∃ before after,
          old = Run.width runs + before ∧
            new = breadth runs + after ∧
            later before width after := by
  unfold KeepsWithin
  induction runs generalizing old new with
  | nil => simp [KeepsThen, breadth]
  | cons run rest ih =>
      simp only [KeepsThen, ih, breadth, width_cons,
        List.map_cons, List.sum_cons]
      constructor
      · rintro (hCopied | ⟨before, after, rfl, rfl,
          hWithin | ⟨before, after, rfl, rfl, hLater⟩⟩)
        · exact .inl (.inl hCopied)
        · exact .inl (.inr ⟨before, after, rfl, rfl,
            hWithin⟩)
        · exact .inr ⟨before, after, (add_assoc _ _ _).symm,
            (add_assoc _ _ _).symm, hLater⟩
      · rintro ((hCopied | ⟨before, after, rfl, rfl,
          hWithin⟩) | ⟨before, after, rfl, rfl, hLater⟩)
        · exact .inl hCopied
        · exact .inr ⟨before, after, rfl, rfl, .inl hWithin⟩
        · exact .inr ⟨_, _, add_assoc _ _ _, add_assoc _ _ _,
            .inr ⟨before, after, rfl, rfl, hLater⟩⟩

end Run

end Bracketry

------------------------------------------------------------
-- Taken Runs
------------------------------------------------------------

namespace Bracketry

namespace Run

/- A run that is copied has one length. -/
def IsSound
    (run : Run) :
    Prop :=
  run.changed = false → run.before = run.after

/-
  How runs are taken: none for no length, a stretch behind
  the last run, a whole run and more, or a part of one.
-/
theorem take_cases
    (length : Length)
    (runs : List Run) :
    (length = 0 ∧ take length runs = ([], runs)) ∨
      (length ≠ 0 ∧ runs = [] ∧
        take length runs = ([copied length], [])) ∨
      (∃ run rest more items left,
        runs = run :: rest ∧ length = run.after + more ∧
          length ≠ 0 ∧
          take more rest = (items, left) ∧
          take length runs = (run :: items, left)) ∨
      ∃ run rest more,
        runs = run :: rest ∧ run.after = length + more ∧
          more ≠ 0 ∧ length ≠ 0 ∧
          take length runs =
            if run.changed then
              ([⟨true, run.before, length⟩],
                ⟨true, 0, more⟩ :: rest)
            else ([copied length], copied more :: rest) := by
  by_cases hNone : length = 0
  · left
    subst hNone
    cases runs <;> simp [take]
  · right
    cases runs with
    | nil => simp [take, hNone]
    | cons run rest =>
        right
        by_cases hWhole : run.after ≤ length
        · left
          have hNothing : length.upTo run.after = 0 :=
            Length.upTo_eq_zero.2 hWhole
          refine ⟨run, rest, run.after.upTo length, _, _, rfl,
            (Length.add_upTo hWhole).symm, hNone, rfl, ?_⟩
          simp [take, hNone, splitAt, hNothing]
        · right
          have hMore : length.upTo run.after ≠ 0 := fun h =>
            hWhole (Length.upTo_eq_zero.1 h)
          refine ⟨run, rest, length.upTo run.after, rfl,
            (Length.add_upTo (not_le.1 hWhole).le).symm,
            hMore, hNone, ?_⟩
          simp only [take, if_neg hNone, splitAt,
            if_neg hMore]
          split_ifs <;> rfl

theorem breadth_take
    (length : Length)
    (runs : List Run) :
    breadth (take length runs).1 = length := by
  induction runs generalizing length with
  | nil =>
      rcases take_cases length [] with ⟨rfl, h⟩ | ⟨_, _, h⟩ |
        ⟨_, _, _, _, _, hNil, _⟩ | ⟨_, _, _, hNil, _⟩
      · rw [h]
        rfl
      · rw [h]
        simp [breadth, copied]
      · cases hNil
      · cases hNil
  | cons run rest ih =>
      rcases take_cases length (run :: rest) with
        ⟨rfl, h⟩ | ⟨_, hNil, _⟩ |
        ⟨_, _, more, items, left, hCons, rfl, _, hMore, h⟩ |
        ⟨_, _, more, hCons, hAfter, _, _, h⟩
      · rw [h]
        rfl
      · cases hNil
      · cases hCons
        have hItems := ih more
        rw [hMore] at hItems
        rw [h]
        simp only [breadth, List.map_cons, List.sum_cons]
        rw [← hItems]
        rfl
      · cases hCons
        rw [h]
        split_ifs <;> simp [breadth, copied]

/- A stretch with a width ends behind its place. -/
theorem not_add_le
    {width : Length}
    (hWidth : width ≠ 0)
    (length more : Length) :
    ¬ length + more + width ≤ length := by
  intro hLe
  have hLess : length < length + more + width :=
    (Length.le_add_right length more).trans_lt
      (Length.lt_add_right hWidth)
  exact absurd hLe (not_le.2 hLess)

theorem not_add_le_zero
    {width : Length}
    (hWidth : width ≠ 0)
    (place : Position) :
    ¬ place + width ≤ 0 := by
  simpa using not_add_le hWidth 0 place

/- What lies in the runs taken is what is kept so far. -/
theorem keepsWithin_take_iff
    {length width : Length}
    {runs : List Run}
    {old new : Position}
    (hSound : ∀ run ∈ runs, run.IsSound)
    (hWidth : width ≠ 0) :
    KeepsWithin (take length runs).1 old width new ↔
      Keeps runs old width new ∧ new + width ≤ length := by
  unfold KeepsWithin Keeps
  induction runs generalizing length old new with
  | nil =>
      rcases take_cases length [] with ⟨rfl, h⟩ | ⟨_, _, h⟩ |
        ⟨_, _, _, _, _, hNil, _⟩ | ⟨_, _, _, hNil, _⟩
      · rw [h]
        simp [KeepsThen, not_add_le_zero hWidth]
      · rw [h]
        simp only [KeepsThen, copied, and_false,
          exists_false, or_false, true_and]
        constructor
        · rintro ⟨rfl, hLe⟩
          exact ⟨rfl, hLe⟩
        · rintro ⟨rfl, hLe⟩
          exact ⟨rfl, hLe⟩
      · cases hNil
      · cases hNil
  | cons run rest ih =>
      rw [List.forall_mem_cons] at hSound
      rcases hSound with ⟨hRun, hRest⟩
      rcases take_cases length (run :: rest) with
        ⟨rfl, h⟩ | ⟨_, hNil, _⟩ |
        ⟨_, _, more, items, left, hCons, rfl, _, hMore, h⟩ |
        ⟨_, _, more, hCons, hAfter, hSome, _, h⟩
      · rw [h]
        simp [KeepsThen, not_add_le_zero hWidth]
      · cases hNil
      · cases hCons
        have hItems : ∀ {old new : Position},
            KeepsThen (fun _ _ _ => False) items old width
                new ↔
              KeepsThen (fun old _ new => old = new) rest
                  old width new ∧
                new + width ≤ more := by
          intro old new
          rw [← ih hRest, hMore]
        rw [h]
        constructor
        · rintro (⟨hCopied, rfl, hLe⟩ |
            ⟨before, after, rfl, rfl, hKeeps⟩)
          · refine ⟨.inl ⟨hCopied, rfl, hLe⟩, ?_⟩
            rw [hRun hCopied] at hLe
            exact hLe.trans (Length.le_add_right _ _)
          · rcases hItems.1 hKeeps with ⟨hKept, hEnd⟩
            refine ⟨.inr ⟨before, after, rfl, rfl, hKept⟩,
              ?_⟩
            rwa [add_assoc, Length.add_le_add_left_iff]
        · rintro ⟨⟨hCopied, rfl, hLe⟩ |
            ⟨before, after, rfl, rfl, hKeeps⟩, hEnd⟩
          · exact .inl ⟨hCopied, rfl, hLe⟩
          · rw [add_assoc, Length.add_le_add_left_iff] at hEnd
            exact .inr ⟨before, after, rfl, rfl,
              hItems.2 ⟨hKeeps, hEnd⟩⟩
      · cases hCons
        have hBehind : ∀ place : Position,
            ¬ run.after + place + width ≤ length := by
          intro place
          rw [hAfter, add_assoc length]
          exact not_add_le hWidth _ _
        rw [h]
        by_cases hChanged : run.changed = true
        · rw [if_pos hChanged]
          simp only [KeepsThen, hChanged]
          constructor
          · simp
          · rintro ⟨⟨hCopied, _⟩ |
              ⟨before, after, rfl, rfl, hKeeps⟩, hEnd⟩
            · cases hCopied
            · exact absurd hEnd (hBehind _)
        · rw [if_neg hChanged]
          have hCopied := Bool.eq_false_iff.2 hChanged
          simp only [KeepsThen, copied, and_false,
            exists_false, or_false, true_and, hCopied]
          constructor
          · rintro ⟨rfl, hLe⟩
            refine ⟨.inl ⟨rfl, ?_⟩, hLe⟩
            rw [hRun hCopied, hAfter]
            exact hLe.trans (Length.le_add_right _ _)
          · rintro ⟨⟨rfl, hLe⟩ |
              ⟨before, after, rfl, rfl, hKeeps⟩, hEnd⟩
            · exact ⟨rfl, hEnd⟩
            · exact absurd hEnd (hBehind _)

/- What is kept behind the runs taken. -/
theorem keeps_add_iff
    {length width : Length}
    {runs : List Run}
    {old new : Position}
    (hSound : ∀ run ∈ runs, run.IsSound)
    (hWidth : width ≠ 0) :
    Keeps runs old width (length + new) ↔
      ∃ before,
        old = Run.width (take length runs).1 + before ∧
          Keeps (take length runs).2 before width new := by
  unfold Keeps
  induction runs generalizing length old new with
  | nil =>
      rcases take_cases length [] with ⟨rfl, h⟩ | ⟨_, _, h⟩ |
        ⟨_, _, _, _, _, hNil, _⟩ | ⟨_, _, _, hNil, _⟩
      · rw [h]
        simp [KeepsThen]
      · rw [h]
        simp [KeepsThen, copied]
      · cases hNil
      · cases hNil
  | cons run rest ih =>
      rw [List.forall_mem_cons] at hSound
      rcases hSound with ⟨hRun, hRest⟩
      rcases take_cases length (run :: rest) with
        ⟨rfl, h⟩ | ⟨_, hNil, _⟩ |
        ⟨_, _, more, items, left, hCons, rfl, _, hMore, h⟩ |
        ⟨_, _, more, hCons, hAfter, hSome, _, h⟩
      · rw [h]
        simp
      · cases hNil
      · cases hCons
        have hItems : ∀ {old new : Position},
            KeepsThen (fun old _ new => old = new) rest old
                width (more + new) ↔
              ∃ before,
                old = Run.width items + before ∧
                  KeepsThen (fun old _ new => old = new) left
                    before width new := by
          intro old new
          rw [ih hRest, hMore]
        rw [h]
        simp only [KeepsThen, width_cons]
        constructor
        · rintro (⟨hCopied, rfl, hLe⟩ |
            ⟨before, after, rfl, hPlace, hKeeps⟩)
          · rw [hRun hCopied, add_assoc run.after] at hLe
            exact absurd hLe (not_add_le hWidth _ _)
          · rw [add_assoc] at hPlace
            rcases Length.add_left_cancel hPlace with rfl
            rcases hItems.1 hKeeps with ⟨behind, rfl, hLeft⟩
            exact ⟨behind, (add_assoc _ _ _).symm, hLeft⟩
        · rintro ⟨behind, rfl, hLeft⟩
          exact .inr ⟨_, _, add_assoc _ _ _,
            add_assoc _ _ _, hItems.2 ⟨behind, rfl, hLeft⟩⟩
      · cases hCons
        rw [h]
        by_cases hChanged : run.changed = true
        · rw [if_pos hChanged]
          simp only [KeepsThen, hChanged, width_cons,
            width_nil, add_zero]
          constructor
          · rintro (⟨hCopied, _⟩ |
              ⟨before, after, rfl, hPlace, hKeeps⟩)
            · cases hCopied
            · rw [hAfter, add_assoc] at hPlace
              rcases Length.add_left_cancel hPlace with rfl
              exact ⟨before, rfl, .inr ⟨before, after,
                (zero_add _).symm, rfl, hKeeps⟩⟩
          · rintro ⟨place, rfl, ⟨hCopied, _⟩ |
              ⟨before, after, rfl, rfl, hKeeps⟩⟩
            · cases hCopied
            · refine .inr ⟨before, after, ?_, ?_, hKeeps⟩
              · rw [zero_add]
              · rw [hAfter, add_assoc]
        · rw [if_neg hChanged]
          have hCopied := Bool.eq_false_iff.2 hChanged
          have hBefore := (hRun hCopied).trans hAfter
          simp only [KeepsThen, hCopied, hBefore, hAfter,
            copied, width_cons, width_nil, add_zero,
            true_and]
          constructor
          · rintro (⟨rfl, hLe⟩ |
              ⟨before, after, rfl, hPlace, hKeeps⟩)
            · rw [add_assoc, Length.add_le_add_left_iff]
                at hLe
              exact ⟨new, rfl, .inl ⟨rfl, hLe⟩⟩
            · rw [add_assoc] at hPlace
              rcases Length.add_left_cancel hPlace with rfl
              exact ⟨_, add_assoc _ _ _, .inr ⟨before, after,
                rfl, rfl, hKeeps⟩⟩
          · rintro ⟨place, rfl, ⟨rfl, hLe⟩ |
              ⟨before, after, rfl, rfl, hKeeps⟩⟩
            · refine .inl ⟨rfl, ?_⟩
              rwa [add_assoc, Length.add_le_add_left_iff]
            · exact .inr ⟨before, after, (add_assoc _ _ _).symm,
                (add_assoc _ _ _).symm, hKeeps⟩

end Run

end Bracketry

------------------------------------------------------------
-- Spaced Runs
------------------------------------------------------------

namespace Bracketry

namespace Run

/- The first run is changed. -/
def StartsChanged : List Run → Prop
  | [] => False
  | run :: _ => run.changed = true

/-
  Behind every run that is copied, which has a length, there
  is one that is changed.
-/
def IsSpaced : List Run → Prop
  | [] => True
  | run :: rest =>
      (run.changed = false →
        run.before = run.after ∧ run.after ≠ 0 ∧
          StartsChanged rest) ∧
        IsSpaced rest

theorem IsSpaced.isSound
    {runs : List Run}
    (h : IsSpaced runs) :
    ∀ run ∈ runs, run.IsSound := by
  induction runs with
  | nil => simp
  | cons run rest ih =>
      rw [List.forall_mem_cons]
      exact ⟨fun hCopied => (h.1 hCopied).1, ih h.2⟩

theorem isSpaced_ofEditsFrom
    (low : Position)
    (edits : List Edit) :
    IsSpaced (ofEditsFrom low edits) := by
  induction edits generalizing low with
  | nil => trivial
  | cons edit rest ih =>
      have hChanged :
          IsSpaced
            (⟨true, edit.start.upTo edit.stop,
              edit.inserted⟩ :: ofEditsFrom edit.stop rest) :=
        ⟨by simp, ih edit.stop⟩
      rw [ofEditsFrom]
      split_ifs with hGap
      · exact hChanged
      · exact ⟨fun _ => ⟨rfl, hGap, rfl⟩, hChanged⟩

theorem StartsChanged.take_append
    {runs more : List Run}
    (length : Length)
    (h : StartsChanged runs)
    (hMore : StartsChanged more) :
    StartsChanged ((take length runs).1 ++ more) := by
  rcases take_cases length runs with
    ⟨rfl, hTake⟩ | ⟨_, rfl, _⟩ |
    ⟨run, rest, _, _, _, rfl, _, _, _, hTake⟩ |
    ⟨run, rest, _, rfl, _, _, _, hTake⟩
  · rw [hTake]
    exact hMore
  · exact h.elim
  · rw [hTake]
    exact h
  · have hChanged : run.changed = true := h
    rw [hTake, if_pos hChanged]
    rfl

/- Parts of spaced runs are spaced. -/
theorem IsSpaced.take
    {runs : List Run}
    (length : Length)
    (h : IsSpaced runs) :
    IsSpaced (Run.take length runs).2 ∧
      ∀ more, IsSpaced more → StartsChanged more →
        IsSpaced ((Run.take length runs).1 ++ more) := by
  induction runs generalizing length with
  | nil =>
      rcases take_cases length [] with ⟨rfl, hTake⟩ |
        ⟨hSome, _, hTake⟩ | ⟨_, _, _, _, _, hNil, _⟩ |
        ⟨_, _, _, hNil, _⟩
      · rw [hTake]
        exact ⟨trivial, fun more hMore _ => hMore⟩
      · rw [hTake]
        exact ⟨trivial, fun more hMore hStart =>
          ⟨fun _ => ⟨rfl, hSome, hStart⟩, hMore⟩⟩
      · cases hNil
      · cases hNil
  | cons run rest ih =>
      rcases h with ⟨hRun, hRest⟩
      rcases take_cases length (run :: rest) with
        ⟨rfl, hTake⟩ | ⟨_, hNil, _⟩ |
        ⟨_, _, spare, items, left, hCons, rfl, _, hOver,
          hTake⟩ |
        ⟨_, _, spare, hCons, hAfter, hOver, hSome, hTake⟩
      · rw [hTake]
        exact ⟨⟨hRun, hRest⟩, fun more hMore _ => hMore⟩
      · cases hNil
      · cases hCons
        rcases ih spare hRest with ⟨hLeft, hItems⟩
        rw [hOver] at hLeft hItems
        rw [hTake]
        refine ⟨hLeft, fun more hMore hStart =>
          ⟨fun hCopied => ?_, hItems more hMore hStart⟩⟩
        rcases hRun hCopied with ⟨hSame, hLength, hChanged⟩
        have hNext := hChanged.take_append spare hStart
        rw [hOver] at hNext
        exact ⟨hSame, hLength, hNext⟩
      · cases hCons
        rw [hTake]
        by_cases hChanged : run.changed = true
        · rw [if_pos hChanged]
          exact ⟨⟨by simp, hRest⟩, fun more hMore _ =>
            ⟨by simp, hMore⟩⟩
        · rw [if_neg hChanged]
          rcases hRun (Bool.eq_false_iff.2 hChanged) with
            ⟨_, _, hNext⟩
          exact ⟨⟨fun _ => ⟨rfl, hOver, hNext⟩, hRest⟩,
            fun more hMore hStart =>
              ⟨fun _ => ⟨rfl, hSome, hStart⟩, hMore⟩⟩

end Run

end Bracketry

------------------------------------------------------------
-- Weaves
------------------------------------------------------------

namespace Bracketry

namespace Run

theorem weave_cons_changed
    {first rest : List Run}
    {run : Run}
    (hChanged : run.changed = true) :
    weave first (run :: rest) =
      ⟨true, width (take run.before first).1, run.after⟩ ::
        weave (take run.before first).2 rest := by
  simp [weave, hChanged]

theorem weave_cons_copied
    {first rest : List Run}
    {run : Run}
    (hCopied : run.changed = false) :
    weave first (run :: rest) =
      (take run.before first).1 ++
        weave (take run.before first).2 rest := by
  simp [weave, hCopied]

theorem StartsChanged.weave
    {others : List Run}
    (first : List Run)
    (h : StartsChanged others) :
    StartsChanged (Run.weave first others) := by
  cases others with
  | nil => exact h.elim
  | cons run rest =>
      rw [weave_cons_changed h]
      rfl

/- A weave begins with a change when one of its parts does. -/
theorem startsChanged_weave_iff
    {first others : List Run}
    (hOthers : IsSpaced others) :
    StartsChanged (weave first others) ↔
      StartsChanged first ∨ StartsChanged others := by
  cases others with
  | nil => simp [weave, StartsChanged]
  | cons run rest =>
      by_cases hChanged : run.changed = true
      · have hStart : StartsChanged (run :: rest) := hChanged
        exact ⟨fun _ => .inr hStart, fun _ => hStart.weave _⟩
      · have hCopied := Bool.eq_false_iff.2 hChanged
        rcases hOthers.1 hCopied with ⟨hSame, hSome, _⟩
        have hStart : ¬ StartsChanged (run :: rest) := hChanged
        rw [weave_cons_copied hCopied, or_iff_left hStart,
          hSame]
        rcases take_cases run.after first with
          ⟨hNone, _⟩ | ⟨_, rfl, hTake⟩ |
          ⟨item, _, _, _, _, rfl, _, _, _, hTake⟩ |
          ⟨item, _, _, rfl, _, _, _, hTake⟩
        · exact absurd hNone hSome
        · rw [hTake]
          simp [StartsChanged, copied]
        · rw [hTake]
          rfl
        · rw [hTake]
          split_ifs with hItem
          · simp [StartsChanged, hItem]
          · simp [StartsChanged, copied, hItem]

theorem IsSpaced.weave
    {first others : List Run}
    (hFirst : IsSpaced first)
    (hOthers : IsSpaced others) :
    IsSpaced (Run.weave first others) := by
  induction others generalizing first with
  | nil => exact hFirst
  | cons run rest ih =>
      rcases hOthers with ⟨hRun, hRest⟩
      rcases hFirst.take run.before with ⟨hLeft, hItems⟩
      by_cases hChanged : run.changed = true
      · rw [weave_cons_changed hChanged]
        exact ⟨by simp, ih hLeft hRest⟩
      · have hCopied := Bool.eq_false_iff.2 hChanged
        rw [weave_cons_copied hCopied]
        rcases hRun hCopied with ⟨_, _, hStart⟩
        exact hItems _ (ih hLeft hRest) (hStart.weave _)

/-
  A weave keeps a stretch when the first runs keep it and
  the others keep what they made of it.
-/
theorem keeps_weave_iff
    {first others : List Run}
    {old new : Position}
    {width : Length}
    (hFirst : IsSpaced first)
    (hOthers : IsSpaced others)
    (hWidth : width ≠ 0) :
    Keeps (weave first others) old width new ↔
      ∃ middle,
        Keeps first old width middle ∧
          Keeps others middle width new := by
  induction others generalizing first old new with
  | nil => simp [weave, Keeps, KeepsThen]
  | cons run rest ih =>
      rcases hOthers with ⟨hRun, hRest⟩
      have hSound := hFirst.isSound
      have hLeft := (hFirst.take run.before).1
      by_cases hChanged : run.changed = true
      · rw [weave_cons_changed hChanged]
        constructor
        · rintro (⟨hCopied, _⟩ |
            ⟨before, after, rfl, rfl, hKeeps⟩)
          · cases hCopied
          · rcases (ih hLeft hRest).1 hKeeps with
              ⟨middle, hKept, hBehind⟩
            exact ⟨run.before + middle,
              (keeps_add_iff hSound hWidth).2
                ⟨before, rfl, hKept⟩,
              .inr ⟨middle, after, rfl, rfl, hBehind⟩⟩
        · rintro ⟨place, hKept, ⟨hCopied, _⟩ |
            ⟨middle, after, rfl, rfl, hBehind⟩⟩
          · rw [hChanged] at hCopied
            cases hCopied
          · rcases (keeps_add_iff hSound hWidth).1 hKept with
              ⟨before, rfl, hMore⟩
            exact .inr ⟨before, after, rfl, rfl,
              (ih hLeft hRest).2 ⟨middle, hMore, hBehind⟩⟩
      · have hCopied := Bool.eq_false_iff.2 hChanged
        have hSame := (hRun hCopied).1
        rw [weave_cons_copied hCopied]
        unfold Keeps
        rw [keepsThen_append_iff, keepsThen_iff,
          breadth_take, keepsWithin_take_iff hSound hWidth]
        constructor
        · rintro (⟨hKept, hEnd⟩ |
            ⟨before, after, rfl, rfl, hKeeps⟩)
          · exact ⟨new, hKept, .inl ⟨hCopied, rfl, hEnd⟩⟩
          · rcases (ih hLeft hRest).1 hKeeps with
              ⟨middle, hKept, hBehind⟩
            refine ⟨run.before + middle,
              (keeps_add_iff hSound hWidth).2
                ⟨before, rfl, hKept⟩,
              .inr ⟨middle, after, rfl, ?_, hBehind⟩⟩
            rw [hSame]
        · rintro ⟨place, hKept, ⟨_, rfl, hEnd⟩ |
            ⟨middle, after, rfl, rfl, hBehind⟩⟩
          · exact .inl ⟨hKept, hEnd⟩
          · rcases (keeps_add_iff hSound hWidth).1 hKept with
              ⟨before, rfl, hMore⟩
            refine .inr ⟨before, after, rfl, ?_,
              (ih hLeft hRest).2 ⟨middle, hMore, hBehind⟩⟩
            rw [hSame]

end Run

end Bracketry
