import Bracketry.Proofs.Turns

/-
  The composition of two batches does what they do.

  If one batch turns an old text into a middle one, and
  another the middle text into a new one, then the composed
  batch turns the old text into the new one.  A piece that
  it keeps was kept by both.

  Main declarations:
    * `Makes.chain`
    * `Turns.compose`
-/

------------------------------------------------------------
-- Runs that Are Kept
------------------------------------------------------------

namespace Bracketry

open Measured

variable {α β γ : Type}
variable [Measured α] [Measured β] [Measured γ]

/-
  Where the second batch copies, the edits of the first are
  those of both.
-/
theorem Covers.kept
    {first : α → β → Prop}
    {second : β → γ → Prop}
    {runs : List Run}
    {offset : Position}
    {u : List α}
    {x : List β}
    {z : List γ}
    (hSecond : SameSize second)
    (h : Covers first runs u x)
    (hCopied : List.Forall₂ second x z)
    (hFits : FitsFrom offset u) :
    ∃ edits,
      Edit.kept offset runs =
          .ok (edits, offset + extent u) ∧
        ∀ others old new,
          Turns (Via first second) (offset + extent u)
              others old new →
            Turns (Via first second) offset
              (edits ++ others) (u ++ old) (z ++ new) := by
  induction h generalizing offset z with
  | nil =>
      cases hCopied
      refine ⟨[], by simp [Edit.kept], ?_⟩
      intro others old new hTurns
      simpa using hTurns
  | @cons run runs a b u x hBefore hAfter hSame hRest ih =>
      rcases exists_of_append_forall₂ hCopied with
        ⟨c, w, rfl, hFirst, hLast⟩
      rcases ih hLast hFits.right with ⟨edits, hKept, hTurns⟩
      have hStop : (offset + run.before).Fits := by
        rw [hBefore]
        exact hFits.right.start
      have hSize := extent_eq_of_forall₂ hSecond hFirst
      rw [Edit.kept, Length.plus_eq_ok hStop]
      simp only [bind, Except.bind, hBefore, hKept,
        extent_append, ← add_assoc]
      by_cases hChanged : run.changed = true
      · rw [if_pos hChanged]
        refine ⟨_, rfl, ?_⟩
        intro others old new hOthers
        rw [List.append_assoc, List.append_assoc]
        exact .editHere rfl rfl (hAfter.trans hSize)
          (hTurns others old new hOthers)
      · rw [if_neg hChanged]
        refine ⟨edits, rfl, ?_⟩
        intro others old new hOthers
        rw [List.append_assoc, List.append_assoc]
        exact (hTurns others old new hOthers).keep
          (forall₂_via
            (hSame (Bool.eq_false_iff.2 hChanged)) hFirst)

end Bracketry

------------------------------------------------------------
-- The Chain of Two Batches
------------------------------------------------------------

namespace Bracketry

open Measured

variable {α β γ : Type}
variable [Measured α] [Measured β] [Measured γ]

theorem Covers.total_before
    {rel : α → β → Prop}
    {runs : List Run}
    {offset : Position}
    {u : List α}
    {x : List β}
    (h : Covers rel runs u x)
    (hFits : FitsFrom offset u) :
    Length.total (runs.map Run.before) = .ok (extent u) := by
  have hSum :
      ∀ {runs u x}, Covers rel runs u x →
        (runs.map Run.before).sum = extent u := by
    intro runs u x h
    induction h with
    | nil => rfl
    | cons hBefore _ _ _ ih =>
        rw [List.map_cons, List.sum_cons, ih, hBefore,
          extent_append]
  rw [← hSum h]
  apply Length.total_eq_ok
  intro before behind hSplit
  rcases List.map_eq_append_iff.1 hSplit with
    ⟨first, last, rfl, rfl, rfl⟩
  clear hSplit
  have hParts :
      ∀ {first last u x}, Covers rel (first ++ last) u x →
        ∃ a b c d,
          u = a ++ b ∧ x = c ++ d ∧ Covers rel first a c := by
    intro first
    induction first with
    | nil => exact fun {last u x} _ =>
        ⟨[], u, [], x, rfl, rfl, .nil⟩
    | cons run rest ih =>
        intro last u x h
        cases h with
        | cons hBefore hAfter hCopied hRest =>
            rcases ih hRest with ⟨a, b, c, d, rfl, rfl, hFirst⟩
            exact ⟨_, b, _, d,
              (List.append_assoc _ _ _).symm,
              (List.append_assoc _ _ _).symm,
              .cons hBefore hAfter hCopied hFirst⟩
  rcases hParts h with ⟨a, b, c, d, rfl, _, hFirst⟩
  rw [hSum hFirst]
  exact Length.fits_of_add (hFits a b rfl)

/- The chain of the runs of two batches does what both do. -/
theorem Makes.chain
    {first : α → β → Prop}
    {second : β → γ → Prop}
    {runs others : List Run}
    {offset : Position}
    {old : List α}
    {middle : List β}
    {new : List γ}
    (hFirst : SameSize first)
    (hSecond : SameSize second)
    (hMiddle : Makes first runs old middle)
    (hNew : Makes second others middle new)
    (hFits : FitsFrom offset old) :
    ∃ edits,
      Edit.chain runs offset others = .ok edits ∧
        ((∃ run ∈ others, run.changed = true) →
          edits ≠ []) ∧
        Turns (Via first second) offset edits old new := by
  induction hNew generalizing runs offset old with
  | kept hKept =>
      rcases hMiddle.exists_covers with
        ⟨u, v, x, y, rfl, rfl, hCovers, hTail⟩
      rcases exists_of_append_forall₂ hKept with
        ⟨z, w, rfl, hLeft, hRight⟩
      rcases hCovers.kept hSecond hLeft hFits.left with
        ⟨edits, hEdits, hTurns⟩
      refine ⟨edits, ?_, by simp, ?_⟩
      · rw [Edit.chain, hEdits]
        rfl
      · have hAll := hTurns [] v w
          (.kept (forall₂_via hTail hRight))
        rwa [List.append_nil] at hAll
  | @run run others b c middle new hBefore hAfter hSame _
      ih =>
      rcases hMiddle.take hFirst with
        ⟨u, v, rfl, hCovers, hRest⟩
      rw [← hBefore] at hCovers hRest
      rcases ih hRest hFits.right with
        ⟨edits, hEdits, hSome, hTurns⟩
      rw [Edit.chain]
      by_cases hChanged : run.changed = true
      · have hStop := hFits.right.start
        have hWidth := hCovers.total_before hFits.left
        simp only [if_pos hChanged, hWidth, bind,
          Except.bind, Length.plus_eq_ok hStop, hEdits]
        exact ⟨_, rfl, by simp,
          .editHere rfl rfl hAfter hTurns⟩
      · rcases hCovers.kept hSecond
            (hSame (Bool.eq_false_iff.2 hChanged))
            hFits.left with
          ⟨kept, hKept, hKeptTurns⟩
        simp only [if_neg hChanged, hKept, bind, Except.bind,
          hEdits]
        refine ⟨_, rfl, ?_, hKeptTurns _ _ _ hTurns⟩
        rintro ⟨other, hOther, hOtherChanged⟩ hNone
        rw [List.append_eq_nil_iff] at hNone
        rcases List.mem_cons.1 hOther with rfl | hMore
        · exact hChanged hOtherChanged
        · exact hSome ⟨other, hMore, hOtherChanged⟩ hNone.2

end Bracketry

------------------------------------------------------------
-- Joined Edits
------------------------------------------------------------

namespace Bracketry

open Measured

variable {α β γ : Type}
variable [Measured α] [Measured β] [Measured γ]

/- Edits that touch do the same when they are joined. -/
theorem Turns.joinFrom
    {rel : α → β → Prop}
    {low start : Position}
    {current : Edit}
    {edits : List Edit}
    {old : List α}
    {new : List β}
    (hFits : FitsFrom start new)
    (h : Turns rel low (current :: edits) old new) :
    ∃ joined,
      Edit.joinFrom current edits = .ok joined ∧
        joined ≠ [] ∧ Turns rel low joined old new := by
  induction edits generalizing current low start old new with
  | nil => exact ⟨[current], rfl, by simp, h⟩
  | cons edit rest ih =>
      cases h with
      | @edit _ _ _ gap same cut added old new hGap hStart
          hStop hInserted hRest =>
          have hInner := hFits.right.right
          by_cases hTouch : current.stop = edit.start
          · cases hRest with
            | @edit _ _ _ none nothing more further old new
                hNone hStartMore hStopMore hInsertedMore
                hRestMore =>
                rw [hTouch, eq_comm, Length.add_eq_left,
                  extent_eq_zero] at hStartMore
                subst hStartMore
                cases hNone
                have hBoth :
                    (current.inserted +
                      edit.inserted).Fits := by
                  have hPlace := hInner.right.right.start
                  rw [extent_nil, add_zero, add_assoc]
                    at hPlace
                  rw [hInserted, hInsertedMore]
                  exact Length.fits_of_add hPlace
                rw [Edit.joinFrom, if_pos hTouch,
                  Length.plus_eq_ok hBoth]
                have hJoined :
                    Turns rel low
                      (⟨current.start, edit.stop,
                        current.inserted + edit.inserted⟩ ::
                          rest)
                      (gap ++ ((cut ++ more) ++ old))
                      (same ++
                        ((added ++ further) ++ new)) := by
                  refine .edit hGap hStart ?_ ?_ hRestMore
                  · rw [hStopMore, ← hTouch, hStop,
                      extent_append, add_assoc]
                  · rw [hInserted, hInsertedMore,
                      extent_append]
                rcases ih (by simpa using hFits) hJoined with
                  ⟨joined, hJoin, hSome, hTurns⟩
                exact ⟨joined, hJoin, hSome,
                  by simpa using hTurns⟩
          · rcases ih hInner hRest with
              ⟨joined, hJoined, hSome, hTurns⟩
            rw [Edit.joinFrom, if_neg hTouch, hJoined]
            exact ⟨_, rfl, by simp,
              .edit hGap hStart hStop hInserted hTurns⟩

end Bracketry

------------------------------------------------------------
-- Composition
------------------------------------------------------------

namespace Bracketry

open Measured

variable {α β γ : Type}
variable [Measured α] [Measured β] [Measured γ]

/- Pieces that are all kept may be seen as the old ones. -/
theorem Turns.ofKept
    {first : α → β → Prop}
    {second : β → γ → Prop}
    {low : Position}
    {edits : List Edit}
    {old : List α}
    {middle : List β}
    {new : List γ}
    (hFirst : SameSize first)
    (hKept : List.Forall₂ first old middle)
    (h : Turns second low edits middle new) :
    Turns (Via first second) low edits old new := by
  induction h generalizing old with
  | kept hSame => exact .kept (forall₂_via hKept hSame)
  | edit hGap hStart hStop hInserted _ ih =>
      rcases exists_of_forall₂_append hKept with
        ⟨gap, others, rfl, hFront, hOthers⟩
      rcases exists_of_forall₂_append hOthers with
        ⟨cut, rest, rfl, hCut, hRest⟩
      refine .edit (forall₂_via hFront hGap) ?_ ?_ hInserted
        (ih hRest)
      · rw [hStart, extent_eq_of_forall₂ hFirst hFront]
      · rw [hStop, extent_eq_of_forall₂ hFirst hCut]

/- Nor does it matter what is kept behind a batch. -/
theorem Turns.thenKept
    {first : α → β → Prop}
    {second : β → γ → Prop}
    {low : Position}
    {edits : List Edit}
    {old : List α}
    {middle : List β}
    {new : List γ}
    (hSecond : SameSize second)
    (h : Turns first low edits old middle)
    (hKept : List.Forall₂ second middle new) :
    Turns (Via first second) low edits old new := by
  induction h generalizing new with
  | kept hSame => exact .kept (forall₂_via hSame hKept)
  | edit hGap hStart hStop hInserted _ ih =>
      rcases exists_of_append_forall₂ hKept with
        ⟨gap, others, rfl, hFront, hOthers⟩
      rcases exists_of_append_forall₂ hOthers with
        ⟨added, rest, rfl, hAdded, hRest⟩
      refine .edit (forall₂_via hGap hFront) hStart hStop ?_
        (ih hRest)
      rw [hInserted, extent_eq_of_forall₂ hSecond hAdded]

/- An edit is a run that is changed. -/
theorem exists_changed_of_ofEdits
    (edit : Edit)
    (rest : List Edit) :
    ∃ run ∈ Run.ofEdits (edit :: rest),
      run.changed = true := by
  rw [Run.ofEdits, Run.ofEditsFrom]
  split_ifs
  · exact ⟨_, List.mem_cons_self, rfl⟩
  · exact ⟨_, List.mem_cons_of_mem _ List.mem_cons_self, rfl⟩

/-
  The composed batch turns the old text into the new one.
  It has no edits only if neither batch has any.
-/
theorem Turns.compose
    {first : α → β → Prop}
    {second : β → γ → Prop}
    {edits others : List Edit}
    {old : List α}
    {middle : List β}
    {new : List γ}
    (hFirst : SameSize first)
    (hSecond : SameSize second)
    (hMiddle : Turns first 0 edits old middle)
    (hNew : Turns second 0 others middle new)
    (hOldFits : FitsFrom 0 old)
    (hNewFits : FitsFrom 0 new) :
    ∃ composed,
      Edit.compose edits others = .ok composed ∧
        (composed = [] → edits = [] ∧ others = []) ∧
        Turns (Via first second) 0 composed old new := by
  unfold Edit.compose
  cases edits with
  | nil =>
      cases hMiddle with
      | kept hKept =>
          exact ⟨others, rfl, fun h => ⟨rfl, h⟩,
            hNew.ofKept hFirst hKept⟩
  | cons edit rest =>
      cases others with
      | nil =>
          cases hNew with
          | kept hKept =>
              exact ⟨edit :: rest, rfl, by simp,
                hMiddle.thenKept hSecond hKept⟩
      | cons other more =>
          rcases (makes_ofEdits hFirst hMiddle).chain hFirst
              hSecond (makes_ofEdits hSecond hNew) hOldFits with
            ⟨chained, hChain, hSome, hTurns⟩
          have hChanged :=
            hSome (exists_changed_of_ofEdits other more)
          rcases List.exists_cons_of_ne_nil hChanged with
            ⟨current, chained, rfl⟩
          rcases hTurns.joinFrom hNewFits with
            ⟨joined, hJoin, hJoinSome, hJoinTurns⟩
          refine ⟨joined, ?_, fun h => absurd h hJoinSome,
            hJoinTurns⟩
          simp only [List.isEmpty_cons, hChain, bind,
            Except.bind]
          exact hJoin

end Bracketry
