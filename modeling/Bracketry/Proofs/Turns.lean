import Bracketry.Edit.Compose
import Bracketry.Proofs.Lengths
import Mathlib.Data.List.Forall2

/-
  Batches that turn one text into another.

  A text is a list of pieces that have a length.  A batch
  turns an old text into a new one when the pieces between
  its edits are kept: each of them is related to the piece
  at the same place of the other text.  What the relation
  is depends on what is known of the pieces.

  Key definitions include:
    * `Measured`, `Measured.extent`
    * `Turns`
    * `Covers`, `Makes`

  Main declarations:
    * `Measured.eq_of_extent_eq`
    * `makes_ofEdits`
    * `Makes.take`
-/

------------------------------------------------------------
-- Measured Pieces
------------------------------------------------------------

namespace Bracketry

/- Pieces of text, none of them without a length. -/
class Measured (α : Type) where
  size : α → Length
  size_ne_zero : ∀ piece, size piece ≠ 0

namespace Measured

variable {α β : Type} [Measured α] [Measured β]

/- The length of pieces together. -/
def extent
    (pieces : List α) :
    Length :=
  (pieces.map size).sum

@[simp] theorem extent_nil :
    extent ([] : List α) = 0 :=
  rfl

@[simp] theorem extent_cons
    (piece : α)
    (rest : List α) :
    extent (piece :: rest) = size piece + extent rest := by
  simp [extent]

@[simp] theorem extent_append
    (a b : List α) :
    extent (a ++ b) = extent a + extent b := by
  simp [extent]

/- Pieces that are one line break each are as many lines. -/
theorem lines_replicate
    {piece : α}
    (count : Nat)
    (h : (size piece).lines = 1) :
    (extent (List.replicate count piece)).lines = count := by
  induction count with
  | zero => rfl
  | succ count ih =>
      rw [List.replicate_succ, extent_cons, Length.add_lines,
        ih, h]
      exact Nat.add_comm 1 count

theorem extent_eq_zero
    {pieces : List α} :
    extent pieces = 0 ↔ pieces = [] := by
  constructor
  · intro h
    cases pieces with
    | nil => rfl
    | cons piece rest =>
        rw [extent_cons] at h
        have hLe := Length.le_add_right (size piece)
          (extent rest)
        rw [h, Length.le_zero] at hLe
        exact absurd hLe (size_ne_zero piece)
  · rintro rfl
    rfl

/-
  Of two first parts of one text, the one that is not
  longer is a first part of the other.
-/
theorem exists_of_extent_le
    {a b c d : List α}
    (hSame : a ++ b = c ++ d)
    (hLe : extent a ≤ extent c) :
    ∃ more, c = a ++ more ∧ b = more ++ d := by
  rcases List.append_eq_append_iff.1 hSame with
    ⟨more, rfl, rfl⟩ | ⟨more, rfl, rfl⟩
  · exact ⟨more, rfl, rfl⟩
  · rw [extent_append] at hLe
    have hZero : extent more = 0 := by
      rw [← Length.le_zero,
        ← Length.add_le_add_left_iff (a := extent c)]
      rwa [add_zero]
    rcases extent_eq_zero.1 hZero with rfl
    exact ⟨[], by simp, by simp⟩

/- First parts of one text that are equally long are one. -/
theorem eq_of_extent_eq
    {a b c d : List α}
    (hSame : a ++ b = c ++ d)
    (hExtent : extent a = extent c) :
    a = c ∧ b = d := by
  rcases exists_of_extent_le hSame hExtent.le with
    ⟨more, rfl, rfl⟩
  rw [extent_append] at hExtent
  rcases extent_eq_zero.1
      (Length.add_eq_left.1 hExtent.symm) with
    rfl
  simp

/- Related pieces are equally long. -/
def SameSize
    (rel : α → β → Prop) :
    Prop :=
  ∀ a b, rel a b → size a = size b

theorem extent_eq_of_forall₂
    {rel : α → β → Prop}
    {a : List α}
    {b : List β}
    (hSize : SameSize rel)
    (h : List.Forall₂ rel a b) :
    extent a = extent b := by
  induction h with
  | nil => rfl
  | cons hHead _ ih =>
      rw [extent_cons, extent_cons, hSize _ _ hHead, ih]

/- All places of a text fit when seen from a start. -/
def FitsFrom
    (start : Position)
    (text : List α) :
    Prop :=
  ∀ before behind,
    text = before ++ behind →
      (start + extent before).Fits

theorem FitsFrom.left
    {start : Position}
    {a b : List α}
    (h : FitsFrom start (a ++ b)) :
    FitsFrom start a := by
  rintro before behind rfl
  exact h before (behind ++ b) (List.append_assoc _ _ _)

theorem FitsFrom.right
    {start : Position}
    {a b : List α}
    (h : FitsFrom start (a ++ b)) :
    FitsFrom (start + extent a) b := by
  rintro before behind rfl
  rw [add_assoc, ← extent_append]
  exact h (a ++ before) behind (List.append_assoc _ _ _).symm

theorem FitsFrom.start
    {start : Position}
    {text : List α}
    (h : FitsFrom start text) :
    start.Fits := by
  have hNil := h [] text rfl
  rwa [extent_nil, add_zero] at hNil

/- All places of a text take up half of 32 bits at most. -/
def IsSmall
    (text : List α) :
    Prop :=
  ∀ before behind,
    text = before ++ behind →
      (extent before).lines < 2 ^ 31 ∧
        (extent before).columns < 2 ^ 31

/- So does any stretch between two places. -/
theorem IsSmall.part
    {before middle behind : List α}
    (h : IsSmall (before ++ (middle ++ behind))) :
    (extent middle).lines < 2 ^ 31 ∧
      (extent middle).columns < 2 ^ 31 := by
  have hPlace := h (before ++ middle) behind
    (List.append_assoc _ _ _).symm
  rw [extent_append, Length.add_lines, Length.add_columns]
    at hPlace
  split_ifs at hPlace <;> omega

/- A sum of two such lengths fits. -/
theorem fits_add
    {a b : Length}
    (ha : a.lines < 2 ^ 31 ∧ a.columns < 2 ^ 31)
    (hb : b.lines < 2 ^ 31 ∧ b.columns < 2 ^ 31) :
    (a + b).Fits := by
  unfold Length.Fits countLimit
  rw [Length.add_lines, Length.add_columns]
  split_ifs <;> omega

theorem IsSmall.fitsFrom
    {text : List α}
    (h : IsSmall text) :
    FitsFrom 0 text := by
  intro before behind hSplit
  have hPlace := h before behind hSplit
  rw [zero_add]
  unfold Length.Fits countLimit
  omega

end Measured

end Bracketry

------------------------------------------------------------
-- Kept Pieces
------------------------------------------------------------

namespace Bracketry

open Measured

variable {α β γ : Type}

/- The parts of what is related to two parts. -/
theorem exists_of_forall₂_append
    {rel : α → β → Prop}
    {a : List α}
    {b c : List β}
    (h : List.Forall₂ rel a (b ++ c)) :
    ∃ first last,
      a = first ++ last ∧ List.Forall₂ rel first b ∧
        List.Forall₂ rel last c :=
  ⟨_, _, (List.take_append_drop b.length a).symm,
    List.forall₂_take_append a b c h,
    List.forall₂_drop_append a b c h⟩

theorem exists_of_append_forall₂
    {rel : α → β → Prop}
    {a b : List α}
    {c : List β}
    (h : List.Forall₂ rel (a ++ b) c) :
    ∃ first last,
      c = first ++ last ∧ List.Forall₂ rel a first ∧
        List.Forall₂ rel b last := by
  rcases exists_of_forall₂_append h.flip with
    ⟨first, last, rfl, hFirst, hLast⟩
  exact ⟨first, last, rfl, hFirst.flip, hLast.flip⟩

/- One relation after the other. -/
def Via
    (first : α → β → Prop)
    (second : β → γ → Prop)
    (a : α)
    (c : γ) :
    Prop :=
  ∃ b, first a b ∧ second b c

theorem forall₂_via
    {first : α → β → Prop}
    {second : β → γ → Prop}
    {a : List α}
    {b : List β}
    {c : List γ}
    (hFirst : List.Forall₂ first a b)
    (hSecond : List.Forall₂ second b c) :
    List.Forall₂ (Via first second) a c := by
  induction hFirst generalizing c with
  | nil =>
      cases hSecond
      exact .nil
  | cons hHead _ ih =>
      cases hSecond with
      | cons hNext hRest =>
          exact .cons ⟨_, hHead, hNext⟩ (ih hRest)

theorem sameSize_eq
    [Measured α] :
    SameSize (Eq : α → α → Prop) := by
  rintro a _ rfl
  rfl

theorem via_eq :
    Via (Eq : α → α → Prop) Eq = Eq := by
  funext a b
  simp [Via]

end Bracketry

------------------------------------------------------------
-- Texts and Batches
------------------------------------------------------------

namespace Bracketry

open Measured

variable {α β : Type} [Measured α] [Measured β]

/-
  The edits turn the old text into the new one, where both
  are what follows the place `low` of the old text.
-/
inductive Turns
    (rel : α → β → Prop) :
    Position → List Edit → List α → List β → Prop where
  | kept {low old new}
      (hKept : List.Forall₂ rel old new) :
      Turns rel low [] old new
  | edit {low} {edit : Edit}
      {edits gap same cut added old new}
      (hGap : List.Forall₂ rel gap same)
      (hStart : edit.start = low + extent gap)
      (hStop : edit.stop = edit.start + extent cut)
      (hInserted : edit.inserted = extent added)
      (hRest : Turns rel edit.stop edits old new) :
      Turns rel low (edit :: edits)
        (gap ++ (cut ++ old)) (same ++ (added ++ new))

/- An edit right at the place where the texts begin. -/
theorem Turns.editHere
    {rel : α → β → Prop}
    {low : Position}
    {edit : Edit}
    {edits : List Edit}
    {cut old : List α}
    {added new : List β}
    (hStart : edit.start = low)
    (hStop : edit.stop = low + extent cut)
    (hInserted : edit.inserted = extent added)
    (hRest : Turns rel edit.stop edits old new) :
    Turns rel low (edit :: edits) (cut ++ old)
      (added ++ new) := by
  have hEdit :
      Turns rel low (edit :: edits) ([] ++ (cut ++ old))
        ([] ++ (added ++ new)) := by
    refine .edit .nil ?_ ?_ hInserted hRest
    · rw [hStart, extent_nil, add_zero]
    · rw [hStop, hStart]
  exact hEdit

/- More that is kept, in front. -/
theorem Turns.keep
    {rel : α → β → Prop}
    {low : Position}
    {edits : List Edit}
    {first old : List α}
    {same new : List β}
    (hFirst : List.Forall₂ rel first same)
    (h : Turns rel (low + extent first) edits old new) :
    Turns rel low edits (first ++ old) (same ++ new) := by
  cases h with
  | kept hKept => exact .kept (List.rel_append hFirst hKept)
  | edit hGap hStart hStop hInserted hRest =>
      rw [← List.append_assoc first, ← List.append_assoc same]
      refine .edit (List.rel_append hFirst hGap) ?_ hStop
        hInserted hRest
      rw [hStart, extent_append, add_assoc]

/-
  The runs make the new text of the old one, exactly or with
  the pieces behind them kept.
-/
inductive Covers
    (rel : α → β → Prop) :
    List Run → List α → List β → Prop where
  | nil : Covers rel [] [] []
  | cons {run : Run} {runs a b old new}
      (hBefore : run.before = extent a)
      (hAfter : run.after = extent b)
      (hCopied : run.changed = false → List.Forall₂ rel a b)
      (hRest : Covers rel runs old new) :
      Covers rel (run :: runs) (a ++ old) (b ++ new)

inductive Makes
    (rel : α → β → Prop) :
    List Run → List α → List β → Prop where
  | kept {old new}
      (hKept : List.Forall₂ rel old new) :
      Makes rel [] old new
  | run {run : Run} {runs a b old new}
      (hBefore : run.before = extent a)
      (hAfter : run.after = extent b)
      (hCopied : run.changed = false → List.Forall₂ rel a b)
      (hRest : Makes rel runs old new) :
      Makes rel (run :: runs) (a ++ old) (b ++ new)

/- What runs make ends in pieces that are kept. -/
theorem Makes.exists_covers
    {rel : α → β → Prop}
    {runs : List Run}
    {old : List α}
    {new : List β}
    (h : Makes rel runs old new) :
    ∃ a b c d,
      old = a ++ b ∧ new = c ++ d ∧ Covers rel runs a c ∧
        List.Forall₂ rel b d := by
  induction h with
  | kept hKept => exact ⟨[], _, [], _, rfl, rfl, .nil, hKept⟩
  | run hBefore hAfter hCopied _ ih =>
      rcases ih with ⟨a, b, c, d, rfl, rfl, hCovers, hKept⟩
      exact ⟨_, b, _, d, (List.append_assoc _ _ _).symm,
        (List.append_assoc _ _ _).symm,
        .cons hBefore hAfter hCopied hCovers, hKept⟩

/- The runs of a batch make what the batch turns into. -/
theorem makes_ofEditsFrom
    {rel : α → β → Prop}
    {low : Position}
    {edits : List Edit}
    {old : List α}
    {new : List β}
    (hSize : SameSize rel)
    (h : Turns rel low edits old new) :
    Makes rel (Run.ofEditsFrom low edits) old new := by
  induction h with
  | kept hKept => exact .kept hKept
  | @edit low edit edits gap same cut added old new hGap
      hStart hStop hInserted _ ih =>
      have hLength := extent_eq_of_forall₂ hSize hGap
      have hUpTo : low.upTo edit.start = extent gap := by
        rw [hStart, Length.upTo_add]
      have hChanged :
          Makes rel
            (⟨true, edit.start.upTo edit.stop,
              edit.inserted⟩ ::
                Run.ofEditsFrom edit.stop edits)
            (cut ++ old) (added ++ new) := by
        refine .run ?_ hInserted (by simp) ih
        rw [hStop, Length.upTo_add]
      rw [Run.ofEditsFrom, hUpTo]
      by_cases hNone : extent gap = 0
      · rcases extent_eq_zero.1 hNone with rfl
        cases hGap
        simpa [hNone] using hChanged
      · simp only [if_neg hNone]
        exact .run rfl hLength (fun _ => hGap) hChanged

theorem makes_ofEdits
    {rel : α → β → Prop}
    {edits : List Edit}
    {old : List α}
    {new : List β}
    (hSize : SameSize rel)
    (h : Turns rel 0 edits old new) :
    Makes rel (Run.ofEdits edits) old new :=
  makes_ofEditsFrom hSize h

end Bracketry

------------------------------------------------------------
-- Taking Runs
------------------------------------------------------------

namespace Bracketry

open Measured

variable {α β : Type} [Measured α] [Measured β]

theorem splitAt_of_le
    {run : Run}
    {length : Length}
    (h : run.after ≤ length) :
    run.splitAt length = (run, none) := by
  simp [Run.splitAt, Length.upTo_eq_zero.2 h]

theorem splitAt_add
    {run : Run}
    {length more : Length}
    (hAfter : run.after = length + more)
    (hMore : more ≠ 0) :
    run.splitAt length =
      if run.changed then
        (⟨true, run.before, length⟩, some ⟨true, 0, more⟩)
      else
        (Run.copied length, some (Run.copied more)) := by
  rw [Run.splitAt, hAfter, Length.upTo_add]
  simp only [if_neg hMore]

/-
  The runs that make up a length of the new text are those
  that make its first part; the others make the rest.
-/
theorem Makes.take
    {rel : α → β → Prop}
    {runs : List Run}
    {old : List α}
    {x y : List β}
    (hSize : SameSize rel)
    (h : Makes rel runs old (x ++ y)) :
    ∃ u v,
      old = u ++ v ∧
        Covers rel (Run.take (extent x) runs).1 u x ∧
        Makes rel (Run.take (extent x) runs).2 v y := by
  induction runs generalizing old x with
  | nil =>
      cases h with
      | kept hKept =>
          rcases exists_of_forall₂_append hKept with
            ⟨u, v, rfl, hFirst, hLast⟩
          refine ⟨u, v, rfl, ?_, ?_⟩
          · by_cases hNone : extent x = 0
            · rcases extent_eq_zero.1 hNone with rfl
              cases hFirst
              simpa [Run.take] using Covers.nil
            · simp only [Run.take, if_neg hNone]
              have hLength :=
                extent_eq_of_forall₂ hSize hFirst
              have hOne :
                  Covers rel [Run.copied (extent x)]
                    (u ++ []) (x ++ []) :=
                .cons hLength.symm rfl (fun _ => hFirst) .nil
              simpa using hOne
          · by_cases hNone : extent x = 0
            · simpa [Run.take, hNone] using Makes.kept hLast
            · simpa [Run.take, hNone] using Makes.kept hLast
  | cons run runs ih =>
      by_cases hNone : extent x = 0
      · rcases extent_eq_zero.1 hNone with rfl
        refine ⟨[], old, rfl, ?_, ?_⟩
        · simpa [Run.take] using Covers.nil
        · simpa [Run.take] using h
      · generalize hNew : x ++ y = whole at h
        cases h with
        | @run _ _ a b rest new hBefore hAfter hCopied hRest =>
            simp only [Run.take, if_neg hNone]
            by_cases hEnds : extent b ≤ extent x
            · rcases exists_of_extent_le hNew.symm hEnds with
                ⟨more, rfl, rfl⟩
              rw [← hAfter] at hEnds
              rcases ih hRest with ⟨u, v, rfl, hFirst, hLast⟩
              rw [splitAt_of_le hEnds]
              simp only
              rw [hAfter, extent_append, Length.upTo_add]
              exact ⟨a ++ u, v,
                (List.append_assoc _ _ _).symm,
                .cons hBefore hAfter hCopied hFirst, hLast⟩
            · rcases exists_of_extent_le hNew
                  (not_le.1 hEnds).le with
                ⟨more, rfl, rfl⟩
              have hMore : extent more ≠ 0 := by
                intro hZero
                rw [extent_append, hZero, add_zero] at hEnds
                exact hEnds (le_refl _)
              rw [extent_append] at hAfter
              rw [splitAt_add hAfter hMore]
              by_cases hChanged : run.changed = true
              · rw [if_pos hChanged]
                refine ⟨a, rest, rfl, ?_, ?_⟩
                · have hOne :
                      Covers rel [⟨true, run.before, extent x⟩]
                        (a ++ []) (x ++ []) :=
                    .cons hBefore rfl (by simp) .nil
                  simpa using hOne
                · refine Makes.run (a := []) (b := more) rfl
                    rfl ?_ hRest
                  intro hCopy
                  cases hCopy
              · rw [if_neg hChanged]
                rcases exists_of_forall₂_append
                    (hCopied (Bool.eq_false_iff.2 hChanged)) with
                  ⟨first, last, rfl, hFirst, hLast⟩
                have hFirstSize :=
                  extent_eq_of_forall₂ hSize hFirst
                have hLastSize :=
                  extent_eq_of_forall₂ hSize hLast
                refine ⟨first, last ++ rest,
                  List.append_assoc _ _ _, ?_, ?_⟩
                · have hOne :
                      Covers rel [Run.copied (extent x)]
                        (first ++ []) (x ++ []) :=
                    .cons hFirstSize.symm rfl
                      (fun _ => hFirst) .nil
                  simpa using hOne
                · exact .run hLastSize.symm rfl
                    (fun _ => hLast) hRest

end Bracketry
