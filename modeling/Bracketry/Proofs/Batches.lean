import Bracketry.Edit.Compose
import Bracketry.Proofs.Lengths

/-
  Batches whose edits do not touch.

  Joining the edits of a batch that touch leaves a batch in
  which there is text between any two edits.

  Key definitions include:
    * `Edit.AreApart`

  Main declarations:
    * `Edit.joinFrom_spec`
-/

------------------------------------------------------------
-- Places of a Batch
------------------------------------------------------------

namespace Bracketry

namespace Edit

instance decidableIsBatchFrom
    (low : Position) :
    (edits : List Edit) → Decidable (IsBatchFrom low edits)
  | [] => inferInstanceAs (Decidable True)
  | edit :: rest =>
      have := decidableIsBatchFrom edit.stop rest
      inferInstanceAs (Decidable (_ ∧ _ ∧ _))

instance (edits : List Edit) : Decidable (IsBatch edits) :=
  decidableIsBatchFrom 0 edits

/- A batch lies behind the place that it begins from. -/
theorem IsBatchFrom.le_start
    {low : Position}
    {edits : List Edit}
    (h : IsBatchFrom low edits) :
    ∀ edit ∈ edits, low ≤ edit.start := by
  induction edits generalizing low with
  | nil => simp
  | cons first rest ih =>
      rcases h with ⟨hLow, hOrder, hRest⟩
      rw [List.forall_mem_cons]
      exact ⟨hLow, fun edit hEdit =>
        (hLow.trans hOrder).trans (ih hRest edit hEdit)⟩

/- There is text between any two of the edits. -/
def AreApart
    (edits : List Edit) :
    Prop :=
  edits.Pairwise fun a b => a.stop < b.start

instance (edits : List Edit) : Decidable (AreApart edits) :=
  inferInstanceAs (Decidable (List.Pairwise _ _))

/- An edit in front of others that it does not touch. -/
theorem areApart_cons
    {first next : Edit}
    {rest : List Edit}
    (hOrder : IsBatchFrom first.stop (next :: rest))
    (hGap : first.stop ≠ next.start)
    (h : AreApart (next :: rest)) :
    AreApart (first :: next :: rest) := by
  rcases hOrder with ⟨hLow, hNext, hRest⟩
  have hLess : first.stop < next.start :=
    lt_of_le_of_ne hLow hGap
  refine List.pairwise_cons.2 ⟨?_, h⟩
  rw [List.forall_mem_cons]
  exact ⟨hLess, fun edit hEdit =>
    (hLess.trans_le hNext).trans_le (hRest.le_start edit hEdit)⟩

end Edit

end Bracketry

------------------------------------------------------------
-- Joined Edits
------------------------------------------------------------

namespace Bracketry

namespace Edit

/-
  Joining keeps the start of a batch, and no edit of what it
  makes touches another.
-/
theorem joinFrom_spec
    {low : Position}
    {current : Edit}
    {edits joined : List Edit}
    (hBatch : IsBatchFrom low (current :: edits))
    (hJoin : joinFrom current edits = .ok joined) :
    IsBatchFrom low joined ∧ AreApart joined ∧
      ∃ first rest,
        joined = first :: rest ∧
          first.start = current.start := by
  induction edits generalizing low current joined with
  | nil =>
      cases hJoin
      exact ⟨hBatch, List.pairwise_singleton _ _, current, [],
        rfl, rfl⟩
  | cons edit rest ih =>
      rcases hBatch with ⟨hLow, hCurrent, hNext, hEdit, hRest⟩
      rw [joinFrom] at hJoin
      split_ifs at hJoin with hTouch
      · cases hPlus : current.inserted.plus edit.inserted with
        | error fault =>
            rw [hPlus] at hJoin
            cases hJoin
        | ok inserted =>
            rw [hPlus] at hJoin
            have hJoined :
                IsBatchFrom low
                  (⟨current.start, edit.stop, inserted⟩ ::
                    rest) :=
              ⟨hLow, (hCurrent.trans hNext).trans hEdit, hRest⟩
            have hWhole := ih hJoined hJoin
            exact hWhole
      · cases hMore : joinFrom edit rest with
        | error fault =>
            rw [hMore] at hJoin
            cases hJoin
        | ok others =>
            rw [hMore] at hJoin
            cases hJoin
            rcases ih ⟨hNext, hEdit, hRest⟩ hMore with
              ⟨hOthers, hApart, first, last, rfl, hStart⟩
            rw [← hStart] at hTouch
            exact ⟨⟨hLow, hCurrent, hOthers⟩,
              areApart_cons hOthers hTouch hApart, current, _,
              rfl, rfl⟩

end Edit

end Bracketry
