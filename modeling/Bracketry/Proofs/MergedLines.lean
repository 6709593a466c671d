import Bracketry.Proofs.Batches
import Bracketry.Proofs.LineEdits

/-
  The edits of lines that are classified anew.

  Whatever spans of lines are given, merging them leaves
  edits with lines between any two.  Each puts as many lines
  in the place of whole lines, and together they have the
  lines of the given spans and no others, up to the last
  line number, which no edit can pass.

  Key definitions include:
    * `Edit.HasLine`
    * `Edit.KeepsLines`

  Main declarations:
    * `LineSpan.cover_merge_iff`
    * `LineSpan.areApart_toEdit`
    * `Index.queueLines_separate`
-/

------------------------------------------------------------
-- Lines of Merged Spans
------------------------------------------------------------

namespace Bracketry

namespace LineSpan

/- Joining adds no lines. -/
theorem cover_of_joinFrom
    {current : LineSpan}
    {rest : List LineSpan}
    {line : Nat}
    (h : Cover (joinFrom current rest) line) :
    Cover (current :: rest) line := by
  induction rest generalizing current with
  | nil => exact h
  | cons span others ih =>
      unfold joinFrom at h
      rw [cover_cons, cover_cons]
      split_ifs at h with hTouch
      · rcases cover_cons.1 (ih h) with hJoined | hLater
        · -- a line behind the current span is in the next,
          -- which begins at the latest right behind it
          have hNext : span.first ≤ current.last + 1 :=
            Nat.le_trans hTouch (Nat.min_le_left _ _)
          by_cases hHere : line ≤ current.last
          · exact .inl ⟨hJoined.1, hHere⟩
          · have hLast : line ≤ max current.last span.last :=
              hJoined.2
            exact .inr (.inl (by omega))
        · exact .inr (.inr hLater)
      · rw [cover_cons] at h
        exact h.imp id fun hOther => cover_cons.1 (ih hOther)

/- Merged spans have the lines of the given ones. -/
theorem cover_merge_iff
    {spans : List LineSpan}
    {line : Nat} :
    Cover (merge spans) line ↔ Cover spans line := by
  refine ⟨fun h => ?_, cover_merge⟩
  have hSorted : Cover (sorted spans) line := by
    rw [merge_eq] at h
    cases hCase : sorted spans with
    | nil =>
        rw [hCase] at h
        exact h
    | cons span rest =>
        rw [hCase] at h
        exact cover_of_joinFrom h
  rcases hSorted with ⟨span, hSpan, hLines⟩
  exact ⟨span, (mem_sorted.1 hSpan).1, hLines⟩

end LineSpan

end Bracketry

------------------------------------------------------------
-- Edits of Whole Lines
------------------------------------------------------------

namespace Bracketry

namespace Edit

/- The line is among the lines that are replaced. -/
def HasLine
    (edit : Edit)
    (line : Nat) :
    Prop :=
  edit.start.lines ≤ line ∧ line < edit.stop.lines

instance (edit : Edit) (line : Nat) :
    Decidable (edit.HasLine line) :=
  inferInstanceAs (Decidable (_ ∧ _))

/- As many lines take the place of whole lines. -/
structure KeepsLines (edit : Edit) : Prop where
  start : edit.start.columns = 0
  stop : edit.stop.columns = 0
  inserted : edit.start + edit.inserted = edit.stop

end Edit

namespace LineSpan

variable {span : LineSpan} {spans : List LineSpan}

theorem keepsLines_toEdit
    (h : span.first ≤ after span.last) :
    (toEdit span).KeepsLines where
  start := rfl
  stop := rfl
  inserted := by
    apply Length.ext
    · rw [Length.add_lines]
      exact Nat.add_sub_cancel' h
    · rw [Length.add_columns]
      split_ifs <;> rfl

/- Up to the last line number, an edit has its lines. -/
theorem hasLine_toEdit_iff
    {line : Nat}
    (hLine : line < maxCount) :
    (toEdit span).HasLine line ↔
      span.first ≤ line ∧ line ≤ span.last := by
  have hStop :
      line < after span.last ↔ line ≤ span.last := by
    unfold after
    omega
  exact and_congr_right fun _ => hStop

/- Edits of separate spans do not touch. -/
theorem areApart_toEdit
    (h : AreSeparate spans) :
    Edit.AreApart (spans.map toEdit) :=
  List.pairwise_map.2
    (List.Pairwise.imp
      (fun hLess => Length.lt_def.2 (.inl hLess)) h)

/- Edits of separate spans with lines are in order. -/
theorem isBatchFrom_toEdit
    {low : Position}
    (hLow : ∀ span ∈ spans, low ≤ (toEdit span).start)
    (hOrder : ∀ span ∈ spans, span.first ≤ after span.last)
    (h : AreSeparate spans) :
    Edit.IsBatchFrom low (spans.map toEdit) := by
  induction spans generalizing low with
  | nil => trivial
  | cons span rest ih =>
      rcases List.pairwise_cons.1 h with ⟨hGap, hRest⟩
      rw [List.forall_mem_cons] at hLow hOrder
      have hStop :
          (toEdit span).start ≤ (toEdit span).stop := by
        have hLines := hOrder.1
        rw [Length.le_def]
        simp only [toEdit]
        omega
      refine ⟨hLow.1, hStop, ih (fun other hOther => ?_)
        hOrder.2 hRest⟩
      exact Length.le_def.2 (.inl (hGap other hOther))

end LineSpan

end Bracketry

------------------------------------------------------------
-- Queued Lines
------------------------------------------------------------

namespace Bracketry

namespace Index

variable {index : Index} {spans : List LineSpan}

/- Lines are queued as they are where nothing was queued. -/
theorem queueLines_of_nil
    (hTree : index.classified.isSome = true)
    (hQueue : index.edits = []) :
    let edits := (LineSpan.merge spans).map LineSpan.toEdit
    index.queueLines spans =
      .ok
        { index with
          edits := edits
          isDirty := index.isDirty || !edits.isEmpty } := by
  intro edits
  have hSome : index.classified.isNone = false := by
    cases hCase : index.classified with
    | none =>
        rw [hCase] at hTree
        cases hTree
    | some root => rfl
  cases hEmpty : edits.isEmpty with
  | true =>
      have hNil : edits = [] := List.isEmpty_iff.1 hEmpty
      have hSame :
          { index with
            edits := edits
            isDirty := index.isDirty || !true } = index := by
        rw [hNil, ← hQueue]
        simp
      simp only [queueLines]
      rw [hSame, if_pos (by rw [hEmpty, Bool.true_or])]
  | false =>
      simp only [queueLines, queueEdits, Edit.compose, hQueue]
      rw [if_neg (by rw [hEmpty, hSome]; decide)]
      simp [bind, Except.bind, pure, Except.pure, edits]

/-
  The edits of lines that are classified anew, in whatever
  order the spans of lines are given, and however they
  overlap.  The edits are sorted, no two of them touch, each
  puts as many lines in the place of whole lines, and a line
  below the last line number is in an edit just if it is in
  a given span.  They are what is queued.
-/
theorem queueLines_separate
    (spans : List LineSpan)
    (hCount : ∀ span ∈ spans, span.last ≤ maxCount) :
    let edits := (LineSpan.merge spans).map LineSpan.toEdit
    Edit.IsBatch edits ∧
      Edit.AreApart edits ∧
      (∀ edit ∈ edits,
        edit.KeepsLines ∧ edit.stop.lines ≤ maxCount) ∧
      (∀ line < maxCount,
        (∃ edit ∈ edits, edit.HasLine line) ↔
          ∃ span ∈ spans,
            span.first ≤ line ∧ line ≤ span.last) ∧
      ∀ index : Index,
        index.classified.isSome = true → index.edits = [] →
          index.queueLines spans =
            .ok
              { index with
                edits := edits
                isDirty :=
                  index.isDirty || !edits.isEmpty } := by
  intro edits
  have hOrder := LineSpan.first_le_after_of_merge hCount
  have hSeparate := LineSpan.areSeparate_merge spans
  refine ⟨LineSpan.isBatchFrom_toEdit
      (fun _ _ => Length.zero_le _)
      (fun span hSpan => (hOrder span hSpan).1) hSeparate,
    LineSpan.areApart_toEdit hSeparate, ?_, ?_,
    fun _ hTree hQueue => queueLines_of_nil hTree hQueue⟩
  · rw [List.forall_mem_map]
    exact fun span hSpan =>
      ⟨LineSpan.keepsLines_toEdit (hOrder span hSpan).1,
        (hOrder span hSpan).2⟩
  · intro line hLine
    simp only [edits, List.mem_map, exists_exists_and_eq_and,
      LineSpan.hasLine_toEdit_iff hLine]
    exact LineSpan.cover_merge_iff

/-
  Spans that overlap, adjoin and are empty, and one that
  ends with the last line number, are queued behind a text
  of nine lines.
-/
theorem queueLines_separate_last :
    let spans : List LineSpan :=
      [⟨6, 8⟩, ⟨2, 3⟩, ⟨5, 4⟩, ⟨4294967290, 4294967295⟩,
        ⟨0, 1⟩, ⟨3, 3⟩]
    let edits : List Edit :=
      [⟨⟨0, 0⟩, ⟨4, 0⟩, ⟨4, 0⟩⟩, ⟨⟨6, 0⟩, ⟨9, 0⟩, ⟨3, 0⟩⟩,
        ⟨⟨4294967290, 0⟩, ⟨4294967295, 0⟩, ⟨5, 0⟩⟩]
    let index : Index :=
      { empty default with
        classified := some (.text none ⟨9, 0⟩) }
    (∀ span ∈ spans, span.last ≤ maxCount) ∧
      (index.classified.isSome = true ∧ index.edits = []) ∧
      index.queueLines spans =
        .ok { index with edits := edits, isDirty := true } ∧
      Edit.AreApart edits ∧
      (∃ edit ∈ edits, edit.HasLine 3) ∧
      (¬∃ edit ∈ edits, edit.HasLine 5) ∧
      ∃ edit ∈ edits, edit.HasLine 4294967294 := by
  intro spans edits index
  have hCount : ∀ span ∈ spans, span.last ≤ maxCount := by
    decide
  have hIndex :
      index.classified.isSome = true ∧ index.edits = [] :=
    ⟨rfl, rfl⟩
  have hEdits :
      (LineSpan.merge spans).map LineSpan.toEdit = edits := by
    decide
  rcases queueLines_separate spans hCount with
    ⟨_, hApart, _, hLines, hQueue⟩
  rw [hEdits] at hApart hLines hQueue
  refine ⟨hCount, hIndex, hQueue index hIndex.1 hIndex.2,
    hApart, (hLines 3 ?_).2 ?_, mt (hLines 5 ?_).1 ?_,
    (hLines 4294967294 ?_).2 ?_⟩ <;>
    decide

end Index

end Bracketry
