import Bracketry.Proofs.Batches
import Bracketry.Proofs.Keeping

/-
  Composition of batches is associative.

  A batch whose edits do not touch is known by the stretches
  that it keeps, and by whether it begins with an edit.  A
  composition keeps what both of its batches keep, one after
  the other, so that two groupings of three batches keep the
  same stretches and are one list.

  Key definitions include:
    * `Edit.StartsAt`

  Main declarations:
    * `Edit.eq_of_keepsSame`
    * `Edit.keepsSame_joinFrom`
    * `Edit.compose_spec`
    * `Edit.compose_assoc`
-/

------------------------------------------------------------
-- What Edits Keep
------------------------------------------------------------

namespace Bracketry

namespace Edit

open Run

/- What is kept lies before the first edit, or behind it. -/
theorem keeps_cons_iff
    {low : Position}
    {edit : Edit}
    {rest : List Edit}
    {old new : Position}
    {width : Length}
    (hWidth : width ≠ 0) :
    Keeps (ofEditsFrom low (edit :: rest)) old width new ↔
      (old = new ∧ old + width ≤ low.upTo edit.start) ∨
        ∃ before after,
          old = low.upTo edit.start +
              (edit.start.upTo edit.stop + before) ∧
            new = low.upTo edit.start +
              (edit.inserted + after) ∧
            Keeps (ofEditsFrom edit.stop rest) before width
              after := by
  unfold Keeps
  rw [ofEditsFrom]
  split_ifs with hGap
  · rw [hGap]
    simp [KeepsThen, not_add_le_zero hWidth]
  · simp only [KeepsThen, copied, true_and]
    constructor
    · rintro (hFront | ⟨_, _, rfl, rfl, ⟨hCopied, _⟩ |
        ⟨before, after, rfl, rfl, hKeeps⟩⟩)
      · exact .inl hFront
      · cases hCopied
      · exact .inr ⟨before, after, rfl, rfl, hKeeps⟩
    · rintro (hFront | ⟨before, after, rfl, rfl, hKeeps⟩)
      · exact .inl hFront
      · exact .inr ⟨_, _, rfl, rfl,
          .inr ⟨before, after, rfl, rfl, hKeeps⟩⟩

/- Behind the text before the first edit. -/
theorem keeps_gap_iff
    {low : Position}
    {edit : Edit}
    {rest : List Edit}
    {old new : Position}
    {width : Length}
    (hWidth : width ≠ 0) :
    Keeps (ofEditsFrom low (edit :: rest))
        (low.upTo edit.start + old) width
        (low.upTo edit.start + new) ↔
      ∃ before after,
        old = edit.start.upTo edit.stop + before ∧
          new = edit.inserted + after ∧
          Keeps (ofEditsFrom edit.stop rest) before width
            after := by
  rw [keeps_cons_iff hWidth]
  constructor
  · rintro (⟨_, hEnd⟩ |
      ⟨before, after, hOld, hNew, hKeeps⟩)
    · exact absurd hEnd (not_add_le hWidth _ _)
    · exact ⟨before, after, Length.add_left_cancel hOld,
        Length.add_left_cancel hNew, hKeeps⟩
  · rintro ⟨before, after, rfl, rfl, hKeeps⟩
    exact .inr ⟨before, after, rfl, rfl, hKeeps⟩

/- Behind the first edit. -/
theorem keeps_behind_iff
    {low : Position}
    {edit : Edit}
    {rest : List Edit}
    {old new : Position}
    {width : Length}
    (hWidth : width ≠ 0) :
    Keeps (ofEditsFrom low (edit :: rest))
        (low.upTo edit.start +
          (edit.start.upTo edit.stop + old)) width
        (low.upTo edit.start + (edit.inserted + new)) ↔
      Keeps (ofEditsFrom edit.stop rest) old width new := by
  rw [keeps_gap_iff hWidth]
  constructor
  · rintro ⟨before, after, hOld, hNew, hKeeps⟩
    rcases Length.add_left_cancel hOld with rfl
    rcases Length.add_left_cancel hNew with rfl
    exact hKeeps
  · intro hKeeps
    exact ⟨old, new, rfl, rfl, hKeeps⟩

end Edit

end Bracketry

------------------------------------------------------------
-- Batches That Keep the Same
------------------------------------------------------------

namespace Bracketry

namespace Edit

open Run

/- The first edit begins at a place. -/
def StartsAt
    (low : Position) :
    List Edit → Prop
  | [] => False
  | edit :: _ => edit.start = low

theorem startsChanged_ofEditsFrom_iff
    {low : Position}
    {edits : List Edit}
    (h : IsBatchFrom low edits) :
    StartsChanged (ofEditsFrom low edits) ↔
      StartsAt low edits := by
  cases edits with
  | nil => rfl
  | cons edit rest =>
      rw [ofEditsFrom]
      split_ifs with hGap
      · rw [Length.upTo_eq_zero] at hGap
        simp [StartsChanged, StartsAt, le_antisymm hGap h.1]
      · rw [Length.upTo_eq_zero] at hGap
        simp only [StartsChanged, StartsAt, copied]
        constructor
        · rintro ⟨⟩
        · rintro rfl
          exact absurd (le_refl _) hGap

theorem not_startsAt_of_areApart
    {edit : Edit}
    {rest : List Edit}
    (h : AreApart (edit :: rest)) :
    ¬ StartsAt edit.stop rest := by
  cases rest with
  | nil => exact id
  | cons next more =>
      have hLess := List.rel_of_pairwise_cons h
        List.mem_cons_self
      exact fun hStart => hLess.ne hStart.symm

/- There is some text kept where no edit begins. -/
theorem exists_keeps
    {low : Position}
    {edits : List Edit}
    (hBatch : IsBatchFrom low edits)
    (hStart : ¬ StartsAt low edits) :
    ∃ width, width ≠ 0 ∧
      Keeps (ofEditsFrom low edits) 0 width 0 := by
  cases edits with
  | nil => exact ⟨⟨0, 1⟩, by decide, rfl⟩
  | cons edit rest =>
      have hGap : low.upTo edit.start ≠ 0 := by
        intro hNone
        rw [Length.upTo_eq_zero] at hNone
        exact hStart (le_antisymm hNone hBatch.1)
      refine ⟨low.upTo edit.start, hGap,
        (keeps_cons_iff hGap).2 (.inl ⟨rfl, ?_⟩)⟩
      rw [zero_add]

/- It is not longer than what is before the first edit. -/
theorem le_gap_of_keeps
    {low : Position}
    {edit : Edit}
    {rest : List Edit}
    {width : Length}
    (hBatch : IsBatchFrom low (edit :: rest))
    (hStart : ¬ StartsAt low (edit :: rest))
    (hWidth : width ≠ 0)
    (h : Keeps (ofEditsFrom low (edit :: rest)) 0 width 0) :
    width ≤ low.upTo edit.start := by
  rcases (keeps_cons_iff hWidth).1 h with
    ⟨_, hEnd⟩ | ⟨before, after, hPlace, _⟩
  · rwa [zero_add] at hEnd
  · have hNone : low.upTo edit.start ≤ 0 := by
      rw [hPlace]
      exact Length.le_add_right _ _
    rw [Length.le_zero, Length.upTo_eq_zero] at hNone
    exact absurd (le_antisymm hNone hBatch.1) hStart

/- Two batches keep the same stretches of the old text. -/
def KeepsSame
    (low : Position)
    (edits others : List Edit) :
    Prop :=
  ∀ old new width,
    width ≠ 0 →
      (Keeps (ofEditsFrom low edits) old width new ↔
        Keeps (ofEditsFrom low others) old width new)

theorem KeepsSame.symm
    {low : Position}
    {edits others : List Edit}
    (h : KeepsSame low edits others) :
    KeepsSame low others edits :=
  fun old new width hWidth => (h old new width hWidth).symm

/- Only a batch without edits keeps all. -/
theorem eq_nil_of_keepsSame
    {low : Position}
    {edits : List Edit}
    (hBatch : IsBatchFrom low edits)
    (hStart : ¬ StartsAt low edits)
    (h : KeepsSame low [] edits) :
    edits = [] := by
  cases edits with
  | nil => rfl
  | cons edit rest =>
      have hLess :
          low.upTo edit.start <
            low.upTo edit.start + ⟨0, 1⟩ :=
        Length.lt_add_right (by decide)
      have hOne := ((Length.zero_le _).trans_lt hLess).ne'
      have hLe := le_gap_of_keeps hBatch hStart hOne
        ((h 0 0 _ hOne).1 rfl)
      exact absurd hLe (not_le.2 hLess)

theorem gap_le_of_keepsSame
    {low : Position}
    {edit other : Edit}
    {rest more : List Edit}
    (hOther : IsBatchFrom low (other :: more))
    (hStart :
      StartsAt low (other :: more) →
        StartsAt low (edit :: rest))
    (h : KeepsSame low (edit :: rest) (other :: more)) :
    low.upTo edit.start ≤ low.upTo other.start := by
  by_cases hGap : low.upTo edit.start = 0
  · rw [hGap]
    exact Length.zero_le _
  · have hBehind : ¬ StartsAt low (other :: more) := by
      intro hAt
      apply hGap
      rw [Length.upTo_eq_zero]
      exact (hStart hAt).le
    refine le_gap_of_keeps hOther hBehind hGap
      ((h 0 0 _ hGap).1 ?_)
    exact (keeps_cons_iff hGap).2
      (.inl ⟨rfl, (zero_add _).le⟩)

/- What the first edit replaces and what it inserts. -/
theorem edit_le_of_keepsSame
    {low : Position}
    {edit other : Edit}
    {rest more : List Edit}
    (hBatch : IsBatchFrom low (edit :: rest))
    (hApart : AreApart (edit :: rest))
    (hGap : low.upTo edit.start = low.upTo other.start)
    (h : KeepsSame low (edit :: rest) (other :: more)) :
    other.start.upTo other.stop ≤
        edit.start.upTo edit.stop ∧
      other.inserted ≤ edit.inserted := by
  rcases exists_keeps hBatch.2.2
      (not_startsAt_of_areApart hApart) with
    ⟨width, hWidth, hKeeps⟩
  have hOther := (h _ _ width hWidth).1
    ((keeps_behind_iff hWidth).2 hKeeps)
  rw [hGap, keeps_gap_iff hWidth, add_zero, add_zero]
    at hOther
  rcases hOther with ⟨before, after, hOld, hNew, _⟩
  rw [hOld, hNew]
  exact ⟨Length.le_add_right _ _, Length.le_add_right _ _⟩

/-
  Batches that keep the same stretches, and both or neither
  begin with an edit, are one.
-/
theorem eq_of_keepsSame
    {low : Position}
    {edits others : List Edit}
    (hEdits : IsBatchFrom low edits)
    (hOthers : IsBatchFrom low others)
    (hApart : AreApart edits)
    (hOthersApart : AreApart others)
    (hStart : StartsAt low edits ↔ StartsAt low others)
    (h : KeepsSame low edits others) :
    edits = others := by
  induction edits generalizing low others with
  | nil =>
      exact (eq_nil_of_keepsSame hOthers
        (fun hAt => hStart.2 hAt) h).symm
  | cons edit rest ih =>
      cases others with
      | nil =>
          exact eq_nil_of_keepsSame hEdits
            (fun hAt => hStart.1 hAt) h.symm
      | cons other more =>
          have hGap :
              low.upTo edit.start = low.upTo other.start :=
            le_antisymm
              (gap_le_of_keepsSame hOthers hStart.2 h)
              (gap_le_of_keepsSame hEdits hStart.1 h.symm)
          rcases edit_le_of_keepsSame hEdits hApart hGap h with
            ⟨hCut, hText⟩
          rcases edit_le_of_keepsSame hOthers hOthersApart
              hGap.symm h.symm with
            ⟨hCut', hText'⟩
          have hBegin : edit.start = other.start := by
            rw [← Length.add_upTo hEdits.1, hGap,
              Length.add_upTo hOthers.1]
          have hCutSame := le_antisymm hCut' hCut
          have hEnd : edit.stop = other.stop := by
            rw [← Length.add_upTo hEdits.2.1, hCutSame,
              hBegin, Length.add_upTo hOthers.2.1]
          have hInserted := le_antisymm hText' hText
          have hSame : edit = other := by
            cases edit
            cases other
            simp_all
          subst hSame
          refine congrArg _ (ih hEdits.2.2 hOthers.2.2
            (List.Pairwise.of_cons hApart)
            (List.Pairwise.of_cons hOthersApart) ?_ ?_)
          · exact iff_of_false
              (not_startsAt_of_areApart hApart)
              (not_startsAt_of_areApart hOthersApart)
          · intro old new width hWidth
            rw [← keeps_behind_iff hWidth, h _ _ _ hWidth,
              keeps_behind_iff hWidth]

end Edit

end Bracketry

------------------------------------------------------------
-- Joined Edits
------------------------------------------------------------

namespace Bracketry

namespace Edit

open Run

/- Edits that touch keep what their join keeps. -/
theorem keeps_join_iff
    {low : Position}
    {current edit : Edit}
    {rest : List Edit}
    (hBatch : IsBatchFrom low (current :: edit :: rest))
    (hTouch : current.stop = edit.start) :
    KeepsSame low
      (⟨current.start, edit.stop,
        current.inserted + edit.inserted⟩ :: rest)
      (current :: edit :: rest) := by
  intro old new width hWidth
  rcases hBatch with ⟨_, hCurrent, _, hEdit, _⟩
  have hCut :
      current.start.upTo edit.stop =
        current.start.upTo current.stop +
          edit.start.upTo edit.stop := by
    apply Length.add_left_cancel (a := current.start)
    rw [← add_assoc, Length.add_upTo hCurrent, hTouch,
      Length.add_upTo hEdit, Length.add_upTo]
    exact (hTouch ▸ hCurrent).trans hEdit
  have hNone : current.stop.upTo edit.start = 0 :=
    Length.upTo_eq_zero.2 hTouch.ge
  rw [keeps_cons_iff hWidth, keeps_cons_iff hWidth]
  simp only [keeps_cons_iff hWidth, hNone, hCut, zero_add,
    Length.le_zero]
  refine or_congr_right ⟨?_, ?_⟩
  · rintro ⟨before, after, rfl, rfl, hKeeps⟩
    refine ⟨_, _, ?_, ?_,
      .inr ⟨before, after, rfl, rfl, hKeeps⟩⟩
    · rw [add_assoc (current.start.upTo current.stop)]
    · rw [add_assoc current.inserted]
  · rintro ⟨_, _, rfl, rfl, ⟨rfl, hZero⟩ |
      ⟨before, after, rfl, rfl, hKeeps⟩⟩
    · exact absurd hZero.le (not_add_le_zero hWidth _)
    · refine ⟨before, after, ?_, ?_, hKeeps⟩
      · rw [add_assoc (current.start.upTo current.stop)]
      · rw [add_assoc current.inserted]

theorem keepsSame_cons
    {low : Position}
    {edit : Edit}
    {rest more : List Edit}
    (h : KeepsSame edit.stop rest more) :
    KeepsSame low (edit :: rest) (edit :: more) := by
  intro old new width hWidth
  rw [keeps_cons_iff hWidth, keeps_cons_iff hWidth]
  simp only [h _ _ width hWidth]

/- Joining the edits that touch changes nothing kept. -/
theorem keepsSame_joinFrom
    {low : Position}
    {current : Edit}
    {edits joined : List Edit}
    (hBatch : IsBatchFrom low (current :: edits))
    (hJoin : joinFrom current edits = .ok joined) :
    KeepsSame low joined (current :: edits) := by
  induction edits generalizing low current joined with
  | nil =>
      cases hJoin
      exact fun old new width hWidth => Iff.rfl
  | cons edit rest ih =>
      rw [joinFrom] at hJoin
      split_ifs at hJoin with hTouch
      · rcases Checked.bind_eq_ok_iff.1 hJoin with
          ⟨inserted, hPlus, hJoin⟩
        rcases Length.plus_eq_ok_iff.1 hPlus with ⟨_, rfl⟩
        rcases hBatch with ⟨hLow, hCurrent, hNext, hEdit, hRest⟩
        have hJoined :
            IsBatchFrom low
              (⟨current.start, edit.stop,
                current.inserted + edit.inserted⟩ ::
                  rest) :=
          ⟨hLow, (hCurrent.trans hNext).trans hEdit, hRest⟩
        have hRestSame := ih hJoined hJoin
        intro old new width hWidth
        rw [hRestSame old new width hWidth]
        exact keeps_join_iff
          ⟨hLow, hCurrent, hNext, hEdit, hRest⟩ hTouch old new
          width hWidth
      · rcases Checked.bind_eq_ok_iff.1 hJoin with
          ⟨others, hMore, hJoin⟩
        cases hJoin
        exact keepsSame_cons (ih hBatch.2.2 hMore)

end Edit

end Bracketry

------------------------------------------------------------
-- Edits and Runs
------------------------------------------------------------

namespace Bracketry

namespace Edit

open Run

theorem ofEditsFrom_here
    (offset : Position)
    (width inserted : Length)
    (rest : List Edit) :
    ofEditsFrom offset
        (⟨offset, offset + width, inserted⟩ :: rest) =
      ⟨true, width, inserted⟩ ::
        ofEditsFrom (offset + width) rest := by
  have hNone : offset.upTo offset = 0 :=
    Length.upTo_eq_zero.2 (le_refl _)
  simp only [ofEditsFrom, hNone, if_pos, Length.upTo_add]

theorem ofEditsFrom_behind
    {offset gap : Length}
    {edit : Edit}
    (rest : List Edit)
    (hGap : gap ≠ 0)
    (hStart : edit.start = offset + gap) :
    ofEditsFrom offset (edit :: rest) =
      copied gap ::
        ofEditsFrom (offset + gap) (edit :: rest) := by
  have hNone : (offset + gap).upTo (offset + gap) = 0 :=
    Length.upTo_eq_zero.2 (le_refl _)
  simp only [ofEditsFrom, hStart, Length.upTo_add,
    if_neg hGap, hNone, if_pos]

/- Spaced runs are the runs of their edits. -/
theorem ofEditsFrom_ofRuns
    {runs : List Run}
    (offset : Position)
    (h : IsSpaced runs) :
    ofEditsFrom offset (ofRuns offset runs) = runs := by
  induction runs generalizing offset with
  | nil => rfl
  | cons run rest ih =>
      rcases h with ⟨hRun, hRest⟩
      by_cases hChanged : run.changed = true
      · have hOne : run = ⟨true, run.before, run.after⟩ := by
          cases run
          simp_all
        rw [ofRuns, if_pos hChanged, ofEditsFrom_here,
          ih _ hRest, ← hOne]
      · rcases hRun (Bool.eq_false_iff.2 hChanged) with
          ⟨hSame, hSome, hNext⟩
        cases rest with
        | nil => exact hNext.elim
        | cons next more =>
            have hOne : copied run.before = run := by
              cases run
              simp_all [copied]
            have hStart : next.changed = true := hNext
            have hBehind := ih (offset + run.before) hRest
            rw [ofRuns, if_pos hStart] at hBehind
            rw [ofRuns, if_neg hChanged, ofRuns,
              if_pos hStart,
              ofEditsFrom_behind _ (hSame ▸ hSome) rfl,
              hBehind, hOne]

end Edit

end Bracketry

------------------------------------------------------------
-- Composition
------------------------------------------------------------

namespace Bracketry

namespace Edit

open Run

theorem startsAt_joinFrom_iff
    {low : Position}
    {current : Edit}
    {edits joined : List Edit}
    (hBatch : IsBatchFrom low (current :: edits))
    (hJoin : joinFrom current edits = .ok joined) :
    StartsAt low joined ↔ StartsAt low (current :: edits) := by
  rcases joinFrom_spec hBatch hJoin with
    ⟨_, _, first, rest, rfl, hStart⟩
  simp only [StartsAt, hStart]

theorem weave_ne_nil
    {first others : List Run}
    (hOthers : IsSpaced others)
    (hSome : others ≠ []) :
    weave first others ≠ [] := by
  rcases List.exists_cons_of_ne_nil hSome with ⟨run, rest, rfl⟩
  by_cases hChanged : run.changed = true
  · rw [weave_cons_changed hChanged]
    exact List.cons_ne_nil _ _
  · have hCopied := Bool.eq_false_iff.2 hChanged
    rcases hOthers.1 hCopied with ⟨_, _, hStart⟩
    rw [weave_cons_copied hCopied]
    intro hNone
    have hRest := hStart.weave (take run.before first).2
    rw [(List.append_eq_nil_iff.1 hNone).2] at hRest
    exact hRest

theorem ofEdits_ne_nil
    {edits : List Edit}
    (h : edits ≠ []) :
    ofEdits edits ≠ [] := by
  rcases List.exists_cons_of_ne_nil h with ⟨edit, rest, rfl⟩
  rw [ofEdits, ofEditsFrom]
  split_ifs
  · exact List.cons_ne_nil _ _
  · exact List.cons_ne_nil _ _

/-
  The batch has the effect of two batches that have edits,
  and its edits do not touch.
-/
structure IsComposition
    (first second composed : List Edit) :
    Prop where
  some : composed ≠ []
  isBatch : IsBatch composed
  areApart : AreApart composed
  keeps :
    ∀ old new width,
      width ≠ 0 →
        (Keeps (ofEdits composed) old width new ↔
          ∃ middle,
            Keeps (ofEdits first) old width middle ∧
              Keeps (ofEdits second) middle width new)
  starts :
    StartsAt 0 composed ↔
      StartsAt 0 first ∨ StartsAt 0 second

theorem compose_spec
    {first second composed : List Edit}
    (hFirst : IsBatch first)
    (hSecond : IsBatch second)
    (hFirstSome : first ≠ [])
    (hSecondSome : second ≠ [])
    (h : compose first second = .ok composed) :
    IsComposition first second composed := by
  rw [compose, if_neg (by simpa using hFirstSome),
    if_neg (by simpa using hSecondSome)] at h
  rcases Checked.bind_eq_ok_iff.1 h with ⟨edits, hChain, hJoin⟩
  have hSpaced : IsSpaced (ofEdits second) :=
    isSpaced_ofEditsFrom 0 second
  have hWeave :
      IsSpaced (weave (ofEdits first) (ofEdits second)) :=
    (isSpaced_ofEditsFrom 0 first).weave hSpaced
  have hRuns := ofEditsFrom_ofRuns 0 hWeave
  rw [← chain_eq hChain] at hRuns
  have hBatch : IsBatchFrom 0 edits := by
    rw [chain_eq hChain]
    exact isBatchFrom_ofRuns (le_refl _) _
  cases edits with
  | nil =>
      exact absurd hRuns.symm
        (weave_ne_nil hSpaced (ofEdits_ne_nil hSecondSome))
  | cons current rest =>
      rcases joinFrom_spec hBatch hJoin with
        ⟨hJoined, hApart, edit, more, rfl, _⟩
      refine ⟨List.cons_ne_nil _ _, hJoined, hApart, ?_, ?_⟩
      · intro old new width hWidth
        rw [ofEdits, keepsSame_joinFrom hBatch hJoin _ _ _
          hWidth, hRuns]
        exact keeps_weave_iff (isSpaced_ofEditsFrom 0 first)
          hSpaced hWidth
      · rw [startsAt_joinFrom_iff hBatch hJoin,
          ← startsChanged_ofEditsFrom_iff hBatch, hRuns,
          startsChanged_weave_iff hSpaced]
        exact or_congr (startsChanged_ofEditsFrom_iff hFirst)
          (startsChanged_ofEditsFrom_iff hSecond)

/- Two ways to group three batches that have edits. -/
theorem IsComposition.assoc
    {first second third left right all whole : List Edit}
    (hLeft : IsComposition first second left)
    (hAll : IsComposition left third all)
    (hRight : IsComposition second third right)
    (hWhole : IsComposition first right whole) :
    all = whole := by
  refine eq_of_keepsSame hAll.isBatch hWhole.isBatch
    hAll.areApart hWhole.areApart ?_ ?_
  · rw [hAll.starts, hLeft.starts, hWhole.starts,
      hRight.starts, or_assoc]
  · intro old new width hWidth
    have hAllKeeps := hAll.keeps old new width hWidth
    have hWholeKeeps := hWhole.keeps old new width hWidth
    simp only [hLeft.keeps _ _ _ hWidth] at hAllKeeps
    simp only [hRight.keeps _ _ _ hWidth] at hWholeKeeps
    refine hAllKeeps.trans (Iff.trans ?_ hWholeKeeps.symm)
    constructor
    · rintro ⟨later, ⟨middle, hFirst, hSecond⟩, hThird⟩
      exact ⟨middle, hFirst, later, hSecond, hThird⟩
    · rintro ⟨middle, hFirst, later, hSecond, hThird⟩
      exact ⟨later, ⟨middle, hFirst, hSecond⟩, hThird⟩

end Edit

end Bracketry

------------------------------------------------------------
-- Associativity
------------------------------------------------------------

namespace Bracketry

namespace Edit

/-
  If no sum is too large, both groupings of three batches
  have a composition, and it is the same.
-/
theorem compose_assoc
    {first second third : List Edit}
    (hFirst : IsBatch first)
    (hSecond : IsBatch second)
    (hThird : IsBatch third)
    (hLeft :
      (do let left ← compose first second
          compose left third) ≠ .error .overflow)
    (hRight :
      (do let right ← compose second third
          compose first right) ≠ .error .overflow) :
    ∃ composed,
      (do let left ← compose first second
          compose left third) = .ok composed ∧
        (do let right ← compose second third
            compose first right) = .ok composed := by
  have hLeftOnly :=
    (compose_onlyOverflows first second).bind
      fun left => compose_onlyOverflows left third
  have hRightOnly :=
    (compose_onlyOverflows second third).bind
      fun right => compose_onlyOverflows first right
  rcases hLeftOnly.exists_ok hLeft with ⟨all, hAllOk⟩
  rcases hRightOnly.exists_ok hRight with ⟨whole, hWholeOk⟩
  refine ⟨all, hAllOk, ?_⟩
  rcases Checked.bind_eq_ok_iff.1 hAllOk with
    ⟨left, hLeft, hAll⟩
  rcases Checked.bind_eq_ok_iff.1 hWholeOk with
    ⟨right, hRight, hWhole⟩
  rw [hWholeOk]
  congr 1
  by_cases hFirstNone : first = []
  · subst hFirstNone
    cases hLeft
    cases hWhole
    rw [hRight] at hAll
    cases hAll
    rfl
  by_cases hSecondNone : second = []
  · subst hSecondNone
    rw [compose_nil_right] at hLeft
    cases hLeft
    cases hRight
    rw [hAll] at hWhole
    cases hWhole
    rfl
  by_cases hThirdNone : third = []
  · subst hThirdNone
    rw [compose_nil_right] at hRight hAll
    cases hRight
    cases hAll
    rw [hLeft] at hWhole
    cases hWhole
    rfl
  have hLeftSpec := compose_spec hFirst hSecond hFirstNone
    hSecondNone hLeft
  have hRightSpec := compose_spec hSecond hThird hSecondNone
    hThirdNone hRight
  have hAllSpec := compose_spec hLeftSpec.isBatch hThird
    hLeftSpec.some hThirdNone hAll
  have hWholeSpec := compose_spec hFirst hRightSpec.isBatch
    hFirstNone hRightSpec.some hWhole
  exact (hLeftSpec.assoc hAllSpec hRightSpec hWholeSpec).symm

/-
  An insertion that touches a deletion over a line break, an
  edit that changes nothing, and two batches after them.
-/
theorem compose_assoc_touching :
    ∃ composed,
      (do let left ← compose
            [⟨⟨0, 1⟩, ⟨0, 1⟩, ⟨0, 2⟩⟩,
              ⟨⟨0, 1⟩, ⟨1, 0⟩, ⟨0, 0⟩⟩,
              ⟨⟨1, 4⟩, ⟨1, 4⟩, ⟨0, 0⟩⟩]
            [⟨⟨0, 2⟩, ⟨0, 3⟩, ⟨1, 1⟩⟩,
              ⟨⟨0, 3⟩, ⟨0, 3⟩, ⟨0, 1⟩⟩]
          compose left
            [⟨⟨0, 0⟩, ⟨0, 0⟩, ⟨0, 0⟩⟩,
              ⟨⟨1, 0⟩, ⟨1, 1⟩, ⟨0, 0⟩⟩]) =
          .ok composed ∧
        (do let right ← compose
              [⟨⟨0, 2⟩, ⟨0, 3⟩, ⟨1, 1⟩⟩,
                ⟨⟨0, 3⟩, ⟨0, 3⟩, ⟨0, 1⟩⟩]
              [⟨⟨0, 0⟩, ⟨0, 0⟩, ⟨0, 0⟩⟩,
                ⟨⟨1, 0⟩, ⟨1, 1⟩, ⟨0, 0⟩⟩]
            compose
              [⟨⟨0, 1⟩, ⟨0, 1⟩, ⟨0, 2⟩⟩,
                ⟨⟨0, 1⟩, ⟨1, 0⟩, ⟨0, 0⟩⟩,
                ⟨⟨1, 4⟩, ⟨1, 4⟩, ⟨0, 0⟩⟩]
              right) =
          .ok composed :=
  compose_assoc (by decide) (by decide) (by decide)
    (by decide) (by decide)

end Edit

end Bracketry
