import Bracketry.Proofs.Faults
import Bracketry.Proofs.Rounds

/-
  Queues of an index.

  Whatever is done with a session, edits are queued only
  where the index is marked dirty, and none for a plain tree
  that is gone.  A flush leaves no work: it would do nothing
  if it came a second time.

  Key definitions include:
    * `Index.IsOrderly`, `Index.IsIdle`
    * `Session.IsOrderly`

  Main declarations:
    * `Index.leavesMark_ask`
    * `Index.IsOrderly.isIdle_flush`
    * `Session.isOrderly_performAll`
-/

------------------------------------------------------------
-- The Mark
------------------------------------------------------------

namespace Bracketry

namespace Index

/- What ends with an index does not take its mark away. -/
def LeavesMark
    {α : Type}
    (index : Index)
    (result : Checked (α × Index)) :
    Prop :=
  result.Ends (fun _ => True) fun answer =>
    index.isDirty = true → answer.2.isDirty = true

variable {α β : Type} {index : Index} {live : Option Nat}

theorem leavesMark_whenCurrent
    {ask : Index → Node → Checked (α × Index)}
    (h : ∀ root, index.LeavesMark (ask index root)) :
    index.LeavesMark (index.whenCurrent live ask) := by
  unfold whenCurrent
  cases index.current? with
  | none => exact id
  | some root =>
      dsimp only
      split
      · refine Checked.Ends.bind (h root) ?_
        rintro ⟨answer, after⟩ hAfter
        exact hAfter
      · exact fun _ => rfl

/- A part of an answer comes with the same index. -/
theorem LeavesMark.part
    {first : Checked (α × Index)}
    (h : index.LeavesMark first)
    (part : α → β) :
    index.LeavesMark
      (do
        let (answer, after) ← first
        return (part answer, after)) := by
  refine Checked.Ends.bind h ?_
  rintro ⟨answer, after⟩ hAfter
  exact hAfter

theorem leavesMark_whenCurrentPure
    (ask : Node → Checked α) :
    index.LeavesMark (index.whenCurrentPure live ask) := by
  refine leavesMark_whenCurrent fun root => ?_
  exact Checked.Ends.bind (Checked.ends_trivial _) fun _ _ => id

theorem leavesMark_visitPairs
    {σ : Type}
    (window : Range)
    (withIndentation : Bool)
    (visit : Visitor PairInfo σ)
    (state : σ) :
    index.LeavesMark
      (index.visitPairs live window withIndentation visit
        state) := by
  refine leavesMark_whenCurrent fun root => ?_
  exact Checked.Ends.bind (Checked.ends_trivial _) fun _ _ => id

/- No question takes away the mark. -/
theorem leavesMark_ask
    (query : Session.Query) :
    index.LeavesMark (index.ask live query) := by
  cases query with
  | brackets query =>
      exact (leavesMark_whenCurrentPure _).part (·.getD [])
  | visitBrackets query visit =>
      exact leavesMark_whenCurrentPure _
  | pairs window withIndentation =>
      refine Checked.Ends.bind
        (leavesMark_visitPairs window withIndentation _ _) ?_
      rintro ⟨flow, after⟩ hAfter
      cases flow with
      | none => exact hAfter
      | some flow => exact hAfter
  | visitPairs window withIndentation visit =>
      exact leavesMark_visitPairs window withIndentation _ _
  | before position =>
      exact (leavesMark_whenCurrentPure _).part Option.join
  | after position =>
      exact (leavesMark_whenCurrentPure _).part Option.join
  | matchAt position =>
      exact (leavesMark_whenCurrentPure _).part Option.join
  | enclosing position =>
      exact (leavesMark_whenCurrentPure _).part Option.join
  | pairedAt offset =>
      refine LeavesMark.part ?_ Option.join
      refine leavesMark_whenCurrent fun root => ?_
      cases index.content with
      | none => exact id
      | some content =>
          dsimp only
          split
          · exact id
          · refine Checked.Ends.bind
              (Checked.ends_trivial _) fun position _ => ?_
            refine Checked.Ends.bind
              (Checked.ends_trivial _) fun column _ => ?_
            exact Checked.Ends.bind
              (Checked.ends_trivial _) fun _ _ => id
  | pairedIn left right =>
      refine LeavesMark.part ?_
        fun found : Option (List PairedBracket) =>
          found.getD []
      refine leavesMark_whenCurrent fun root => ?_
      cases index.content with
      | none => exact id
      | some content =>
          exact Checked.Ends.bind
            (Checked.ends_trivial _) fun _ _ => id

end Index

end Bracketry

------------------------------------------------------------
-- Orderly Indexes
------------------------------------------------------------

namespace Bracketry

namespace Index

/-
  Edits are queued only where the index is marked, and none
  for a plain tree that is gone.
-/
structure IsOrderly
    (index : Index) :
    Prop where
  clean :
    index.isDirty = false →
      index.edits = [] ∧ index.plainEdits = []
  absent : index.plain = none → index.plainEdits = []

/- There is no work on an index for some content. -/
structure IsIdle
    (index : Index)
    (content : Content) :
    Prop where
  clean : index.isDirty = false
  edits : index.edits = []
  plainEdits : index.plainEdits = []
  version : index.version = some content.version
  classifiedJob : index.classifiedJob? content = none
  plainJob : index.plainJob? content = none

variable {index after : Index} {live : Option Nat}
variable {snapshot : Snapshot}

/- A question may set the mark and changes no queue. -/
theorem IsOrderly.ask
    {query : Session.Query}
    {answer : query.Answer}
    (h : index.IsOrderly)
    (hAsk : index.ask live query = .ok (answer, after)) :
    after.IsOrderly := by
  have hMark := (leavesMark_ask query).of_ok hAsk
  have hLike := isLike_ask hAsk
  rw [hLike]
  refine ⟨fun hClean => h.clean ?_, h.absent⟩
  by_contra hDirty
  rw [Bool.not_eq_false] at hDirty
  rw [hMark hDirty] at hClean
  cases hClean

/- What is queued leaves the plain tree as it is. -/
theorem plainEdits_of_queueEdits
    {edits : List Edit}
    {forPlain : Bool}
    (hQueue : index.queueEdits edits forPlain = .ok after)
    (hPlain : after.plain = none) :
    index.plain = none ∧
      after.plainEdits = index.plainEdits := by
  rcases Checked.bind_eq_ok_iff.1 hQueue with
    ⟨queued, _, hQueue⟩
  dsimp only at hQueue
  split at hQueue
  · rename_i hBoth
    rcases Checked.bind_eq_ok_iff.1 hQueue with
      ⟨plain, _, hQueue⟩
    cases hQueue
    dsimp only at hPlain
    rw [hPlain, Option.isSome_none, Bool.and_false] at hBoth
    cases hBoth
  · cases hQueue
    exact ⟨hPlain, rfl⟩

/- Edits that are queued with a mark are in order. -/
theorem IsOrderly.queueEdits
    {edits : List Edit}
    {forPlain : Bool}
    (h : index.IsOrderly)
    (hQueue : index.queueEdits edits forPlain = .ok after) :
    IsOrderly { after with isDirty := true } := by
  refine ⟨nofun, fun hPlain => ?_⟩
  rcases plainEdits_of_queueEdits hQueue hPlain with
    ⟨hBefore, hSame⟩
  exact hSame.trans (h.absent hBefore)

theorem IsOrderly.queueEdit
    {start stop : Position}
    {text : List Char}
    (h : index.IsOrderly)
    (hQueue : index.queueEdit start stop text = .ok after) :
    after.IsOrderly := by
  rcases Checked.bind_eq_ok_iff.1 hQueue with
    ⟨queued, hQueued, hQueue⟩
  cases hQueue
  exact h.queueEdits hQueued

theorem IsOrderly.queueLines
    {changed : List LineSpan}
    (h : index.IsOrderly)
    (hQueue : index.queueLines changed = .ok after) :
    after.IsOrderly := by
  unfold Index.queueLines at hQueue
  dsimp only at hQueue
  split at hQueue
  · cases hQueue
    exact h
  · rcases Checked.bind_eq_ok_iff.1 hQueue with
      ⟨queued, hQueued, hQueue⟩
    cases hQueue
    exact h.queueEdits hQueued

theorem IsOrderly.completeClassification
    (h : index.IsOrderly) :
    index.completeClassification.IsOrderly :=
  ⟨fun hClean => ⟨(h.clean hClean).1, rfl⟩, fun _ => rfl⟩

end Index

end Bracketry

------------------------------------------------------------
-- Flushes
------------------------------------------------------------

namespace Bracketry

namespace Index

variable {index after : Index} {snapshot : Snapshot}
variable {work : Option ParseJob} {content : Content}

theorem hasMoved_eq_false :
    index.hasMoved content = false ↔
      index.version = some content.version := by
  simp [hasMoved]

theorem classifiedJob?_eq_none :
    index.classifiedJob? content = none ↔
      index.classified.isSome = true ∧ index.edits = [] ∧
        index.version = some content.version := by
  rw [classifiedJob?, job?, ite_eq_right_iff,
    ← hasMoved_eq_false]
  simp only [reduceCtorEq, imp_false, Bool.not_eq_true,
    Bool.or_eq_false_iff, Option.isNone_eq_false_iff,
    Bool.not_eq_eq_eq_not, Bool.not_false, List.isEmpty_iff,
    and_assoc]

theorem plainJob?_eq_none :
    index.plainJob? content = none ↔
      (index.plain.isSome = true →
        index.plainEdits = [] ∧
          index.version = some content.version) := by
  rw [plainJob?, job?, ite_eq_right_iff, ← hasMoved_eq_false]
  simp only [reduceCtorEq, imp_false, Bool.and_eq_true,
    not_and, Bool.not_eq_true, Bool.or_eq_false_iff,
    Bool.not_eq_eq_eq_not, Bool.not_false, List.isEmpty_iff]

/- Empty queues at the right version are no work. -/
theorem isIdle_of
    (hClean : index.isDirty = false)
    (hTree : index.classified.isSome = true)
    (hEdits : index.edits = [])
    (hPlainEdits : index.plainEdits = [])
    (hVersion : index.version = some content.version) :
    index.IsIdle content where
  clean := hClean
  edits := hEdits
  plainEdits := hPlainEdits
  version := hVersion
  classifiedJob :=
    classifiedJob?_eq_none.2 ⟨hTree, hEdits, hVersion⟩
  plainJob :=
    plainJob?_eq_none.2 fun _ => ⟨hPlainEdits, hVersion⟩

/-
  The work on the trees leaves the queues alone.  It takes
  no tree away.
-/
structure HasQueuesOf
    (after index : Index) :
    Prop where
  edits : after.edits = index.edits
  plainEdits : after.plainEdits = index.plainEdits
  classified :
    index.classified.isSome = true →
      after.classified.isSome = true

theorem HasQueuesOf.trans
    {last : Index}
    (h : after.HasQueuesOf index)
    (hLast : last.HasQueuesOf after) :
    last.HasQueuesOf index where
  edits := hLast.edits.trans h.edits
  plainEdits := hLast.plainEdits.trans h.plainEdits
  classified hTree := hLast.classified (h.classified hTree)

theorem hasQueuesOf_updateClassified
    (h : index.updateClassified snapshot work = .ok after) :
    after.HasQueuesOf index ∧
      (work.isSome = true → after.classified.isSome = true) := by
  cases work with
  | none =>
      cases h
      exact ⟨⟨rfl, rfl, id⟩, nofun⟩
  | some job =>
      rcases Checked.bind_eq_ok_iff.1 h with
        ⟨⟨root, stats, parsed⟩, hParse, h⟩
      rcases Checked.bind_eq_ok_iff.1 hParse with
        ⟨⟨made, counts⟩, _, hParse⟩
      cases hParse
      cases h
      exact ⟨⟨rfl, rfl, fun _ => rfl⟩, fun _ => rfl⟩

theorem hasQueuesOf_updatePlain
    (h : index.updatePlain snapshot work = .ok after) :
    after.HasQueuesOf index := by
  cases work with
  | none =>
      cases h
      exact ⟨rfl, rfl, id⟩
  | some job =>
      rcases Checked.bind_eq_ok_iff.1 h with
        ⟨⟨root, stats, parsed⟩, hParse, h⟩
      rcases Checked.bind_eq_ok_iff.1 hParse with
        ⟨⟨made, counts⟩, _, hParse⟩
      cases hParse
      cases h
      exact ⟨rfl, rfl, id⟩

theorem hasQueuesOf_updateBoth
    {job : ParseJob}
    (h : index.updateBoth snapshot job = .ok after) :
    after.HasQueuesOf index ∧
      after.classified.isSome = true := by
  rcases Checked.bind_eq_ok_iff.1 h with
    ⟨⟨root, stats, parsed⟩, hParse, h⟩
  rcases Checked.bind_eq_ok_iff.1 hParse with
    ⟨⟨made, counts⟩, _, hParse⟩
  cases hParse
  cases h
  exact ⟨⟨rfl, rfl, fun _ => rfl⟩, rfl⟩

/- The work on one tree after the other. -/
theorem hasQueuesOf_updateEach
    {middle : Index}
    {plainWork : Option ParseJob}
    (hMiddle :
      index.updateClassified snapshot work = .ok middle)
    (hLast :
      middle.updatePlain snapshot plainWork = .ok after) :
    after.HasQueuesOf index ∧
      (work.isSome = true → after.classified.isSome = true) := by
  rcases hasQueuesOf_updateClassified hMiddle with
    ⟨hFirst, hTree⟩
  have hNext := hasQueuesOf_updatePlain hLast
  exact ⟨hFirst.trans hNext,
    fun hWork => hNext.classified (hTree hWork)⟩

/- Queues without those that are worked on. -/
def withoutQueues
    (index : Index)
    (work plainWork : Option ParseJob) :
    Index :=
  { index with
    edits := if work.isSome then [] else index.edits
    plainEdits :=
      if plainWork.isSome then [] else index.plainEdits }

/-
  An update does nothing where there is no work.  Otherwise
  it takes the work out of the queues.
-/
theorem update_cases
    (h : index.update snapshot = .ok after) :
    (index.classifiedJob? snapshot.content = none ∧
        index.plainJob? snapshot.content = none ∧
        after = index) ∨
      ∃ last : Index,
        last.HasQueuesOf
            (index.withoutQueues
              (index.classifiedJob? snapshot.content)
              (index.plainJob? snapshot.content)) ∧
          ((index.classifiedJob? snapshot.content).isSome =
              true →
            last.classified.isSome = true) ∧
          after =
            { last with
              version := some snapshot.content.version
              content := some snapshot.content } := by
  unfold update at h
  generalize index.classifiedJob? snapshot.content = work at *
  generalize index.plainJob? snapshot.content = plainWork at *
  rcases work with _ | job <;> rcases plainWork with _ | other
  · cases h
    exact .inl ⟨rfl, rfl, rfl⟩
  · rcases Checked.bind_eq_ok_iff.1 h with ⟨middle, hMiddle, h⟩
    rcases Checked.bind_eq_ok_iff.1 h with ⟨last, hLast, h⟩
    cases h
    rcases hasQueuesOf_updateEach hMiddle hLast with
      ⟨hQueues, hTree⟩
    exact .inr ⟨last, hQueues, hTree, rfl⟩
  · rcases Checked.bind_eq_ok_iff.1 h with ⟨middle, hMiddle, h⟩
    rcases Checked.bind_eq_ok_iff.1 h with ⟨last, hLast, h⟩
    cases h
    rcases hasQueuesOf_updateEach hMiddle hLast with
      ⟨hQueues, hTree⟩
    exact .inr ⟨last, hQueues, hTree, rfl⟩
  · simp only [Option.isNone_some, Bool.and_self] at h
    rw [if_neg (by simp)] at h
    split at h
    · rcases Checked.bind_eq_ok_iff.1 h with ⟨last, hLast, h⟩
      cases h
      rcases hasQueuesOf_updateBoth hLast with ⟨hQueues, hTree⟩
      exact .inr ⟨last, hQueues, fun _ => hTree, rfl⟩
    · rcases Checked.bind_eq_ok_iff.1 h with
        ⟨middle, hMiddle, h⟩
      rcases Checked.bind_eq_ok_iff.1 h with ⟨last, hLast, h⟩
      cases h
      rcases hasQueuesOf_updateEach hMiddle hLast with
        ⟨hQueues, hTree⟩
      exact .inr ⟨last, hQueues, hTree, rfl⟩

/- A flush leaves no work. -/
theorem IsOrderly.isIdle_flush
    (h : index.IsOrderly)
    (hFlush : index.flush (some snapshot) = .ok after) :
    after.IsIdle snapshot.content := by
  rcases Checked.bind_eq_ok_iff.1 hFlush with
    ⟨last, hUpdate, hFlush⟩
  cases hFlush
  have hRest :
      index.classifiedJob? snapshot.content = none →
        index.classified.isSome = true ∧ index.edits = [] ∧
          index.version = some snapshot.content.version :=
    classifiedJob?_eq_none.1
  have hPlainRest :
      index.plainJob? snapshot.content = none →
        index.plain.isSome = true →
          index.plainEdits = [] ∧
            index.version = some snapshot.content.version :=
    plainJob?_eq_none.1
  rcases update_cases hUpdate with
    ⟨hNone, hPlainNone, hSame⟩ | ⟨last, hQueues, hTree, rfl⟩
  · rw [hSame]
    rcases hRest hNone with ⟨hTree, hEdits, hVersion⟩
    refine isIdle_of rfl hTree hEdits ?_ hVersion
    cases hPlain : index.plain with
    | none => exact h.absent hPlain
    | some root =>
        exact (hPlainRest hPlainNone (by rw [hPlain]; rfl)).1
  · refine isIdle_of rfl ?_ (hQueues.edits.trans ?_)
      (hQueues.plainEdits.trans ?_) rfl
    · cases hJob : index.classifiedJob? snapshot.content with
      | none => exact hQueues.classified (hRest hJob).1
      | some job => exact hTree (by rw [hJob]; rfl)
    · rw [withoutQueues]
      cases hJob : index.classifiedJob? snapshot.content with
      | none => exact (hRest hJob).2.1
      | some job => rfl
    · rw [withoutQueues]
      cases hJob : index.plainJob? snapshot.content with
      | some job => rfl
      | none =>
          cases hPlain : index.plain with
          | none => exact h.absent hPlain
          | some root =>
              exact (hPlainRest hJob (by rw [hPlain]; rfl)).1

/- Where there is no work, a flush does nothing. -/
theorem IsIdle.flush_eq
    (h : index.IsIdle snapshot.content) :
    index.flush (some snapshot) = .ok index := by
  have hIndex : { index with isDirty := false } = index := by
    rw [← h.clean]
  rw [Index.flush, update, h.classifiedJob, h.plainJob]
  exact congrArg Except.ok hIndex

theorem IsIdle.isOrderly
    (h : index.IsIdle content) :
    index.IsOrderly :=
  ⟨fun _ => ⟨h.edits, h.plainEdits⟩, fun _ => h.plainEdits⟩

end Index

end Bracketry

------------------------------------------------------------
-- Orderly Sessions
------------------------------------------------------------

namespace Bracketry

namespace Session

/-
  Edits are queued only where the index is marked, and none
  for a plain tree that is gone.  A flush leaves no work,
  and so another one behind it changes nothing at all.
-/
structure IsOrderly
    (session : Session) :
    Prop where
  clean :
    session.index.isDirty = false →
      session.index.edits = [] ∧
        session.index.plainEdits = []
  absent :
    session.index.plain = none →
      session.index.plainEdits = []
  flushed :
    ∀ flushed,
      session.flush = .ok flushed →
        flushed.index.IsIdle flushed.live.content ∧
          flushed.index.version = flushed.liveVersion ∧
          flushed.flush = .ok flushed

variable {session next : Session}

theorem isOrderly_of_index
    (h : session.index.IsOrderly) :
    session.IsOrderly where
  clean := h.clean
  absent := h.absent
  flushed := by
    intro flushed hFlush
    rcases Checked.bind_eq_ok_iff.1 hFlush with
      ⟨index, hIndex, hFlush⟩
    cases hFlush
    have hIdle := h.isIdle_flush hIndex
    have hSame : index.flush (some session.live) = .ok index :=
      hIdle.flush_eq
    refine ⟨hIdle, hIdle.version, ?_⟩
    change
      (do
        let index ← index.flush (some session.live)
        return { session with index := index }) =
        .ok { session with index := index }
    rw [hSame]
    rfl

theorem isOrderly_step
    {step : Step}
    (h : session.index.IsOrderly)
    (hStep : session.step step = .ok next) :
    next.index.IsOrderly := by
  cases step with
  | edit start stop text =>
      rcases Checked.bind_eq_ok_iff.1 hStep with
        ⟨replaced, hReplaced, hStep⟩
      rcases Checked.bind_eq_ok_iff.1 hReplaced with
        ⟨document, _, hReplaced⟩
      cases hReplaced
      rcases Checked.bind_eq_ok_iff.1 hStep with
        ⟨index, hIndex, hStep⟩
      cases hStep
      exact h.queueEdit hIndex
  | classify spans changed =>
      rcases Checked.bind_eq_ok_iff.1 hStep with
        ⟨index, hIndex, hStep⟩
      cases hStep
      exact h.queueLines hIndex
  | declassify =>
      cases hStep
      exact h
  | complete =>
      cases hStep
      exact h.completeClassification
  | flush =>
      rcases Checked.bind_eq_ok_iff.1 hStep with
        ⟨index, hIndex, hStep⟩
      cases hStep
      exact (h.isIdle_flush hIndex).isOrderly

theorem isOrderly_perform
    {deed : Deed}
    (h : session.index.IsOrderly)
    (hDeed : session.perform deed = .ok next) :
    next.index.IsOrderly := by
  cases deed with
  | step step => exact isOrderly_step h hDeed
  | silent start stop text =>
      rcases Checked.bind_eq_ok_iff.1 hDeed with
        ⟨document, _, hDeed⟩
      cases hDeed
      exact h
  | notice changed =>
      rcases Checked.bind_eq_ok_iff.1 hDeed with
        ⟨index, hIndex, hDeed⟩
      cases hDeed
      exact h.queueLines hIndex
  | ask query =>
      rcases Checked.bind_eq_ok_iff.1 hDeed with
        ⟨⟨answer, after⟩, hAsk, hDeed⟩
      cases hDeed
      rcases Checked.bind_eq_ok_iff.1 hAsk with
        ⟨⟨answer, index⟩, hIndex, hAsk⟩
      cases hAsk
      exact h.ask hIndex

/- There is no work on the index of a new session. -/
theorem isIdle_ofShared
    {table : TokenTable}
    {document : SharedDocument}
    (h : ofShared table document = .ok session) :
    session.index.IsIdle document.snapshot.content ∧
      session.document = document := by
  rcases exists_of_ofShared h with ⟨index, hIndex, rfl⟩
  rcases Index.exists_of_ofSnapshot hIndex with
    ⟨made, stats, _, rfl⟩
  exact ⟨Index.isIdle_of rfl rfl rfl rfl rfl, rfl⟩

/- Whatever is done with a session, its queues are in order. -/
theorem isOrderly_performAll
    {table : TokenTable}
    {document : SharedDocument}
    {deeds : List Deed}
    {start last : Session}
    (hStart : ofShared table document = .ok start)
    (hDeeds : start.performAll deeds = .ok last) :
    last.IsOrderly := by
  refine isOrderly_of_index ?_
  have hEnds :
      Checked.Ends (fun _ => True)
        (fun session : Session => session.index.IsOrderly)
        (start.performAll deeds) := by
    refine Checked.Ends.foldlM
      (isIdle_ofShared hStart).1.isOrderly ?_
    intro session deed _ hOrderly
    exact Checked.ends_iff.2
      ⟨fun next hNext => isOrderly_perform hOrderly hNext,
        fun _ _ => trivial⟩
  exact hEnds.of_ok hDeeds

/-
  A round bracket is closed without notice, which a question
  finds out, and the plain tree is dropped with an edit that
  was queued for it.
-/
theorem isOrderly_performAll_parens :
    let table :=
      TokenTable.ofDeclaration ⟨[⟨['('], [')']⟩], none⟩
    let document := SharedDocument.ofDocument
      (Document.ofText ['a', '(', 'b'])
    let deeds : List Deed :=
      [.silent ⟨0, 3⟩ ⟨0, 3⟩ [')'], .ask (.matchAt ⟨0, 1⟩),
        .step (.edit ⟨0, 0⟩ ⟨0, 1⟩ ['\n']), .step .complete,
        .step .flush, .notice [⟨0, 0⟩]]
    ∃ start last,
      ofShared table document = .ok start ∧
        start.performAll deeds = .ok last ∧
        last.index.isDirty = true ∧
        last.IsOrderly := by
  intro table document deeds
  have hRun :
      (ofShared table document >>= (performAll · deeds)
        ).toOption.any (fun last => last.index.isDirty) =
          true := by
    decide +kernel
  rcases Checked.exists_of_any hRun with ⟨last, hLast, hDirty⟩
  rcases Checked.bind_eq_ok_iff.1 hLast with
    ⟨start, hStart, hDeeds⟩
  exact ⟨start, last, hStart, hDeeds, hDirty,
    isOrderly_performAll hStart hDeeds⟩

end Session

end Bracketry
