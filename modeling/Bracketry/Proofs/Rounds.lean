import Bracketry.Proofs.Deeds
import Bracketry.Proofs.Synced
import Bracketry.Proofs.Weaving

/-
  Rounds of changes that an index is not always told about.

  A round is a number of changes and then a flush.  An index
  that is told of no change in a round finds that the
  content has moved, and both of its trees are parsed from
  scratch.  An index that is told of all of them brings both
  trees up to date.  So as long as no round mixes the two,
  both trees have the outline of a new session behind every
  flush.  A round that does mix them leaves a tree of a text
  that is gone.

  Key definitions include:
    * `Session.round`, `Session.rounds`
    * `Session.IsUnmixed`
    * `Document.AllowsChanges`
    * `Session.IsAhead`

  Main declarations:
    * `Session.IsSynced.round`
    * `Session.rounds_isFresh`
-/

------------------------------------------------------------
-- Changes
------------------------------------------------------------

namespace Bracketry

namespace Session

/- Make changes, and bring the index up to date. -/
def round
    (session : Session)
    (changes : List Deed) :
    Checked Session := do
  let session ← session.performAll changes
  session.flush

/- Rounds one after the other. -/
def rounds
    (session : Session)
    (rounds : List (List Deed)) :
    Checked Session :=
  rounds.foldlM round session

/- The index is told of all of the changes, or of none. -/
def IsUnmixed
    (changes : List Deed) :
    Prop :=
  (∀ change ∈ changes, change.isTold = true) ∨
    ∀ change ∈ changes, change.isSilent = true

instance
    (changes : List Deed) :
    Decidable (IsUnmixed changes) :=
  inferInstanceAs (Decidable (_ ∨ _))

end Session

namespace Document

/-
  A change is between two positions of the document, and its
  result is admitted, or it announces lines.  These may lie
  behind the end of the document, up to the given number.
-/
def AllowsChange
    (document : Document)
    (table : TokenTable)
    (count : Nat) :
    Session.Deed → Prop
  | .step (.edit start stop text)
  | .silent start stop text =>
      document.AllowsReplace table count start stop text
  | .notice changed => ∀ span ∈ changed, span.last ≤ count
  | _ => False

instance
    (document : Document)
    (table : TokenTable)
    (count : Nat) :
    (change : Session.Deed) →
      Decidable (document.AllowsChange table count change)
  | .step (.edit start stop text)
  | .silent start stop text =>
      inferInstanceAs
        (Decidable
          (document.AllowsReplace table count start stop text))
  | .notice _ => inferInstanceAs (Decidable (∀ _ ∈ _, _))
  | .step (.classify _ _) => .isFalse id
  | .step .declassify => .isFalse id
  | .step .complete => .isFalse id
  | .step .flush => .isFalse id
  | .ask _ => .isFalse id

/- Each change is allowed when it is made. -/
def AllowsChanges
    (document : Document)
    (table : TokenTable)
    (count : Nat)
    (changes : List Session.Deed) :
    Prop :=
  AllowsEach (AllowsChange · table count) behind document
    changes

instance
    (document : Document)
    (table : TokenTable)
    (count : Nat)
    (changes : List Session.Deed) :
    Decidable (document.AllowsChanges table count changes) :=
  decidableAllowsEach document changes

theorem allowsChanges_append
    {document : Document}
    {table : TokenTable}
    {count : Nat}
    {a b : List Session.Deed} :
    document.AllowsChanges table count (a ++ b) ↔
      document.AllowsChanges table count a ∧
        (document.behindAll a).AllowsChanges table count b :=
  allowsEach_append

end Document

end Bracketry

------------------------------------------------------------
-- What Changes Keep
------------------------------------------------------------

namespace Bracketry

/- Queued edits do not change the trees of an index. -/
structure Index.HasTreesOf
    (after before : Index) :
    Prop where
  table : after.table = before.table
  plain : after.plain = before.plain
  classified : after.classified = before.classified
  version : after.version = before.version

namespace Index

variable {index next : Index}

theorem hasTreesOf_queueEdits
    {edits : List Edit}
    {forPlain : Bool}
    (h : index.queueEdits edits forPlain = .ok next) :
    next.HasTreesOf index := by
  rcases Checked.bind_eq_ok_iff.1 h with ⟨queued, _, h⟩
  dsimp only at h
  split_ifs at h
  · rcases Checked.bind_eq_ok_iff.1 h with ⟨plain, _, h⟩
    cases h
    exact ⟨rfl, rfl, rfl, rfl⟩
  · cases h
    exact ⟨rfl, rfl, rfl, rfl⟩

theorem hasTreesOf_queueEdit
    {start stop : Position}
    {text : List Char}
    (h : index.queueEdit start stop text = .ok next) :
    next.HasTreesOf index := by
  rcases Checked.bind_eq_ok_iff.1 h with ⟨queued, hQueued, h⟩
  cases h
  rcases hasTreesOf_queueEdits hQueued with
    ⟨hTable, hPlain, hClassified, hVersion⟩
  exact ⟨hTable, hPlain, hClassified, hVersion⟩

theorem hasTreesOf_queueLines
    {changed : List LineSpan}
    (h : index.queueLines changed = .ok next) :
    next.HasTreesOf index := by
  unfold queueLines at h
  simp only at h
  split_ifs at h
  · cases h
    exact ⟨rfl, rfl, rfl, rfl⟩
  · rcases Checked.bind_eq_ok_iff.1 h with ⟨queued, hQueued, h⟩
    cases h
    rcases hasTreesOf_queueEdits hQueued with
      ⟨hTable, hPlain, hClassified, hVersion⟩
    exact ⟨hTable, hPlain, hClassified, hVersion⟩

end Index

namespace Session

/-
  Changes keep the trees, and whatever they do to the
  document raises its version.
-/
structure IsAhead
    (after before : Session) :
    Prop where
  index : after.index.HasTreesOf before.index
  spans : after.document.spans = before.document.spans
  document :
    after.document.document = before.document.document ∨
      before.document.document.version <
        after.document.document.version

theorem IsAhead.refl
    (session : Session) :
    session.IsAhead session :=
  ⟨⟨rfl, rfl, rfl, rfl⟩, rfl, .inl rfl⟩

theorem IsAhead.trans
    {first second third : Session}
    (h : second.IsAhead first)
    (hNext : third.IsAhead second) :
    third.IsAhead first where
  index :=
    ⟨hNext.index.table.trans h.index.table,
      hNext.index.plain.trans h.index.plain,
      hNext.index.classified.trans h.index.classified,
      hNext.index.version.trans h.index.version⟩
  spans := hNext.spans.trans h.spans
  document := by
    rcases hNext.document with hSame | hLess
    · rw [hSame]
      exact h.document
    · rcases h.document with hSame | hLower
      · rw [← hSame]
        exact .inr hLess
      · exact .inr (Nat.lt_trans hLower hLess)

/- At the same version, the document is the same. -/
theorem IsAhead.document_eq
    {after before : Session}
    (h : after.IsAhead before)
    (hVersion :
      after.document.document.version =
        before.document.document.version) :
    after.document.document = before.document.document := by
  rcases h.document with hSame | hLess
  · exact hSame
  · omega

variable {session next : Session}

theorem isAhead_replace
    {start stop : Position}
    {text : List Char}
    (h : session.replace start stop text = .ok next) :
    next.IsAhead session := by
  rcases Checked.bind_eq_ok_iff.1 h with ⟨shared, hShared, h⟩
  cases h
  rcases Checked.bind_eq_ok_iff.1 hShared with
    ⟨document, hDocument, hShared⟩
  cases hShared
  rcases Checked.bind_eq_ok_iff.1 hDocument with
    ⟨edited, _, hDocument⟩
  cases hDocument
  exact ⟨⟨rfl, rfl, rfl, rfl⟩, rfl,
    .inr (Nat.lt_succ_self _)⟩

theorem isAhead_perform
    {change : Deed}
    (hChange : change.isTold = true ∨ change.isSilent = true)
    (h : session.perform change = .ok next) :
    next.IsAhead session := by
  cases change with
  | ask query => simp [Deed.isTold, Deed.isSilent] at hChange
  | silent start stop text => exact isAhead_replace h
  | notice changed =>
      rcases Checked.bind_eq_ok_iff.1 h with ⟨index, hIndex, h⟩
      cases h
      exact ⟨Index.hasTreesOf_queueLines hIndex, rfl, .inl rfl⟩
  | step step =>
      cases step with
      | edit start stop text =>
          rcases Checked.bind_eq_ok_iff.1 h with
            ⟨replaced, hReplaced, h⟩
          rcases Checked.bind_eq_ok_iff.1 h with
            ⟨index, hIndex, h⟩
          cases h
          have hAhead := isAhead_replace hReplaced
          refine hAhead.trans ⟨?_, rfl, .inl rfl⟩
          exact Index.hasTreesOf_queueEdit hIndex
      | _ => simp [Deed.isTold, Deed.isSilent] at hChange

theorem isAhead_performAll
    {changes : List Deed}
    (hUnmixed : IsUnmixed changes)
    (h : session.performAll changes = .ok next) :
    next.IsAhead session := by
  have hChanges :
      ∀ change ∈ changes,
        change.isTold = true ∨ change.isSilent = true := by
    rcases hUnmixed with hTold | hSilent
    · exact fun change hMem => .inl (hTold change hMem)
    · exact fun change hMem => .inr (hSilent change hMem)
  clear hUnmixed
  induction changes generalizing session with
  | nil =>
      cases h
      exact .refl _
  | cons change rest ih =>
      rw [performAll, List.foldlM_cons] at h
      rcases Checked.bind_eq_ok_iff.1 h with
        ⟨middle, hMiddle, h⟩
      rw [List.forall_mem_cons] at hChanges
      exact (isAhead_perform hChanges.1 hMiddle).trans
        (ih h hChanges.2)

end Session

end Bracketry

------------------------------------------------------------
-- Told Changes
------------------------------------------------------------

namespace Bracketry

namespace Session

variable {table : TokenTable} {count : Nat}
variable {session : Session}

/- The index takes a change that it is told about. -/
theorem IsTold.perform
    {change : Deed}
    (h : session.IsTold table count)
    (hTold : change.isTold = true)
    (hAllows :
      session.document.document.AllowsChange table count
        change) :
    ∃ next,
      session.perform change = .ok next ∧
        next.IsTold table count ∧
        next.document.document =
          session.document.document.behind change := by
  cases change with
  | ask query => cases hTold
  | silent start stop text => cases hTold
  | step step =>
      cases step with
      | edit start stop text => exact h.applyEdit hAllows
      | _ => cases hTold
  | notice changed =>
      rcases h.holds.queueLines
          (TextChar.queues_lines h.text hAllows) with
        ⟨index, hIndex, hHolds, hTable, hPlain⟩
      refine ⟨{ session with index := index }, ?_,
        ⟨hTable.trans h.table_eq, h.spans, h.text,
          hPlain ▸ h.plain, hHolds⟩, rfl⟩
      simp [Session.perform, Session.queueLines, hIndex, bind,
        Except.bind, pure, Except.pure]

theorem IsTold.performAll
    {changes : List Deed}
    (h : session.IsTold table count)
    (hTold : ∀ change ∈ changes, change.isTold = true)
    (hAllows :
      session.document.document.AllowsChanges table count
        changes) :
    ∃ next,
      session.performAll changes = .ok next ∧
        next.IsTold table count ∧
        next.document.document =
          session.document.document.behindAll changes :=
  exists_foldlM (fun session => session.document.document)
    (fun hMem hSession hChange =>
      hSession.perform (hTold _ hMem) hChange) h hAllows

end Session

end Bracketry

------------------------------------------------------------
-- Silent Changes
------------------------------------------------------------

namespace Bracketry

namespace Session

variable {table : TokenTable} {count : Nat}
variable {session : Session}

/- Only the document takes a change that is silent. -/
theorem perform_of_silent
    {change : Deed}
    (hText : table.Admits count session.text)
    (hSilent : change.isSilent = true)
    (hAllows :
      session.document.document.AllowsChange table count
        change) :
    ∃ next,
      session.perform change = .ok next ∧
        next.index = session.index ∧
        table.Admits count next.text ∧
        next.document.document =
          session.document.document.behind change := by
  cases change with
  | step step => cases hSilent
  | notice changed => cases hSilent
  | ask query => cases hSilent
  | silent start stop text =>
      exact ⟨_, replace_eq hText hAllows, rfl, hAllows.admits,
        rfl⟩

theorem performAll_of_silent
    {changes : List Deed}
    (hText : table.Admits count session.text)
    (hSilent : ∀ change ∈ changes, change.isSilent = true)
    (hAllows :
      session.document.document.AllowsChanges table count
        changes) :
    ∃ next,
      session.performAll changes = .ok next ∧
        (next.index = session.index ∧
          table.Admits count next.text) ∧
        next.document.document =
          session.document.document.behindAll changes := by
  refine exists_foldlM
    (fun session => session.document.document) ?_
    ⟨rfl, hText⟩ hAllows
  rintro before change hMem ⟨hIndex, hBefore⟩ hChange
  rcases perform_of_silent hBefore (hSilent change hMem)
      hChange with
    ⟨next, hNext, hSame, hNextText, hDocument⟩
  exact ⟨next, hNext, ⟨hSame.trans hIndex, hNextText⟩,
    hDocument⟩

end Session

end Bracketry

------------------------------------------------------------
-- Rounds
------------------------------------------------------------

namespace Bracketry

namespace Session

variable {table : TokenTable} {count : Nat}
variable {session : Session}

/-
  A flush syncs an index that was told of no change since it
  was synced.  If the document is another one, its version
  tells so, and both trees are made from scratch.
-/
theorem IsSynced.flush_of_silent
    {before : Session}
    (hSymbolic : table.IsSymbolic)
    (hSolid : table.IsSolid)
    (h : before.IsSynced table count)
    (hAhead : session.IsAhead before)
    (hIndex : session.index = before.index)
    (hText : table.Admits count session.text) :
    ∃ next,
      session.flush = .ok next ∧ next.IsSynced table count ∧
        next.document = session.document := by
  have hTable : session.index.table = table :=
    hIndex ▸ h.table_eq
  have hSpans : session.document.spans = none :=
    hAhead.spans.trans h.spans
  have hCovers :=
    covers_live hSymbolic hSolid hTable hSpans hText
  have hPlainCovers := hCovers
  have hNone : session.live.spans = none := hSpans
  rw [hNone] at hPlainCovers
  -- Nothing is queued, and a tree is only known to follow the
  -- text if the version has not moved.
  let Waits : Node → List Edit → Prop := fun root edits =>
    edits = [] ∧
      (session.index.hasMoved session.live.content = false →
        TextChar.Follows table count session.text root [])
  have hStay :
      session.index.hasMoved session.live.content = false →
        before.text = session.text := by
    intro hMoved
    have hVersion := Index.version_of_not_moved hMoved
    rw [hIndex, h.version] at hVersion
    have hSame :=
      hAhead.document_eq (Option.some.inj hVersion).symm
    exact congrArg Document.text hSame.symm
  have hWaits :
      ∀ root edits,
        TextChar.Follows table count before.text root edits →
          edits = [] → Waits root edits := by
    rintro root _ hRoot rfl
    exact ⟨rfl, fun hMoved => hStay hMoved ▸ hRoot⟩
  have hHolds : session.index.Holds Waits Waits := by
    rw [hIndex]
    refine ⟨fun root hRoot => ?_, ?_⟩
    · exact hWaits root _ (h.holds.plain root hRoot)
        (h.settled.plain h.plain)
    · rcases h.holds.classified with ⟨root, hRoot, hKnown⟩
      exact ⟨root, hRoot,
        hWaits root _ hKnown h.settled.classified⟩
  have hFlush :
      ∃ index,
        session.index.flush (some session.live) = .ok index ∧
          index.Holds (TextChar.Follows table count session.text)
            (TextChar.Follows table count session.text) ∧
          session.index.IsFlushed index
            session.live.content := by
    refine hHolds.flushTo ?_ ?_ (fun _ _ hRoot => hRoot) ?_
    · rintro root _ ⟨rfl, _⟩
      exact hPlainCovers.makes_fresh
    · rintro root _ ⟨rfl, _⟩
      exact hCovers.makes_fresh
    · intro hMoved root
      exact ⟨fun hRoot => hRoot.2 hMoved,
        fun hRoot => hRoot.2 hMoved⟩
  rcases hFlush with ⟨index, hIndexFlush, hNew, hFlushed⟩
  exact ⟨_, flush_eq_ok hIndexFlush,
    isSynced_of_flushed hTable hSpans hText
      (hIndex ▸ h.plain) hNew hFlushed, rfl⟩

/-
  Changes that are not mixed succeed, and so does a flush
  behind them.
-/
theorem IsSynced.performAll
    {changes : List Deed}
    (hSymbolic : table.IsSymbolic)
    (hSolid : table.IsSolid)
    (h : session.IsSynced table count)
    (hUnmixed : IsUnmixed changes)
    (hAllows :
      session.document.document.AllowsChanges table count
        changes) :
    ∃ now next,
      session.performAll changes = .ok now ∧
        now.document.document =
          session.document.document.behindAll changes ∧
        now.flush = .ok next ∧ next.IsSynced table count ∧
        next.document = now.document := by
  rcases hUnmixed with hTold | hSilent
  · rcases h.toIsTold.performAll hTold hAllows with
      ⟨now, hNow, hTrees, hDocument⟩
    rcases hTrees.flush hSymbolic hSolid with
      ⟨next, hNext, hSynced, hSame⟩
    exact ⟨now, next, hNow, hDocument, hNext, hSynced, hSame⟩
  · rcases performAll_of_silent h.text hSilent hAllows with
      ⟨now, hNow, ⟨hIndex, hText⟩, hDocument⟩
    rcases h.flush_of_silent hSymbolic hSolid
        (isAhead_performAll (.inr hSilent) hNow) hIndex
        hText with
      ⟨next, hNext, hSynced, hSame⟩
    exact ⟨now, next, hNow, hDocument, hNext, hSynced,
      hSame⟩

theorem IsSynced.round
    {changes : List Deed}
    (hSymbolic : table.IsSymbolic)
    (hSolid : table.IsSolid)
    (h : session.IsSynced table count)
    (hUnmixed : IsUnmixed changes)
    (hAllows :
      session.document.document.AllowsChanges table count
        changes) :
    ∃ next,
      session.round changes = .ok next ∧
        next.IsSynced table count ∧
        next.document.document =
          session.document.document.behindAll changes := by
  rcases h.performAll hSymbolic hSolid hUnmixed hAllows with
    ⟨now, next, hNow, hDocument, hNext, hSynced, hSame⟩
  refine ⟨next, ?_, hSynced, ?_⟩
  · rw [Session.round, hNow]
    exact hNext
  · rw [hSame, hDocument]

theorem IsSynced.rounds
    {rounds : List (List Deed)}
    (hSymbolic : table.IsSymbolic)
    (hSolid : table.IsSolid)
    (h : session.IsSynced table count)
    (hUnmixed : ∀ round ∈ rounds, IsUnmixed round)
    (hAllows :
      session.document.document.AllowsChanges table count
        rounds.flatten) :
    ∃ last,
      session.rounds rounds = .ok last ∧
        last.IsSynced table count ∧
        last.document.document =
          session.document.document.behindAll
            rounds.flatten := by
  induction rounds generalizing session with
  | nil => exact ⟨session, rfl, h, rfl⟩
  | cons first rest ih =>
      rw [List.forall_mem_cons] at hUnmixed
      rw [List.flatten_cons, Document.allowsChanges_append]
        at hAllows
      rcases h.round hSymbolic hSolid hUnmixed.1 hAllows.1 with
        ⟨next, hNext, hSynced, hDocument⟩
      rw [← hDocument] at hAllows
      rcases ih hSynced hUnmixed.2 hAllows.2 with
        ⟨last, hLast, hEnd, hSame⟩
      refine ⟨last, ?_, hEnd, ?_⟩
      · rw [Session.rounds, List.foldlM_cons, hNext]
        exact hLast
      · rw [hSame, hDocument, List.flatten_cons,
          Document.behindAll, Document.behindAll,
          Document.behindAll, List.foldl_append]

end Session

end Bracketry

------------------------------------------------------------
-- Trees Behind Rounds
------------------------------------------------------------

namespace Bracketry

namespace Session

variable {table : TokenTable}

/-
  At the version of the document, changes that were not
  flushed leave the trees fresh.
-/
theorem IsFresh.of_isAhead
    {session next : Session}
    (h : session.IsFresh table)
    (hAhead : next.IsAhead session)
    (hSession : session.index.version = session.liveVersion)
    (hVersion : next.index.version = next.liveVersion) :
    next.IsFresh table := by
  have hDocument :
      next.document.document = session.document.document := by
    refine hAhead.document_eq ?_
    have hSame := hAhead.index.version
    rw [hVersion, hSession] at hSame
    exact Option.some.inj hSame
  have hText : next.text = session.text :=
    congrArg Document.text hDocument
  have hCurrent :
      next.index.current? = session.index.current? := by
    rw [Index.current?, Index.current?, hAhead.index.plain,
      hAhead.index.classified]
  refine ⟨?_, ?_⟩
  · rw [hText, hCurrent]
    exact h.current
  · rw [hText, hAhead.index.classified]
    exact h.classified

/-
  Behind every flush of rounds that are not mixed, both
  trees have the outline of a new session.  Whatever changes
  follow, they do so as long as the index is found at the
  version of the document.
-/
theorem rounds_isFresh
    {declaration : BracketDeclaration}
    {document : Document}
    {count : Nat}
    {rounds : List (List Deed)}
    {pending : List Deed}
    (hSymbolic : declaration.IsSymbolic)
    (hText :
      (TokenTable.ofDeclaration declaration).Admits count
        document.text)
    (hUnmixed : ∀ round ∈ rounds, IsUnmixed round)
    (hPending : IsUnmixed pending)
    (hAllows :
      document.AllowsChanges
        (TokenTable.ofDeclaration declaration) count
        (rounds.flatten ++ pending)) :
    ∃ start flushed now,
      ofDocument (TokenTable.ofDeclaration declaration)
          document = .ok start ∧
        start.rounds rounds = .ok flushed ∧
        flushed.document.document =
          document.behindAll rounds.flatten ∧
        flushed.index.version = flushed.liveVersion ∧
        flushed.IsFresh
          (TokenTable.ofDeclaration declaration) ∧
        flushed.performAll pending = .ok now ∧
        (now.index.version = now.liveVersion →
          now.IsFresh
            (TokenTable.ofDeclaration declaration)) := by
  have hTable :=
    TokenTable.isSymbolic_ofDeclaration hSymbolic
  have hSolid := TokenTable.isSolid_ofDeclaration declaration
  rw [Document.allowsChanges_append] at hAllows
  rcases exists_ofDocument hTable hSolid hText with
    ⟨start, hStart, hSynced, hDocument⟩
  rw [← hDocument] at hAllows
  rcases hSynced.rounds hTable hSolid hUnmixed hAllows.1 with
    ⟨flushed, hRounds, hFlushed, hSame⟩
  rw [← hSame] at hAllows
  rcases hFlushed.performAll hTable hSolid hPending
      hAllows.2 with
    ⟨now, _, hNow, _, _, _, _⟩
  have hFresh := hFlushed.isFresh hTable hSolid
  refine ⟨start, flushed, now, hStart, hRounds, ?_,
    hFlushed.version, hFresh, hNow, ?_⟩
  · rw [hSame, hDocument]
  · exact hFresh.of_isAhead (isAhead_performAll hPending hNow)
      hFlushed.version

/-
  Brackets are changed silently between two rounds, the first
  of which is flushed with an edit and with lines that are
  classified anew.
-/
theorem rounds_isFresh_brackets :
    let declaration : BracketDeclaration :=
      ⟨[⟨['('], [')']⟩, ⟨['['], [']']⟩, ⟨['\x7b'], ['\x7d']⟩],
        none⟩
    let table := TokenTable.ofDeclaration declaration
    let document :=
      Document.ofText ['(', ')', ' ', 'a', '\n', 'b']
    let rounds : List (List Deed) :=
      [[.step (.edit ⟨1, 1⟩ ⟨1, 1⟩ [']']), .notice [⟨0, 1⟩]],
        [.silent ⟨0, 0⟩ ⟨0, 2⟩ ['[', '\x7b']]]
    let pending : List Deed := [.notice [⟨1, 1⟩]]
    declaration.IsSymbolic ∧
      table.Admits 1 document.text ∧
      (∀ round ∈ rounds, IsUnmixed round) ∧
      IsUnmixed pending ∧
      document.AllowsChanges table 1
        (rounds.flatten ++ pending) ∧
      ∃ start flushed now,
        ofDocument table document = .ok start ∧
          start.rounds rounds = .ok flushed ∧
          flushed.document.document =
            document.behindAll rounds.flatten ∧
          flushed.index.version = flushed.liveVersion ∧
          flushed.IsFresh table ∧
          flushed.performAll pending = .ok now ∧
          (now.index.version = now.liveVersion →
            now.IsFresh table) := by
  intro declaration table document rounds pending
  have hSymbolic : declaration.IsSymbolic := by decide
  have hText : table.Admits 1 document.text := by
    decide +kernel
  have hUnmixed : ∀ round ∈ rounds, IsUnmixed round := by
    decide
  have hPending : IsUnmixed pending := by decide
  have hAllows :
      document.AllowsChanges table 1
        (rounds.flatten ++ pending) := by
    decide +kernel
  exact ⟨hSymbolic, hText, hUnmixed, hPending, hAllows,
    rounds_isFresh hSymbolic hText hUnmixed hPending
      hAllows⟩

end Session

end Bracketry

------------------------------------------------------------
-- Mixed Rounds
------------------------------------------------------------

namespace Bracketry

namespace Session

/-
  A tree is not fresh if it shows the outline of the text
  before a round, and a new session shows another one.
-/
theorem exists_stale
    {table : TokenTable}
    {document : Document}
    {changes : List Deed}
    (tree : Index → Option Node)
    (text : List Char)
    (hRound :
      (do
        let start ← ofDocument table document
        let flushed ← start.round changes
        return (flushed.text,
          flushed.index.version == flushed.liveVersion,
          (tree flushed.index).map Node.outline)) =
        .ok (text, true,
          some (.ok (table.outline document.text))))
    (hNew :
      (do
        let fresh ← ofDocument table (Document.ofText text)
        return fresh.index.current?.map Node.outline) =
        .ok (some (.ok (table.outline text))))
    (hDiffers :
      table.outline document.text ≠ table.outline text) :
    ∃ start flushed,
      ofDocument table document = .ok start ∧
        start.round changes = .ok flushed ∧
        flushed.index.version = flushed.liveVersion ∧
        ¬HasFreshOutline table flushed.text
          (tree flushed.index) := by
  rcases Checked.bind_eq_ok_iff.1 hRound with
    ⟨start, hStart, hRound⟩
  rcases Checked.bind_eq_ok_iff.1 hRound with
    ⟨flushed, hFlushed, hShown⟩
  rcases Prod.mk.inj (Except.ok.inj hShown) with ⟨hText, hRest⟩
  rcases Prod.mk.inj hRest with ⟨hVersion, hOld⟩
  refine ⟨start, flushed, hStart, hFlushed,
    beq_iff_eq.1 hVersion, ?_⟩
  rintro ⟨fresh, root, node, outline, hFresh, hRoot, hNode,
    hOutline, hSame⟩
  rw [hText] at hFresh
  rcases Checked.bind_eq_ok_iff.1 hNew with
    ⟨other, hOther, hShows⟩
  rcases Except.ok.inj (hFresh.symm.trans hOther) with rfl
  have hNewSame := Except.ok.inj hShows
  rw [hRoot, Option.map_some, hOutline] at hNewSame
  rw [hNode, Option.map_some, hSame] at hOld
  exact hDiffers
    (Except.ok.inj (Option.some.inj (hOld.symm.trans hNewSame)))

/-
  An edit or lines in a round with a silent change: the tree
  that has them queued keeps the brackets of the old text.
-/
theorem stale_of_mixed_rounds :
    let declaration : BracketDeclaration :=
      ⟨[⟨['('], [')']⟩, ⟨['['], [']']⟩, ⟨['\x7b'], ['\x7d']⟩],
        none⟩
    let table := TokenTable.ofDeclaration declaration
    let document :=
      Document.ofText ['(', ')', ' ', 'a', '\n', 'b']
    let swap : Deed := .silent ⟨0, 0⟩ ⟨0, 2⟩ ['[', ']']
    let edited : List Deed :=
      [.step (.edit ⟨1, 1⟩ ⟨1, 1⟩ ['c']), swap]
    let lined : List Deed := [.notice [⟨1, 1⟩], swap]
    (document.AllowsChanges table 1 edited ∧
        ∃ start flushed,
          ofDocument table document = .ok start ∧
            start.round edited = .ok flushed ∧
            flushed.index.version = flushed.liveVersion ∧
            ¬HasFreshOutline table flushed.text
              flushed.index.current?) ∧
      document.AllowsChanges table 1 lined ∧
        ∃ start flushed,
          ofDocument table document = .ok start ∧
            start.round lined = .ok flushed ∧
            flushed.index.version = flushed.liveVersion ∧
            ¬HasFreshOutline table flushed.text
              flushed.index.classified := by
  intro declaration table document swap edited lined
  have hEdited : document.AllowsChanges table 1 edited := by
    decide +kernel
  have hLined : document.AllowsChanges table 1 lined := by
    decide +kernel
  refine ⟨⟨hEdited, ?_⟩, hLined, ?_⟩
  · refine exists_stale Index.current?
      ['[', ']', ' ', 'a', '\n', 'b', 'c'] ?_ ?_ ?_
    · decide +kernel
    · decide +kernel
    · decide +kernel
  · refine exists_stale Index.classified
      ['[', ']', ' ', 'a', '\n', 'b'] ?_ ?_ ?_
    · decide +kernel
    · decide +kernel
    · decide +kernel

end Session

end Bracketry
