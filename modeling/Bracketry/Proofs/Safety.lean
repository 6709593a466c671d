import Bracketry.Proofs.Notices
import Bracketry.Proofs.Visits

/-
  A session breaks no contract.

  The trees of an index are whole, whatever is done with its
  session.  So a question only fails where a sum is too
  large or an offset lies inside a character, and a flush
  only where a sum is too large or an old tree is asked for
  an earlier place.  The last does not happen as long as the
  index is told of all changes and the text is short.

  Key definitions include:
    * `Index.HasRoots`
    * `Document.AllowsUse`, `Document.AllowsUses`
    * `Session.Refuses`

  Main declarations:
    * `Index.HasRoots.ends_ask`
    * `Index.HasRoots.ends_flush`
    * `Session.ends_perform`
    * `Session.IsSound.performAll`
    * `Session.faults_of_performAll`
-/

------------------------------------------------------------
-- Offsets inside Characters
------------------------------------------------------------

namespace Bracketry

open Checked

variable {MayFail : Fault → Prop}

/- An offset has a position unless it cuts a character. -/
theorem Content.ends_positionOf
    (hSplit : MayFail .splitCharacter)
    (content : Content)
    (offset : Nat) :
    Ends MayFail (fun _ => True)
      (content.positionOf offset) := by
  unfold positionOf
  dsimp only
  split_ifs
  · split
    · trivial
    · exact hSplit
  · trivial

/- A range is replaced unless it cuts a character. -/
theorem Document.ends_replace
    (hSplit : MayFail .splitCharacter)
    (document : Document)
    (start stop : Position)
    (inserted : List Char) :
    Ends MayFail (fun _ => True)
      (document.replace start stop inserted) := by
  have hSplice :
      ∀ first last,
        Ends MayFail (fun _ => True)
          (Text.splice first last inserted document.text) := by
    intro first last
    unfold Text.splice
    split
    · trivial
    · exact hSplit
  exact (hSplice _ _).bind fun _ _ => trivial

/- What only overflows ends well, if that may be. -/
theorem Checked.OnlyOverflows.ends
    {α : Type}
    {result : Checked α}
    (h : result.OnlyOverflows)
    (hSum : MayFail .overflow) :
    Ends MayFail (fun _ => True) result := by
  refine ends_iff.2 ⟨fun _ _ => trivial, fun fault hFault => ?_⟩
  rw [h fault hFault]
  exact hSum

end Bracketry

------------------------------------------------------------
-- Questions
------------------------------------------------------------

namespace Bracketry

open Checked

namespace Index

/- The trees that there are are whole. -/
structure HasRoots
    (index : Index) :
    Prop where
  plain : ∀ root, index.plain = some root → root.IsRoot
  classified :
    ∀ root, index.classified = some root → root.IsRoot

theorem HasRoots.current
    {index : Index}
    {root : Node}
    (h : index.HasRoots)
    (hRoot : index.current? = some root) :
    root.IsRoot := by
  rcases Option.or_eq_some_iff.1 hRoot with
    hPlain | ⟨_, hClassified⟩
  · exact h.plain root hPlain
  · exact h.classified root hClassified

/- What is remembered and marked does not matter. -/
theorem HasRoots.ofLike
    {a b : Index}
    (h : a.HasRoots)
    (hLike : a.IsLike b) :
    b.HasRoots := by
  rw [hLike]
  exact ⟨h.plain, h.classified⟩

variable {MayFail : Fault → Prop} {α : Type}
variable {index : Index} {live : Option Nat}

/- A question of a whole tree is one of the current tree. -/
theorem HasRoots.ends_whenCurrent
    {ask : Index → Node → Checked (α × Index)}
    (h : index.HasRoots)
    (hAsk :
      ∀ root : Node, root.IsRoot →
        Ends MayFail (fun _ => True) (ask index root)) :
    Ends MayFail (fun _ => True)
      (index.whenCurrent live ask) := by
  unfold whenCurrent
  cases hCurrent : index.current? with
  | none => trivial
  | some root =>
      dsimp only
      split
      · exact (hAsk root (h.current hCurrent)).bind
          fun _ _ => trivial
      · trivial

theorem HasRoots.ends_whenCurrentPure
    {ask : Node → Checked α}
    (hSum : MayFail .overflow)
    (h : index.HasRoots)
    (hAsk :
      ∀ root : Node, root.IsRoot →
        OnlyOverflows (ask root)) :
    Ends MayFail (fun _ => True)
      (index.whenCurrentPure live ask) :=
  h.ends_whenCurrent fun root hRoot =>
    ((hAsk root hRoot).ends hSum).bind fun _ _ => trivial

theorem HasRoots.ends_visitPairs
    {σ : Type}
    (hSum : MayFail .overflow)
    (h : index.HasRoots)
    (window : Range)
    (withIndentation : Bool)
    (visit : Visitor PairInfo σ)
    (state : σ) :
    Ends MayFail (fun _ => True)
      (index.visitPairs live window withIndentation visit
        state) :=
  h.ends_whenCurrent fun _ hRoot =>
    ((Node.walkPairs_onlyOverflows hRoot _ _ _ _ _ _).ends
      hSum).bind fun _ _ => trivial

theorem HasRoots.ends_pairedAt
    (hSum : MayFail .overflow)
    (hSplit : MayFail .splitCharacter)
    (h : index.HasRoots)
    (offset : Nat) :
    Ends MayFail (fun _ => True)
      (index.pairedAt? live offset) := by
  refine (h.ends_whenCurrent fun root hRoot => ?_).bind
    fun _ _ => trivial
  cases index.content with
  | none => trivial
  | some content =>
      dsimp only
      split_ifs
      · trivial
      · refine (content.ends_positionOf hSplit offset).bind
          fun position _ => ?_
        refine (ends_checkedSum hSum _ _).bind
          fun column _ => ?_
        exact ((Node.walkPairs_onlyOverflows hRoot _ _ _ _ _
          _).ends hSum).bind fun _ _ => trivial

theorem HasRoots.ends_pairedIn
    (hSum : MayFail .overflow)
    (h : index.HasRoots)
    (left right : Position) :
    Ends MayFail (fun _ => True)
      (index.pairedIn live left right) := by
  refine (h.ends_whenCurrent fun root hRoot => ?_).bind
    fun _ _ => trivial
  cases index.content with
  | none => trivial
  | some content =>
      have hPairs :
          ∀ query cache,
            OnlyOverflows (root.pairsIn query cache) :=
        fun query cache =>
          .bind (Node.walkPairs_onlyOverflows hRoot _ _ _ _ _
            _) fun _ => .ok _
      exact ((hPairs _ _).ends hSum).bind fun _ _ => trivial

/-
  A question of whole trees only fails where a sum is too
  large or an offset lies inside a character.
-/
theorem HasRoots.ends_ask
    (hSum : MayFail .overflow)
    (hSplit : MayFail .splitCharacter)
    (h : index.HasRoots)
    (query : Session.Query) :
    Ends MayFail (fun answer => index.IsLike answer.2)
      (index.ask live query) := by
  have hEnds :
      Ends MayFail (fun _ => True)
        (index.ask live query) := by
    cases query with
    | brackets query =>
        refine (h.ends_whenCurrentPure hSum
          fun root hRoot => ?_).bind fun _ _ => trivial
        exact .bind (Node.visitBrackets_onlyOverflows hRoot _
          _ _) fun _ => .ok _
    | visitBrackets query visit =>
        exact h.ends_whenCurrentPure hSum fun root hRoot =>
          Node.visitBrackets_onlyOverflows hRoot _ _ _
    | pairs window withIndentation =>
        refine (h.ends_visitPairs hSum window withIndentation
          _ _).bind ?_
        rintro ⟨flow, after⟩ _
        cases flow <;> trivial
    | visitPairs window withIndentation visit =>
        exact h.ends_visitPairs hSum window withIndentation
          visit []
    | before position =>
        exact (h.ends_whenCurrentPure hSum fun root hRoot =>
          Node.lastBefore_onlyOverflows hRoot _ _ _ _).bind
            fun _ _ => trivial
    | after position =>
        exact (h.ends_whenCurrentPure hSum fun root hRoot =>
          Node.firstAfter_onlyOverflows hRoot _ _ _ _).bind
            fun _ _ => trivial
    | matchAt position =>
        refine (h.ends_whenCurrentPure hSum
          fun root hRoot => ?_).bind fun _ _ => trivial
        exact .bind (checkedSum_onlyOverflows _ _)
          fun column => .bind
            (Node.walkPairs_onlyOverflows hRoot _ _ _ _ _ _)
            fun _ => .ok _
    | enclosing position =>
        refine (h.ends_whenCurrentPure hSum
          fun root hRoot => ?_).bind fun _ _ => trivial
        exact .bind
          (Node.walkPairs_onlyOverflows hRoot _ _ _ _ _ _)
          fun _ => .ok _
    | pairedAt offset =>
        exact h.ends_pairedAt hSum hSplit offset
    | pairedIn left right =>
        exact h.ends_pairedIn hSum left right
  refine ends_iff.2 ⟨?_, fun fault => hEnds.of_error⟩
  rintro ⟨answer, after⟩ hAsk
  exact isLike_ask hAsk

end Index

end Bracketry

------------------------------------------------------------
-- Queues and Flushes
------------------------------------------------------------

namespace Bracketry

open Checked

/- The old tree of the work is whole, if there is one. -/
def ParseJob.HasRoot
    (job : ParseJob) :
    Prop :=
  ∀ root, job.old = some root → root.IsRoot

namespace Index

variable {MayFail : Fault → Prop} {index : Index}

/- What is queued leaves the trees. -/
theorem HasRoots.ends_queueEdits
    (hSum : MayFail .overflow)
    (h : index.HasRoots)
    (batch : List Edit)
    (forPlain : Bool) :
    Ends MayFail HasRoots
      (index.queueEdits batch forPlain) := by
  refine ((Edit.compose_onlyOverflows _ _).ends hSum).bind
    fun queued _ => ?_
  dsimp only
  split_ifs
  · exact ((Edit.compose_onlyOverflows _ _).ends hSum).bind
      fun _ _ => ⟨h.plain, h.classified⟩
  · exact ⟨h.plain, h.classified⟩

theorem HasRoots.ends_queueEdit
    (hSum : MayFail .overflow)
    (h : index.HasRoots)
    (start stop : Position)
    (text : List Char) :
    Ends MayFail HasRoots
      (index.queueEdit start stop text) :=
  (h.ends_queueEdits hSum _ true).bind
    fun _ hQueued => ⟨hQueued.plain, hQueued.classified⟩

theorem HasRoots.ends_queueLines
    (hSum : MayFail .overflow)
    (h : index.HasRoots)
    (changed : List LineSpan) :
    Ends MayFail HasRoots (index.queueLines changed) := by
  unfold queueLines
  dsimp only
  split_ifs
  · exact h
  · exact (h.ends_queueEdits hSum _ false).bind
      fun _ hQueued => ⟨hQueued.plain, hQueued.classified⟩

/-
  A parse makes a whole tree from a whole tree or from none.
  The whole text is only scanned where there is none.
-/
theorem ends_parse
    (hSum : MayFail .overflow)
    (hRead : MayFail .backwardRead)
    (table : TokenTable)
    (content : Content)
    (spans : Option SpanTable)
    {job : ParseJob}
    (hOld : job.HasRoot) :
    Ends MayFail (fun result => result.1.IsRoot)
      (parse table content spans job) := by
  have hLines :
      ∀ source,
        Ends MayFail (fun result => result.1.IsRoot)
          (parseDocument (TokenStream.ofLines source) job.edits
            job.old) :=
    fun source =>
      ends_parseDocument hSum hRead nofun (fun _ => rfl) hOld
  unfold parse
  split
  · exact ends_parseDocument hSum hRead trivial nofun nofun
  · exact hLines _

theorem HasRoots.ends_parseWithKeys
    (hSum : MayFail .overflow)
    (hRead : MayFail .backwardRead)
    (h : index.HasRoots)
    (content : Content)
    (spans : Option SpanTable)
    {job : ParseJob}
    (hOld : job.HasRoot) :
    Ends MayFail
      (fun result => result.1.IsRoot ∧ result.2.2.HasRoots)
      (index.parseWithKeys content spans job) :=
  (ends_parse hSum hRead index.table content spans hOld).bind
    fun _ hRoot =>
      ⟨Node.isRoot_giveKeys _ hRoot, h.plain, h.classified⟩

theorem HasRoots.ends_updateClassified
    (hSum : MayFail .overflow)
    (hRead : MayFail .backwardRead)
    (h : index.HasRoots)
    (snapshot : Snapshot)
    {work : Option ParseJob}
    (hWork : ∀ job, work = some job → job.HasRoot) :
    Ends MayFail HasRoots
      (index.updateClassified snapshot work) := by
  cases work with
  | none => exact h
  | some job =>
      refine (h.ends_parseWithKeys hSum hRead snapshot.content
        snapshot.spans (hWork job rfl)).bind ?_
      rintro ⟨root, stats, after⟩ ⟨hRoot, hAfter⟩
      refine ⟨hAfter.plain, ?_⟩
      rintro _ ⟨⟩
      exact hRoot

theorem HasRoots.ends_updatePlain
    (hSum : MayFail .overflow)
    (hRead : MayFail .backwardRead)
    (h : index.HasRoots)
    (snapshot : Snapshot)
    {work : Option ParseJob}
    (hWork : ∀ job, work = some job → job.HasRoot) :
    Ends MayFail HasRoots
      (index.updatePlain snapshot work) := by
  cases work with
  | none => exact h
  | some job =>
      refine (h.ends_parseWithKeys hSum hRead snapshot.content
        none (hWork job rfl)).bind ?_
      rintro ⟨root, stats, after⟩ ⟨hRoot, hAfter⟩
      refine ⟨?_, hAfter.classified⟩
      rintro _ ⟨⟩
      exact hRoot

theorem HasRoots.ends_updateBoth
    (hSum : MayFail .overflow)
    (hRead : MayFail .backwardRead)
    (h : index.HasRoots)
    (snapshot : Snapshot)
    {job : ParseJob}
    (hOld : job.HasRoot) :
    Ends MayFail HasRoots (index.updateBoth snapshot job) := by
  refine (h.ends_parseWithKeys hSum hRead snapshot.content none
    hOld).bind ?_
  rintro ⟨root, stats, after⟩ ⟨hRoot, _⟩
  refine ⟨?_, ?_⟩
  · rintro _ ⟨⟩
    exact hRoot
  · rintro _ ⟨⟩
    exact hRoot

/- The work on a tree is done with the tree, or without. -/
theorem old_of_job
    {isNeeded : Bool}
    {tree : Option Node}
    {edits : List Edit}
    {job : ParseJob}
    {root : Node}
    (hJob : job? isNeeded tree edits = some job)
    (hOld : job.old = some root) :
    tree = some root := by
  unfold job? at hJob
  by_cases hNeeded : isNeeded = true
  · rw [if_pos hNeeded] at hJob
    cases hJob
    dsimp only at hOld
    split at hOld
    · cases hOld
    · exact hOld
  · rw [if_neg hNeeded] at hJob
    cases hJob

/- A new index has whole trees. -/
theorem ends_ofSnapshot
    (hSum : MayFail .overflow)
    (hRead : MayFail .backwardRead)
    (table : TokenTable)
    (snapshot : Snapshot) :
    Ends MayFail HasRoots
      (ofSnapshot table (some snapshot)) := by
  have hEmpty : (empty table).HasRoots := ⟨nofun, nofun⟩
  have hOld : ParseJob.HasRoot ⟨none, []⟩ := nofun
  refine (hEmpty.ends_parseWithKeys hSum hRead
    snapshot.content snapshot.spans hOld).bind ?_
  rintro ⟨root, stats, after⟩ ⟨hRoot, _⟩
  refine ⟨fun other hOther => ?_, ?_⟩
  · dsimp only at hOther
    split at hOther
    · cases hOther
      exact hRoot
    · cases hOther
  · rintro _ ⟨⟩
    exact hRoot

/- A flush makes whole trees of whole trees. -/
theorem HasRoots.ends_flush
    (hSum : MayFail .overflow)
    (hRead : MayFail .backwardRead)
    (h : index.HasRoots)
    (snapshot : Snapshot) :
    Ends MayFail HasRoots (index.flush (some snapshot)) := by
  have hJob :
      ∀ job, index.classifiedJob? snapshot.content = some job →
        job.HasRoot :=
    fun job hJob root hOld =>
      h.classified root (old_of_job hJob hOld)
  have hPlainJob :
      ∀ job, index.plainJob? snapshot.content = some job →
        job.HasRoot :=
    fun job hJob root hOld =>
      h.plain root (old_of_job hJob hOld)
  have hUpdate :
      Ends MayFail HasRoots (index.update snapshot) := by
    unfold update
    generalize index.classifiedJob? snapshot.content = work at *
    generalize index.plainJob? snapshot.content = other at *
    have hTaken :
        (index.withoutQueues work other).HasRoots :=
      ⟨h.plain, h.classified⟩
    have hEach :
        Ends MayFail HasRoots
          (do
            let index ←
              (index.withoutQueues work other).updateClassified
                snapshot work
            let index ← index.updatePlain snapshot other
            return { index with
              version := some snapshot.content.version
              content := some snapshot.content }) :=
      (hTaken.ends_updateClassified hSum hRead snapshot
        hJob).bind fun _ hMiddle =>
          (hMiddle.ends_updatePlain hSum hRead snapshot
            hPlainJob).bind
              fun _ hLast => ⟨hLast.plain, hLast.classified⟩
    dsimp only
    by_cases hNone : (work.isNone && other.isNone) = true
    · rw [if_pos hNone]
      exact hTaken
    · rw [if_neg hNone]
      split
      · split
        · exact (hTaken.ends_updateBoth hSum hRead snapshot
            (hJob _ rfl)).bind
              fun _ hLast => ⟨hLast.plain, hLast.classified⟩
        · exact hEach
      · exact hEach
  exact hUpdate.bind
    fun _ hLast => ⟨hLast.plain, hLast.classified⟩

end Index

end Bracketry

------------------------------------------------------------
-- Uses of a Session
------------------------------------------------------------

namespace Bracketry

namespace Document

/-
  A step that is allowed, or a question.  The index is told
  of all changes.
-/
def AllowsUse
    (document : Document) :
    Session.Deed → Prop
  | .step step => document.Allows step
  | .ask _ => True
  | .silent _ _ _ => False
  | .notice _ => False

instance
    (document : Document) :
    (deed : Session.Deed) →
      Decidable (document.AllowsUse deed)
  | .step step =>
      inferInstanceAs (Decidable (document.Allows step))
  | .ask _ => .isTrue trivial
  | .silent _ _ _ => .isFalse id
  | .notice _ => .isFalse id

/- Each use is allowed when it is made. -/
def AllowsUses
    (document : Document)
    (deeds : List Session.Deed) :
    Prop :=
  AllowsEach AllowsUse behind document deeds

instance
    (document : Document)
    (deeds : List Session.Deed) :
    Decidable (document.AllowsUses deeds) :=
  decidableAllowsEach document deeds

end Document

end Bracketry

------------------------------------------------------------
-- Faults of a Session
------------------------------------------------------------

namespace Bracketry

open Checked

namespace Session

variable {MayFail : Fault → Prop}
variable {session : Session} {deed : Deed}

/- A question leaves the document, and an index alike. -/
theorem ends_ask
    (hSum : MayFail .overflow)
    (hSplit : MayFail .splitCharacter)
    (h : session.index.HasRoots)
    (query : Query) :
    Ends MayFail
      (fun answer =>
        session.index.IsLike answer.2.index ∧
          answer.2.document = session.document)
      (session.ask query) :=
  (h.ends_ask hSum hSplit query).bind
    fun _ hLike => ⟨hLike, rfl⟩

/- Whatever is done with whole trees, they stay whole. -/
theorem ends_perform
    (hSum : MayFail .overflow)
    (hSplit : MayFail .splitCharacter)
    (hRead : MayFail .backwardRead)
    (h : session.index.HasRoots)
    (deed : Deed) :
    Ends MayFail (fun next => next.index.HasRoots)
      (session.perform deed) := by
  have hReplace :
      ∀ start stop text,
        Ends MayFail (fun next => next.index.HasRoots)
          (session.replace start stop text) := by
    intro start stop text
    have hDocument :
        Ends MayFail (fun _ => True)
          (session.document.replace start stop text) :=
      (Document.ends_replace hSplit _ _ _ _).bind
        fun _ _ => trivial
    exact hDocument.bind fun _ _ => h
  cases deed with
  | step step =>
      cases step with
      | edit start stop text =>
          exact (hReplace start stop text).bind
            fun _ hReplaced =>
              (hReplaced.ends_queueEdit hSum _ _ _).bind
                fun _ hQueued => hQueued
      | classify spans changed =>
          exact (h.ends_queueLines hSum changed).bind
            fun _ hQueued => hQueued
      | declassify => exact h
      | complete => exact ⟨nofun, h.classified⟩
      | flush =>
          exact (h.ends_flush hSum hRead session.live).bind
            fun _ hFlushed => hFlushed
  | silent start stop text => exact hReplace start stop text
  | notice changed =>
      exact (h.ends_queueLines hSum changed).bind
        fun _ hQueued => hQueued
  | ask query =>
      exact (ends_ask hSum hSplit h query).bind
        fun _ hAsked => h.ofLike hAsked.1

/- The trees of a sound session are whole. -/
theorem IsSound.hasRoots
    (h : session.IsSound) :
    session.index.HasRoots where
  plain := by
    intro root hRoot
    have hKnown := h.holds.plain root hRoot
    rcases hKnown with ⟨_, _, ⟨_, hWhole, _⟩, _⟩
    exact hWhole
  classified := by
    intro root hRoot
    rcases h.holds.classified with ⟨other, hOther, hKnown⟩
    rw [hRoot] at hOther
    rcases Option.some.inj hOther with rfl
    rcases hKnown with ⟨_, _, ⟨_, hWhole, _⟩, _⟩
    exact hWhole

/- What is remembered and marked does not matter. -/
theorem IsSound.ofLike
    {next : Session}
    (h : session.IsSound)
    (hLike : session.index.IsLike next.index)
    (hDocument : next.document = session.document) :
    next.IsSound := by
  rcases next with ⟨document, index⟩
  subst hDocument
  have hSame : session.index.IsLike index := hLike
  rw [hSame]
  exact ⟨h.solid, h.flat, h.short,
    ⟨h.holds.plain, h.holds.classified⟩⟩

/-
  A use of a sound session leaves it sound, unless it is a
  question that adds up too much or that cuts a character.
-/
theorem IsSound.perform
    (h : session.IsSound)
    (hAllows : session.document.document.AllowsUse deed) :
    (∃ next,
        session.perform deed = .ok next ∧ next.IsSound ∧
          next.document.document =
            session.document.document.behind deed) ∨
      ∃ query fault,
        deed = .ask query ∧
          session.ask query = .error fault ∧
          fault ∈ [.overflow, .splitCharacter] := by
  cases deed with
  | step step => exact .inl (h.step hAllows)
  | silent start stop text => exact absurd hAllows id
  | notice changed => exact absurd hAllows id
  | ask query =>
      have hEnds :
          Ends (· ∈ [.overflow, .splitCharacter])
            (fun answer =>
              session.index.IsLike answer.2.index ∧
                answer.2.document = session.document)
            (session.ask query) :=
        ends_ask (by simp) (by simp) h.hasRoots query
      cases hAsk : session.ask query with
      | error fault =>
          exact .inr
            ⟨query, fault, rfl, hAsk, hEnds.of_error hAsk⟩
      | ok answer =>
          rcases hEnds.of_ok hAsk with ⟨hLike, hDocument⟩
          refine .inl ⟨answer.2, ?_,
            h.ofLike hLike hDocument, ?_⟩
          · rw [Session.perform, hAsk]
            rfl
          · rw [hDocument]
            rfl

/-
  A question is refused with a fault, and nothing that is
  done before it.
-/
def Refuses
    (session : Session)
    (deeds : List Deed)
    (fault : Fault) :
    Prop :=
  ∃ before query behind middle,
    deeds = before ++ .ask query :: behind ∧
      session.performAll before = .ok middle ∧
      middle.ask query = .error fault

variable {deeds : List Deed} {fault : Fault}

theorem Refuses.cons
    {next : Session}
    (hDeed : session.perform deed = .ok next)
    (h : next.Refuses deeds fault) :
    session.Refuses (deed :: deeds) fault := by
  rcases h with
    ⟨before, query, behind, middle, rfl, hBefore, hAsk⟩
  refine ⟨deed :: before, query, behind, middle, rfl, ?_,
    hAsk⟩
  rw [performAll, List.foldlM_cons, hDeed]
  exact hBefore

/- The fault of the question is the fault of all. -/
theorem Refuses.performAll_eq
    (h : session.Refuses deeds fault) :
    session.performAll deeds = .error fault := by
  rcases h with
    ⟨before, query, behind, middle, rfl, hBefore, hAsk⟩
  rw [performAll] at hBefore
  rw [performAll, List.foldlM_append, hBefore]
  change (middle.perform (.ask query) >>= _) = _
  rw [perform, hAsk]
  rfl

/- All uses of a sound session are made, up to a question. -/
theorem IsSound.performAll
    (h : session.IsSound)
    (hAllows :
      session.document.document.AllowsUses deeds) :
    (∃ last, session.performAll deeds = .ok last) ∨
      ∃ fault ∈ [Fault.overflow, .splitCharacter],
        session.Refuses deeds fault := by
  induction deeds generalizing session with
  | nil => exact .inl ⟨session, rfl⟩
  | cons deed rest ih =>
      rcases hAllows with ⟨hFirst, hRest⟩
      rcases h.perform hFirst with
        ⟨next, hNext, hSound, hDocument⟩ |
          ⟨query, fault, rfl, hAsk, hFault⟩
      · rw [← hDocument] at hRest
        rcases ih hSound hRest with
          ⟨last, hLast⟩ | ⟨fault, hFault, hRefuses⟩
        · refine .inl ⟨last, ?_⟩
          rw [Session.performAll, List.foldlM_cons, hNext]
          exact hLast
        · exact .inr ⟨fault, hFault, .cons hNext hRefuses⟩
      · exact .inr ⟨fault, hFault, [], query, rest, session,
          rfl, rfl, hAsk⟩

/-
  Whatever is done with a session, it breaks no contract but
  that an old tree may be asked for an earlier place.  That
  does not happen either as long as the index is told of all
  changes and no text takes half of what a count can hold:
  then a map of a queue never cuts a place off, each step is
  taken, and only a question can fail.
-/
theorem faults_of_performAll
    (declaration : BracketDeclaration)
    (document : SharedDocument)
    (deeds : List Deed) :
    let run :=
      ofShared (TokenTable.ofDeclaration declaration)
        document >>= (performAll · deeds)
    (∀ fault,
        run = .error fault →
          fault ∈
            [.overflow, .splitCharacter, .backwardRead]) ∧
      (declaration.IsFlat →
        Text.IsShort document.document.text →
          document.document.AllowsUses deeds →
            (∃ last, run = .ok last) ∨
              ∃ start,
                ofShared
                    (TokenTable.ofDeclaration declaration)
                    document =
                  .ok start ∧
                ∃ fault ∈ [Fault.overflow, .splitCharacter],
                  start.Refuses deeds fault ∧
                    run = .error fault) := by
  intro run
  refine ⟨?_, ?_⟩
  · have hStart :
        Ends
          (· ∈ [.overflow, .splitCharacter, .backwardRead])
          (fun session : Session => session.index.HasRoots)
          (ofShared (TokenTable.ofDeclaration declaration)
            document) :=
      (Index.ends_ofSnapshot (by simp) (by simp) _ _).bind
        fun _ hRoots => hRoots
    have hRun :
        Ends
          (· ∈ [.overflow, .splitCharacter, .backwardRead])
          (fun session : Session => session.index.HasRoots)
          run :=
      hStart.bind fun _ hRoots =>
        Ends.foldlM hRoots fun _ deed _ hBefore =>
          ends_perform (by simp) (by simp) (by simp) hBefore
            deed
    exact fun _ => hRun.of_error
  · intro hFlat hShort hAllows
    rcases exists_ofShared
        (TokenTable.isSolid_ofDeclaration declaration)
        (TokenTable.isFlat_ofDeclaration hFlat) hShort with
      ⟨start, hStart, hSound, rfl⟩
    have hRun : run = start.performAll deeds := by
      change (ofShared _ _ >>= (performAll · deeds)) = _
      rw [hStart]
      rfl
    rw [hRun]
    rcases hSound.performAll hAllows with
      hLast | ⟨fault, hFault, hRefuses⟩
    · exact .inl hLast
    · exact .inr ⟨start, hStart, fault, hFault, hRefuses,
        hRefuses.performAll_eq⟩

/-
  Two flushes read parts of the trees before them, and the
  last question is for a byte inside a character.
-/
theorem faults_of_performAll_parens :
    let declaration : BracketDeclaration :=
      ⟨[⟨['('], [')']⟩], none⟩
    let document := SharedDocument.ofDocument
      (Document.ofText ['(', 'é', ')', '\n', '('])
    let deeds : List Deed :=
      [.step (.edit ⟨1, 1⟩ ⟨1, 1⟩ [')', 'b']),
        .ask (.matchAt ⟨0, 0⟩), .step .flush,
        .step
          (.classify ⟨[[], [⟨1, .comment⟩]]⟩ [⟨1, 1⟩]),
        .step .complete, .step .flush, .ask (.pairedAt 2)]
    let run :=
      ofShared (TokenTable.ofDeclaration declaration)
        document >>= (performAll · deeds)
    declaration.IsFlat ∧
      Text.IsShort document.document.text ∧
      document.document.AllowsUses deeds ∧
      ∃ (start : Session) (fault : Fault),
        start.Refuses deeds fault ∧ run = .error fault ∧
          fault ∈ [.overflow, .splitCharacter] := by
  intro declaration document deeds run
  have hFlat : declaration.IsFlat := by decide
  have hShort : Text.IsShort document.document.text := by
    decide
  have hAllows : document.document.AllowsUses deeds := by
    decide +kernel
  have hNone : run.toOption.isNone = true := by
    decide +kernel
  rcases faults_of_performAll declaration document deeds with
    ⟨_, hUses⟩
  rcases hUses hFlat hShort hAllows with
    ⟨last, hLast⟩ | ⟨start, _, fault, hFault, hRefuses, hRun⟩
  · have hLast : run = .ok last := hLast
    rw [hLast] at hNone
    cases hNone
  · exact ⟨hFlat, hShort, hAllows, start, fault, hRefuses,
      hRun, hFault⟩

end Session

end Bracketry
