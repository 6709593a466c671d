import Bracketry.Proofs.ByteTrees
import Bracketry.Proofs.Documents
import Bracketry.Proofs.LineEdits
import Bracketry.Session

/-
  Runs of a session.

  A run is a sequence of edits, classifications and flushes,
  in any order.  Each step that the document allows succeeds
  and keeps both trees of the index in step with the
  document: each tree describes an older text, and the edits
  that are queued for it turn that into the current one.

  Key definitions include:
    * `AllowsEach`
    * `Session.Step`, `Session.run`
    * `Document.Allows`, `Document.AllowsAll`
    * `Session.IsSound`

  Main declarations:
    * `Session.exists_foldlM`
    * `Session.IsSound.step`
    * `Session.IsSound.run`
-/

------------------------------------------------------------
-- Steps that are Allowed
------------------------------------------------------------

namespace Bracketry

variable {σ τ : Type}

/- Each step is allowed where the steps before it lead. -/
def AllowsEach
    (allows : σ → τ → Prop)
    (after : σ → τ → σ)
    (state : σ) :
    List τ → Prop
  | [] => True
  | step :: rest =>
      allows state step ∧
        AllowsEach allows after (after state step) rest

variable {allows : σ → τ → Prop} {after : σ → τ → σ}

instance decidableAllowsEach
    [∀ state step, Decidable (allows state step)]
    (state : σ) :
    (steps : List τ) →
      Decidable (AllowsEach allows after state steps)
  | [] => .isTrue trivial
  | step :: rest =>
      have := decidableAllowsEach (after state step) rest
      inferInstanceAs (Decidable (_ ∧ _))

theorem allowsEach_append
    {state : σ}
    {a b : List τ} :
    AllowsEach allows after state (a ++ b) ↔
      AllowsEach allows after state a ∧
        AllowsEach allows after (a.foldl after state) b := by
  induction a generalizing state with
  | nil => exact ⟨fun h => ⟨trivial, h⟩, fun h => h.2⟩
  | cons step rest ih =>
      rw [List.cons_append, AllowsEach, AllowsEach, ih,
        and_assoc]
      rfl

/- What allowed steps keep is kept by all of them. -/
theorem Session.exists_foldlM
    {take : Session → τ → Checked Session}
    {Kept : Session → Prop}
    {steps : List τ}
    {session : Session}
    (state : Session → σ)
    (hStep :
      ∀ {session step},
        step ∈ steps → Kept session →
          allows (state session) step →
            ∃ next,
              take session step = .ok next ∧ Kept next ∧
                state next = after (state session) step)
    (h : Kept session)
    (hAllows : AllowsEach allows after (state session) steps) :
    ∃ last,
      steps.foldlM take session = .ok last ∧ Kept last ∧
        state last = steps.foldl after (state session) := by
  induction steps generalizing session with
  | nil => exact ⟨session, rfl, h, rfl⟩
  | cons step rest ih =>
      rcases hAllows with ⟨hFirst, hRest⟩
      rcases hStep (List.mem_cons_self ..) h hFirst with
        ⟨next, hNext, hKept, hState⟩
      rw [← hState] at hRest
      rcases ih (fun hMem => hStep (List.mem_cons_of_mem _ hMem))
          hKept hRest with
        ⟨last, hLast, hEnd, hSame⟩
      refine ⟨last, ?_, hEnd, ?_⟩
      · rw [List.foldlM_cons, hNext]
        exact hLast
      · rw [hSame, hState]
        rfl

end Bracketry

------------------------------------------------------------
-- Steps
------------------------------------------------------------

namespace Bracketry

namespace Session

/- What is done with a session. -/
inductive Step where
  | edit (start stop : Position) (text : List Char)
  | classify (spans : SpanTable) (changed : List LineSpan)
  | declassify
  | complete
  | flush
deriving DecidableEq, Repr, Inhabited

/- Take a step. -/
def step
    (session : Session) :
    Step → Checked Session
  | .edit start stop text => session.applyEdit start stop text
  | .classify spans changed =>
      session.updateSpans spans changed
  | .declassify => .ok session.clearSpans
  | .complete => .ok session.completeClassification
  | .flush => session.flush

/- Take steps one after the other. -/
def run
    (steps : List Step)
    (session : Session) :
    Checked Session :=
  steps.foldlM step session

/- The text of the document. -/
def text
    (session : Session) :
    List Char :=
  session.document.document.text

end Session

namespace Document

/- The document behind a step. -/
def after
    (document : Document) :
    Session.Step → Document
  | .edit start stop text =>
      match document.replace start stop text with
      | .ok edited => edited
      | .error _ => document
  | _ => document

/-
  An edit is between two positions of the document, and
  leaves it short enough.  Lines that are classified anew
  are lines of the document.
-/
def Allows
    (document : Document) :
    Session.Step → Prop
  | .edit start stop text =>
      start ≤ stop ∧ document.HasPosition start ∧
        document.HasPosition stop ∧
        Text.IsShort
          (document.after (.edit start stop text)).text
  | .classify _ changed =>
      ∀ span ∈ changed, span.last < document.lines.length
  | _ => True

instance
    (document : Document) :
    (step : Session.Step) → Decidable (document.Allows step)
  | .edit _ _ _ => inferInstanceAs (Decidable (_ ∧ _))
  | .classify _ _ => inferInstanceAs (Decidable (∀ _ ∈ _, _))
  | .declassify => .isTrue trivial
  | .complete => .isTrue trivial
  | .flush => .isTrue trivial

/- Each step is allowed when it is taken. -/
def AllowsAll
    (document : Document)
    (steps : List Session.Step) :
    Prop :=
  AllowsEach Allows after document steps

instance
    (document : Document)
    (steps : List Session.Step) :
    Decidable (document.AllowsAll steps) :=
  decidableAllowsEach document steps

/- The document behind several steps. -/
def afterAll
    (document : Document)
    (steps : List Session.Step) :
    Document :=
  steps.foldl after document

end Document

end Bracketry

------------------------------------------------------------
-- Edits of an Account
------------------------------------------------------------

namespace Bracketry

open Measured

variable {α : Type} [Measured α]

/- An edit of a document is an edit of the pieces of it. -/
theorem Document.exists_turns
    {document : Document}
    {start stop : Position}
    {inserted : List Char}
    {f : List Char → List α}
    (hAppend : ∀ a b, f (a ++ b) = f a ++ f b)
    (hSize : ∀ a, extent (f a) = Length.ofText a)
    (hCounted : document.IsCounted)
    (hOrder : start ≤ stop)
    (hStart : document.HasPosition start)
    (hStop : document.HasPosition stop) :
    ∃ text,
      document.replace start stop inserted =
          .ok (document.edited text) ∧
        document.after (.edit start stop inserted) =
          document.edited text ∧
        ∀ ending,
          Turns Eq 0 [Edit.replace start stop inserted]
            (f document.text ++ ending) (f text ++ ending) := by
  rcases Document.exists_of_replace inserted hCounted hStart
      hStop hOrder with
    ⟨before, cut, behind, hCuts, hBefore, hCut, hReplace⟩
  refine ⟨_, hReplace, by rw [Document.after, hReplace], ?_⟩
  intro ending
  rw [extent_chars] at hBefore hCut
  simp only [hCuts, hAppend, List.append_assoc]
  refine Turns.single ?_ ?_ ?_ ?_ ?_
  · rw [List.forall₂_eq_eq_eq]
  · rw [List.forall₂_eq_eq_eq]
  · rw [hSize, hBefore]
    rfl
  · rw [hSize]
    exact hCut.symm
  · rw [hSize]
    rfl

/-
  Lines that are edits turn pieces into others that agree
  with them in all other lines.
-/
theorem Turns.ofChanged
    {middle pieces : List α}
    {changed : List LineSpan}
    (hLined : IsLined α)
    (hSome : 0 < (extent pieces).lines)
    (hFew : (extent pieces).lines ≤ maxCount)
    (hLines :
      ∀ span ∈ changed, span.last < (extent pieces).lines)
    (hAgrees :
      AgreesBut Eq (LineSpan.Cover changed) 0 middle pieces) :
    Turns Eq 0 ((LineSpan.merge changed).map LineSpan.toEdit)
      middle pieces := by
  rcases LineSpan.areApart_merge ((extent pieces).lines - 1)
      (fun span hSpan => by
        have hLine := hLines span hSpan
        omega)
      (by omega) with
    ⟨hApart, hBound⟩
  refine Turns.ofLines hLined hApart ?_ ?_
    (hAgrees.mono fun _ _ => LineSpan.cover_merge)
  · intro span hSpan
    have hLast := hBound span hSpan
    rw [hAgrees.extent_eq]
    omega
  · rw [hAgrees.extent_eq]
    omega

namespace Account

variable {account : Account α}

/- An edit of a text is an edit of its pieces. -/
theorem queues_edit
    {document : Document}
    {start stop : Position}
    {inserted : List Char}
    {f : List Char → List α}
    (hSound : account.IsSound)
    (hAppend : ∀ a b, f (a ++ b) = f a ++ f b)
    (hSize : ∀ a, extent (f a) = Length.ofText a)
    (hCounted : document.IsCounted)
    (hOrder : start ≤ stop)
    (hStart : document.HasPosition start)
    (hStop : document.HasPosition stop)
    (hText :
      account.IsText
        (f (document.after
          (.edit start stop inserted)).text)) :
    ∃ text,
      document.replace start stop inserted =
          .ok (document.edited text) ∧
        document.after (.edit start stop inserted) =
          document.edited text ∧
        Index.Queues [Edit.replace start stop inserted]
          (account.Follows (f document.text))
          (account.Follows (f text)) := by
  rcases Document.exists_turns hAppend hSize hCounted hOrder
      hStart hStop with
    ⟨text, hReplace, hAfter, hTurns⟩
  rw [hAfter] at hText
  refine ⟨text, hReplace, hAfter, ?_⟩
  intro root edits hFollows
  exact hFollows.queue hSound hText (hTurns account.ending)

/-
  Lines that are edits turn pieces into a text that agrees
  with them in all other lines.
-/
theorem queues_changed
    {middle text : List α}
    {changed : List LineSpan}
    (hSound : account.IsSound)
    (hText : account.IsText text)
    (hLined : IsLined α)
    (hSome : 0 < (extent (text ++ account.ending)).lines)
    (hLines :
      ∀ span ∈ changed,
        span.last <
          (extent (text ++ account.ending)).lines)
    (hAgrees :
      AgreesBut Eq (LineSpan.Cover changed) 0 middle
        (text ++ account.ending)) :
    Index.Queues
      ((LineSpan.merge changed).map LineSpan.toEdit)
      (account.Reaches Eq · · middle)
      (account.Follows text) := by
  intro root edits hReaches
  have hSmall :=
    (hSound hText) (text ++ account.ending) [] (by simp)
  have hMax : maxCount = 2 ^ 32 - 1 := rfl
  have hTurns :=
    Turns.ofChanged hLined hSome (by omega) hLines hAgrees
  have hQueue :=
    Reaches.queue hSound sameSize_eq sameSize_eq
      (hSound hText).fitsFrom hReaches hTurns
  rwa [via_eq] at hQueue

/- Lines of a text are edits that leave its pieces. -/
theorem queues_lines
    {text : List α}
    {changed : List LineSpan}
    (hSound : account.IsSound)
    (hText : account.IsText text)
    (hLined : IsLined α)
    (hSome : 0 < (extent (text ++ account.ending)).lines)
    (hLines :
      ∀ span ∈ changed,
        span.last <
          (extent (text ++ account.ending)).lines) :
    Index.Queues
      ((LineSpan.merge changed).map LineSpan.toEdit)
      (account.Follows text) (account.Follows text) :=
  queues_changed hSound hText hLined hSome hLines
    (.refl _ _)

end Account

end Bracketry

------------------------------------------------------------
-- Edits of Bytes
------------------------------------------------------------

namespace Bracketry

open Measured

namespace TextByte

theorem isLined : IsLined TextByte := by
  intro byte
  cases byte
  · exact .inr rfl
  · exact .inl rfl
  · exact .inl rfl
  · exact .inr rfl

/- There are as many lines as line breaks, and one more. -/
theorem lines_ofText
    (text : List Char) :
    (extent (ofText text ++ pads 0)).lines =
      (Line.split text).length := by
  have hOne : (extent (pads 0)).lines = 1 := rfl
  rw [extent_append, Length.add_lines, hOne, extent_ofText,
    Line.length_split]

/- An edit of a text is an edit of its bytes. -/
theorem queues_edit
    {document : Document}
    {start stop : Position}
    {inserted : List Char}
    (hOld : Text.IsShort document.text)
    (hAllows :
      document.Allows (.edit start stop inserted)) :
    ∃ edited,
      document.replace start stop inserted = .ok edited ∧
        document.after (.edit start stop inserted) = edited ∧
        Text.IsShort edited.text ∧
        Index.Queues [Edit.replace start stop inserted]
          (account.Follows (ofText document.text))
          (account.Follows (ofText edited.text)) := by
  rcases hAllows with ⟨hOrder, hStart, hStop, hShort⟩
  rcases Account.queues_edit isSound_account ofText_append
      extent_ofText (Document.isCounted_of_isShort hOld) hOrder
      hStart hStop ⟨_, rfl, hShort⟩ with
    ⟨text, hReplace, hAfter, hQueues⟩
  rw [hAfter] at hShort
  exact ⟨_, hReplace, hAfter, hShort, hQueues⟩

/- Lines of a text are edits that leave its bytes. -/
theorem queues_lines
    {text : List Char}
    {changed : List LineSpan}
    (hShort : Text.IsShort text)
    (hLines :
      ∀ span ∈ changed,
        span.last < (Line.split text).length) :
    Index.Queues
      ((LineSpan.merge changed).map LineSpan.toEdit)
      (account.Follows (ofText text))
      (account.Follows (ofText text)) := by
  refine Account.queues_lines isSound_account
    ⟨text, rfl, hShort⟩ isLined ?_ ?_
  · exact (lines_ofText text).symm ▸
      List.length_pos_of_ne_nil (Line.split_ne_nil text)
  · exact (lines_ofText text).symm ▸ hLines

end TextByte

end Bracketry

------------------------------------------------------------
-- Acts of a Session
------------------------------------------------------------

namespace Bracketry

namespace Session

variable {session : Session} {index : Index}

/- A session acts where its document and its index do. -/
theorem applyEdit_eq_ok
    {start stop : Position}
    {inserted : List Char}
    {document : Document}
    (hReplace :
      session.document.document.replace start stop inserted =
        .ok document)
    (hQueue :
      session.index.queueEdit start stop inserted =
        .ok index) :
    session.applyEdit start stop inserted =
      .ok ⟨⟨document, session.document.spans⟩, index⟩ := by
  simp [Session.applyEdit, Session.replace,
    SharedDocument.replace, hReplace, hQueue, bind,
    Except.bind, pure, Except.pure]

theorem updateSpans_eq_ok
    {spans : SpanTable}
    {changed : List LineSpan}
    (hQueue : session.index.queueLines changed = .ok index) :
    session.updateSpans spans changed =
      .ok ⟨session.document.setSpans (some spans), index⟩ := by
  simp [Session.updateSpans, hQueue, bind, Except.bind, pure,
    Except.pure]

theorem flush_eq_ok
    (hFlush :
      session.index.flush (some session.live) = .ok index) :
    session.flush = .ok { session with index := index } := by
  simp [Session.flush, hFlush, bind, Except.bind, pure,
    Except.pure]

theorem ofShared_eq_ok
    {table : TokenTable}
    {document : SharedDocument}
    (hIndex :
      Index.ofSnapshot table (some document.snapshot) =
        .ok index) :
    ofShared table document = .ok ⟨document, index⟩ := by
  simp [ofShared, hIndex, bind, Except.bind, pure,
    Except.pure]

/- A session is opened with an index of its document. -/
theorem exists_of_ofShared
    {table : TokenTable}
    {document : SharedDocument}
    (h : ofShared table document = .ok session) :
    ∃ index,
      Index.ofSnapshot table (some document.snapshot) =
          .ok index ∧
        session = ⟨document, index⟩ := by
  rcases Checked.bind_eq_ok_iff.1 h with ⟨index, hIndex, h⟩
  cases h
  exact ⟨index, hIndex, rfl⟩

end Session

end Bracketry

------------------------------------------------------------
-- Sound Sessions
------------------------------------------------------------

namespace Bracketry

namespace Session

/- Both trees follow the text of the document. -/
structure IsSound
    (session : Session) :
    Prop where
  solid : session.index.table.IsSolid
  flat : session.index.table.IsFlat
  short : Text.IsShort session.text
  holds :
    session.index.Holds
      (TextByte.account.Follows (TextByte.ofText session.text))
      (TextByte.account.Follows (TextByte.ofText session.text))

variable {session : Session}

/- The account tells of what a session reads. -/
theorem IsSound.covers
    (h : session.IsSound)
    (spans : Option SpanTable) :
    TextByte.account.Covers session.index.table
      session.live.content spans
      (TextByte.ofText session.text) :=
  TextByte.covers (Content.holds_ofDocument _) h.solid h.flat
    h.short

theorem IsSound.applyEdit
    {start stop : Position}
    {inserted : List Char}
    (h : session.IsSound)
    (hAllows :
      session.document.document.Allows
        (.edit start stop inserted)) :
    ∃ next,
      session.applyEdit start stop inserted = .ok next ∧
        next.IsSound ∧
        next.document.document =
          session.document.document.after
            (.edit start stop inserted) := by
  rcases TextByte.queues_edit h.short hAllows with
    ⟨edited, hReplace, hAfter, hShort, hQueues⟩
  rcases h.holds.queueEdit hQueues hQueues with
    ⟨index, hIndex, hHolds, hTable, _⟩
  refine ⟨_, applyEdit_eq_ok hReplace hIndex,
    ⟨?_, ?_, hShort, hHolds⟩, hAfter.symm⟩
  · rw [hTable]
    exact h.solid
  · rw [hTable]
    exact h.flat

theorem IsSound.updateSpans
    {spans : SpanTable}
    {changed : List LineSpan}
    (h : session.IsSound)
    (hAllows :
      session.document.document.Allows
        (.classify spans changed)) :
    ∃ next,
      session.updateSpans spans changed = .ok next ∧
        next.IsSound ∧
        next.document.document = session.document.document
    := by
  rcases h.holds.queueLines
      (TextByte.queues_lines h.short hAllows) with
    ⟨index, hIndex, hHolds, hTable, _⟩
  refine ⟨_, updateSpans_eq_ok hIndex,
    ⟨?_, ?_, h.short, hHolds⟩, rfl⟩
  · rw [hTable]
    exact h.solid
  · rw [hTable]
    exact h.flat

/- A flush leaves nothing queued. -/
theorem IsSound.flush
    (h : session.IsSound) :
    ∃ next,
      session.flush = .ok next ∧ next.IsSound ∧
        next.document = session.document ∧
        next.index.IsSettled := by
  rcases h.holds.flush
      (fun _ _ hRoot => (h.covers none).makes hRoot)
      (fun _ _ hRoot => (h.covers _).makes hRoot)
      (fun _ _ hRoot => hRoot) with
    ⟨index, hIndex, hHolds, hFlushed⟩
  refine ⟨_, flush_eq_ok hIndex,
    ⟨?_, ?_, h.short, hHolds⟩, rfl, hFlushed.settled⟩
  · rw [hFlushed.table]
    exact h.solid
  · rw [hFlushed.table]
    exact h.flat

/- Each step that is allowed succeeds. -/
theorem IsSound.step
    {step : Step}
    (h : session.IsSound)
    (hAllows : session.document.document.Allows step) :
    ∃ next,
      session.step step = .ok next ∧ next.IsSound ∧
        next.document.document =
          session.document.document.after step := by
  cases step with
  | edit start stop text => exact h.applyEdit hAllows
  | classify spans changed => exact h.updateSpans hAllows
  | declassify =>
      exact ⟨_, rfl, ⟨h.solid, h.flat, h.short, h.holds⟩, rfl⟩
  | complete =>
      exact ⟨_, rfl, ⟨h.solid, h.flat, h.short,
        h.holds.completeClassification⟩, rfl⟩
  | flush =>
      rcases h.flush with ⟨next, hFlush, hNext, hSame, _⟩
      exact ⟨next, hFlush, hNext, by rw [hSame]; rfl⟩

/- So does each run. -/
theorem IsSound.run
    {steps : List Step}
    (h : session.IsSound)
    (hAllows : session.document.document.AllowsAll steps) :
    ∃ last,
      session.run steps = .ok last ∧ last.IsSound ∧
        last.document.document =
          session.document.document.afterAll steps :=
  exists_foldlM (fun session => session.document.document)
    (fun _ hSound hStep => hSound.step hStep) h
    hAllows

/- A session begins with the trees of its document. -/
theorem exists_ofShared
    {table : TokenTable}
    {document : SharedDocument}
    (hSolid : table.IsSolid)
    (hFlat : table.IsFlat)
    (hShort : Text.IsShort document.document.text) :
    ∃ session,
      ofShared table document = .ok session ∧
        session.IsSound ∧ session.document = document := by
  have hCovers :
      TextByte.account.Covers table document.snapshot.content
        document.snapshot.spans
        (TextByte.ofText document.document.text) :=
    TextByte.covers (Content.holds_ofDocument _) hSolid hFlat
      hShort
  let known := TextByte.account.Follows
    (TextByte.ofText document.document.text)
  have hSame :
      document.snapshot.spans = none →
        ∀ root, known root [] → known root [] :=
    fun _ _ hRoot => hRoot
  rcases Index.ofSnapshot_spec hCovers.makes_fresh hSame with
    ⟨index, hIndex, hHolds, _, hTable, _⟩
  refine ⟨_, ofShared_eq_ok hIndex,
    ⟨?_, ?_, hShort, hHolds⟩, rfl⟩
  · rw [hTable]
    exact hSolid
  · rw [hTable]
    exact hFlat

/- Behind a flush, each tree describes the text. -/
theorem IsSound.describes
    (h : session.IsSound)
    (hSettled : session.index.IsSettled)
    {root : Node}
    (hRoot :
      session.index.plain = some root ∨
        session.index.classified = some root) :
    TextByte.account.Describes root
      (TextByte.ofText session.text) := by
  rcases hRoot with hPlain | hClassified
  · have hFollows := h.holds.plain root hPlain
    rw [hSettled.plain (by rw [hPlain]; rfl)] at hFollows
    exact hFollows.describes
  · rcases h.holds.classified with ⟨other, hOther, hFollows⟩
    rw [hClassified] at hOther
    rcases Option.some.inj hOther with rfl
    rw [hSettled.classified] at hFollows
    exact hFollows.describes

end Session

end Bracketry
