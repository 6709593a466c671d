import Bracketry.Proofs.Queues

/-
  Lines that are announced make no queue overflow.

  A queue turns an older text into the present one, with all
  lines that may be announced behind both.  So composing it
  with more edits is never refused, as long as no text with
  these lines needs more than 32 bits.  A tree is parsed with
  a map of its queue, where places of both texts are added;
  there the texts with the lines must fit in half of that.

  Key definitions include:
    * `Text.IsWithin`
    * `Document.AllowsDeed`, `Document.AllowsDeeds`
    * `PositionMap.IsSafe`
    * `Session.HasRoom`

  Main declarations:
    * `TextByte.Reach.compose`
    * `Session.HasRoom.exists_perform`
    * `Session.HasRoom.perform`
    * `Session.fits_of_performAll`
-/

------------------------------------------------------------
-- Deeds that are Allowed
------------------------------------------------------------

namespace Bracketry

/- The text and some lines behind it are below a limit. -/
def Text.IsWithin
    (limit count : Nat)
    (text : List Char) :
    Prop :=
  byteSize text + count + 1 < limit

instance
    (limit count : Nat)
    (text : List Char) :
    Decidable (Text.IsWithin limit count text) :=
  inferInstanceAs (Decidable (_ < _))

theorem Text.IsWithin.areCounted
    {limit count : Nat}
    {text : List Char}
    (hLimit : limit ≤ 2 ^ 32)
    (h : IsWithin limit count text) :
    Line.AreCounted (Line.split text) := by
  refine Line.areCounted_of_lt ?_
  unfold IsWithin at h
  unfold countLimit
  omega

/- Something is queued by it. -/
def Session.Deed.queues : Session.Deed → Bool
  | .step (.edit _ _ _) => true
  | .step (.classify _ _) => true
  | .notice _ => true
  | _ => false

namespace Document

/-
  An edit is between two positions of the document and keeps
  the text within the limit.  Lines that are announced may
  lie behind the end of the document, up to a given number.
  The index is told of all changes.
-/
def AllowsDeed
    (limit count : Nat)
    (document : Document) :
    Session.Deed → Prop
  | .step (.edit start stop text) =>
      start ≤ stop ∧ document.HasPosition start ∧
        document.HasPosition stop ∧
        Text.IsWithin limit count
          (document.after (.edit start stop text)).text
  | .step (.classify _ changed) =>
      ∀ span ∈ changed, span.last ≤ count
  | .notice changed => ∀ span ∈ changed, span.last ≤ count
  | .silent _ _ _ => False
  | _ => True

instance
    (limit count : Nat)
    (document : Document) :
    (deed : Session.Deed) →
      Decidable (document.AllowsDeed limit count deed)
  | .step (.edit _ _ _) => inferInstanceAs (Decidable (_ ∧ _))
  | .step (.classify _ _) =>
      inferInstanceAs (Decidable (∀ _ ∈ _, _))
  | .notice _ => inferInstanceAs (Decidable (∀ _ ∈ _, _))
  | .silent _ _ _ => .isFalse id
  | .step .declassify => .isTrue trivial
  | .step .complete => .isTrue trivial
  | .step .flush => .isTrue trivial
  | .ask _ => .isTrue trivial

/- Each deed is allowed when it is done. -/
def AllowsDeeds
    (limit count : Nat)
    (document : Document)
    (deeds : List Session.Deed) :
    Prop :=
  AllowsEach (AllowsDeed limit count) behind document deeds

instance
    (limit count : Nat)
    (document : Document)
    (deeds : List Session.Deed) :
    Decidable (document.AllowsDeeds limit count deeds) :=
  decidableAllowsEach document deeds

end Document

end Bracketry

------------------------------------------------------------
-- Queues of Bytes
------------------------------------------------------------

namespace Bracketry

open Measured

namespace TextByte

variable {limit count : Nat} {bytes middle new : List TextByte}
variable {edits batch : List Edit}

/- The edits turn fewer bytes than the limit into these. -/
def Reach
    (limit : Nat)
    (edits : List Edit)
    (bytes : List TextByte) :
    Prop :=
  ∃ old : List TextByte,
    old.length < limit ∧ Turns Eq 0 edits old bytes

/- Bytes below the limit fit. -/
theorem fitsFrom_of_length
    (hLimit : limit ≤ 2 ^ 32)
    (h : bytes.length < limit) :
    FitsFrom 0 bytes := by
  rintro before behind rfl
  have hExtent := extent_le_length before
  rw [List.length_append] at h
  rw [zero_add]
  unfold Length.Fits countLimit
  omega

/- Nothing queued is a queue for any bytes. -/
theorem reach_nil
    (h : bytes.length < limit) :
    Reach limit [] bytes := by
  refine ⟨bytes, h, .kept ?_⟩
  rw [List.forall₂_eq_eq_eq]

/- Below the limit, no composition is refused. -/
theorem Reach.compose
    (hLimit : limit ≤ 2 ^ 32)
    (h : Reach limit edits middle)
    (hTurns : Turns Eq 0 batch middle new)
    (hNew : new.length < limit) :
    ∃ composed,
      Edit.compose edits batch = .ok composed ∧
        Reach limit composed new := by
  rcases h with ⟨old, hOld, hBefore⟩
  rcases hBefore.compose sameSize_eq sameSize_eq hTurns
      (fitsFrom_of_length hLimit hOld)
      (fitsFrom_of_length hLimit hNew) with
    ⟨composed, hCompose, _, hAfter⟩
  rw [via_eq] at hAfter
  exact ⟨composed, hCompose, old, hOld, hAfter⟩

/- The bytes of a text, with the lines behind it. -/
def padded
    (count : Nat)
    (text : List Char) :
    List TextByte :=
  ofText text ++ pads count

theorem length_padded
    (count : Nat)
    (text : List Char) :
    (padded count text).length =
      Text.byteSize text + (count + 1) := by
  rw [padded, List.length_append, length_ofText, pads,
    List.length_replicate]

theorem length_padded_lt
    {text : List Char}
    (h : Text.IsWithin limit count text) :
    (padded count text).length < limit := by
  rw [length_padded]
  exact h

/- There are more lines than may be announced. -/
theorem lt_lines_padded
    (count : Nat)
    (text : List Char) :
    count < (extent (padded count text)).lines := by
  have hPads : (extent (pads count)).lines = count + 1 :=
    lines_replicate _ rfl
  rw [padded, extent_append, Length.add_lines, hPads]
  omega

/- Announced lines are edits that leave the bytes. -/
theorem turns_changed
    {text : List Char}
    {changed : List LineSpan}
    (hLimit : limit ≤ 2 ^ 32)
    (hText : Text.IsWithin limit count text)
    (hLines : ∀ span ∈ changed, span.last ≤ count) :
    Turns Eq 0 ((LineSpan.merge changed).map LineSpan.toEdit)
      (padded count text) (padded count text) := by
  have hMore := lt_lines_padded count text
  have hExtent := extent_le_length (padded count text)
  have hLength := length_padded_lt hText
  have hMax : maxCount = 2 ^ 32 - 1 := rfl
  refine Turns.ofChanged isLined (by omega) (by omega) ?_
    (.refl _ _)
  intro span hSpan
  have hLast := hLines span hSpan
  omega

end TextByte

end Bracketry

------------------------------------------------------------
-- Maps of Queues
------------------------------------------------------------

namespace Bracketry

open Measured

/- No shift of the map needs more than 32 bits. -/
def Shift.IsSmall
    (shift : Shift) :
    Prop :=
  shift.lines.natAbs < 2 ^ 31 ∧
    (shift.line = none ∨ shift.columns.natAbs < 2 ^ 31)

/- So it is for all questions that come in order. -/
def PositionMap.IsSafe
    (map : PositionMap) :
    Prop :=
  ∀ places : List Position,
    places.Pairwise (· ≤ ·) →
      (places.foldl PositionMap.advance map).shift.IsSmall

variable {α β : Type} [Measured α] [Measured β]
variable {rel : α → β → Prop} {old : List α} {new : List β}
variable {map : PositionMap} {seen place : Position}

/- The shift between two small texts is small. -/
theorem Maps.isSmall_shift
    (hOld : IsSmall old)
    (hNew : IsSmall new)
    (h : Maps rel old new map seen place) :
    map.shift.IsSmall := by
  rcases h with
    ⟨oldDone, oldRest, newDone, newRest, edits, rfl, rfl,
      hPassed⟩
  rcases hPassed.isExact with ⟨hLines, hColumns⟩
  have hOldEnd := hOld oldDone oldRest rfl
  have hNewEnd := hNew newDone newRest rfl
  refine ⟨by omega, ?_⟩
  rcases hColumns with ⟨hNone, _, _⟩ | ⟨_, hColumns⟩
  · exact .inl hNone
  · exact .inr (by omega)

/- It is so wherever the map is moved, step by step. -/
theorem Maps.isSmall_foldl
    (hSize : SameSize rel)
    (hOld : IsSmall old)
    (hNew : IsSmall new)
    (h : Maps rel old new map seen place)
    {places : List Position}
    (hFirst : ∀ later ∈ places, place ≤ later)
    (hOrder : places.Pairwise (· ≤ ·)) :
    (places.foldl PositionMap.advance map).shift.IsSmall := by
  induction places generalizing map place with
  | nil => exact h.isSmall_shift hOld hNew
  | cons next rest ih =>
      rw [List.pairwise_cons] at hOrder
      have hNext : place ≤ next := hFirst next (by simp)
      exact ih ((h.later hNext).advance hSize hOld hNew)
        hOrder.1 hOrder.2

/- Below half of the limit, the map of a queue is safe. -/
theorem TextByte.Reach.exists_map
    {limit : Nat}
    {edits : List Edit}
    {bytes : List TextByte}
    (hLimit : limit ≤ 2 ^ 31)
    (hBytes : bytes.length < limit)
    (h : TextByte.Reach limit edits bytes) :
    ∃ map, PositionMap.ofEdits edits = .ok map ∧ map.IsSafe := by
  rcases h with ⟨old, hOld, hTurns⟩
  have hOldSmall : IsSmall old :=
    TextByte.isSmall_of_length (by omega)
  have hNewSmall : IsSmall bytes :=
    TextByte.isSmall_of_length (by omega)
  rcases maps_ofEdits hTurns hOldSmall hNewSmall with
    ⟨map, hMap, hMaps⟩
  refine ⟨map, hMap, fun places hOrder => ?_⟩
  exact hMaps.isSmall_foldl sameSize_eq hOldSmall hNewSmall
    (fun later _ => Length.zero_le later) hOrder

end Bracketry

------------------------------------------------------------
-- Sessions with Room
------------------------------------------------------------

namespace Bracketry

open Measured

/- Both queues lead to bytes, and are in order. -/
structure Index.HasRoom
    (limit : Nat)
    (bytes : List TextByte)
    (index : Index) :
    Prop where
  orderly : index.IsOrderly
  edits : TextByte.Reach limit index.edits bytes
  plainEdits : TextByte.Reach limit index.plainEdits bytes

namespace Index

variable {limit : Nat} {bytes new : List TextByte}
variable {index after : Index} {batch : List Edit}

/- Edits are queued for the trees that they are meant for. -/
theorem HasRoom.queueEdits
    {forPlain : Bool}
    (hLimit : limit ≤ 2 ^ 32)
    (hNew : new.length < limit)
    (h : index.HasRoom limit bytes)
    (hTurns : Turns Eq 0 batch bytes new)
    (hAll : forPlain = true ∨ new = bytes) :
    ∃ after,
      index.queueEdits batch forPlain = .ok after ∧
        HasRoom limit new { after with isDirty := true } := by
  rcases h.edits.compose hLimit hTurns hNew with
    ⟨queued, hQueued, hReach⟩
  rcases h.plainEdits.compose hLimit hTurns hNew with
    ⟨plain, hPlain, hPlainReach⟩
  by_cases hBoth : (forPlain && index.plain.isSome) = true
  · have hQueue :
        index.queueEdits batch forPlain =
          .ok
            { index with
              edits := queued, plainEdits := plain } := by
      simp only [Index.queueEdits, hQueued, hPlain, bind,
        Except.bind, pure, Except.pure]
      exact if_pos hBoth
    exact ⟨_, hQueue,
      ⟨h.orderly.queueEdits hQueue, hReach, hPlainReach⟩⟩
  · have hQueue :
        index.queueEdits batch forPlain =
          .ok { index with edits := queued } := by
      simp only [Index.queueEdits, hQueued, bind, Except.bind,
        pure, Except.pure]
      exact if_neg hBoth
    refine ⟨_, hQueue,
      ⟨h.orderly.queueEdits hQueue, hReach, ?_⟩⟩
    -- Either there is no plain tree, or the bytes stay.
    rcases hAll with rfl | rfl
    · have hNone : index.plain = none := by
        simpa using hBoth
      dsimp only
      rw [h.orderly.absent hNone]
      exact TextByte.reach_nil hNew
    · exact h.plainEdits

theorem HasRoom.queueEdit
    {start stop : Position}
    {text : List Char}
    (hLimit : limit ≤ 2 ^ 32)
    (hNew : new.length < limit)
    (h : index.HasRoom limit bytes)
    (hTurns :
      Turns Eq 0 [Edit.replace start stop text] bytes new) :
    ∃ after,
      index.queueEdit start stop text = .ok after ∧
        after.HasRoom limit new := by
  rcases h.queueEdits hLimit hNew hTurns (.inl rfl) with
    ⟨after, hQueue, hRoom⟩
  refine ⟨_, ?_, hRoom⟩
  rw [Index.queueEdit, hQueue]
  rfl

theorem HasRoom.queueLines
    {changed : List LineSpan}
    (hLimit : limit ≤ 2 ^ 32)
    (hBytes : bytes.length < limit)
    (h : index.HasRoom limit bytes)
    (hTurns :
      Turns Eq 0
        ((LineSpan.merge changed).map LineSpan.toEdit) bytes
        bytes) :
    ∃ after,
      index.queueLines changed = .ok after ∧
        after.HasRoom limit bytes := by
  rcases h.queueEdits hLimit hBytes hTurns (.inr rfl) with
    ⟨after, hQueue, hRoom⟩
  unfold Index.queueLines
  dsimp only
  split
  · exact ⟨index, rfl, h⟩
  · refine ⟨_, ?_, hRoom⟩
    rw [hQueue]
    rfl

/- Empty queues have room for any bytes. -/
theorem IsIdle.hasRoom
    {content : Content}
    (hBytes : bytes.length < limit)
    (h : index.IsIdle content) :
    index.HasRoom limit bytes where
  orderly := h.isOrderly
  edits := by
    rw [h.edits]
    exact TextByte.reach_nil hBytes
  plainEdits := by
    rw [h.plainEdits]
    exact TextByte.reach_nil hBytes

end Index

namespace Session

/- The queues of the session lead to its text. -/
structure HasRoom
    (limit count : Nat)
    (session : Session) :
    Prop where
  text : Text.IsWithin limit count session.text
  index :
    session.index.HasRoom limit
      (TextByte.padded count session.text)

variable {limit count : Nat} {session next : Session}

theorem HasRoom.applyEdit
    {start stop : Position}
    {text : List Char}
    (hLimit : limit ≤ 2 ^ 32)
    (h : session.HasRoom limit count)
    (hAllows :
      session.document.document.AllowsDeed limit count
        (.step (.edit start stop text))) :
    ∃ next,
      session.applyEdit start stop text = .ok next ∧
        next.HasRoom limit count ∧
        next.document.document =
          session.document.document.after
            (.edit start stop text) := by
  rcases hAllows with ⟨hOrder, hStart, hStop, hWithin⟩
  rcases Document.exists_turns TextByte.ofText_append
      TextByte.extent_ofText (h.text.areCounted hLimit) hOrder
      hStart hStop with
    ⟨edited, hReplace, hAfter, hTurns⟩
  rw [hAfter] at hWithin
  rcases h.index.queueEdit hLimit
      (TextByte.length_padded_lt hWithin)
      (hTurns (TextByte.pads count)) with
    ⟨index, hIndex, hRoom⟩
  exact ⟨_, Session.applyEdit_eq_ok hReplace hIndex,
    ⟨hWithin, hRoom⟩, hAfter.symm⟩

theorem HasRoom.queueLines
    {changed : List LineSpan}
    (hLimit : limit ≤ 2 ^ 32)
    (h : session.HasRoom limit count)
    (hLines : ∀ span ∈ changed, span.last ≤ count) :
    ∃ index,
      session.index.queueLines changed = .ok index ∧
        index.HasRoom limit
          (TextByte.padded count session.text) :=
  h.index.queueLines hLimit (TextByte.length_padded_lt h.text)
    (TextByte.turns_changed hLimit h.text hLines)

/- What is queued is queued without overflow. -/
theorem HasRoom.exists_perform
    {deed : Deed}
    (hLimit : limit ≤ 2 ^ 32)
    (h : session.HasRoom limit count)
    (hQueues : deed.queues = true)
    (hAllows :
      session.document.document.AllowsDeed limit count
        deed) :
    ∃ next,
      session.perform deed = .ok next ∧
        next.HasRoom limit count ∧
        next.document.document =
          session.document.document.behind deed := by
  cases deed with
  | step step =>
      cases step with
      | edit start stop text =>
          exact h.applyEdit hLimit hAllows
      | classify spans changed =>
          rcases h.queueLines hLimit hAllows with
            ⟨index, hIndex, hRoom⟩
          refine ⟨⟨session.document.setSpans (some spans),
            index⟩, ?_, ⟨h.text, hRoom⟩, rfl⟩
          simp [perform, Session.step, Session.updateSpans,
            hIndex, bind, Except.bind, pure, Except.pure]
      | declassify => cases hQueues
      | complete => cases hQueues
      | flush => cases hQueues
  | silent start stop text => cases hQueues
  | notice changed =>
      rcases h.queueLines hLimit hAllows with
        ⟨index, hIndex, hRoom⟩
      refine ⟨{ session with index := index }, ?_,
        ⟨h.text, hRoom⟩, rfl⟩
      simp [perform, Session.queueLines, hIndex, bind,
        Except.bind, pure, Except.pure]
  | ask query => cases hQueues

/- Each deed that has an end keeps the room. -/
theorem HasRoom.perform
    {deed : Deed}
    (hLimit : limit ≤ 2 ^ 32)
    (h : session.HasRoom limit count)
    (hAllows :
      session.document.document.AllowsDeed limit count
        deed)
    (hDeed : session.perform deed = .ok next) :
    next.HasRoom limit count ∧
      next.document.document =
        session.document.document.behind deed := by
  cases hQueues : deed.queues with
  | true =>
      rcases h.exists_perform hLimit hQueues hAllows with
        ⟨other, hOther, hKept⟩
      rw [hDeed] at hOther
      rcases Except.ok.inj hOther with rfl
      exact hKept
  | false =>
      have hBytes := TextByte.length_padded_lt h.text
      cases deed with
      | step step =>
          cases step with
          | edit start stop text => cases hQueues
          | classify spans changed => cases hQueues
          | declassify =>
              cases hDeed
              exact ⟨⟨h.text, h.index⟩, rfl⟩
          | complete =>
              cases hDeed
              exact ⟨⟨h.text,
                h.index.orderly.completeClassification,
                h.index.edits, TextByte.reach_nil hBytes⟩, rfl⟩
          | flush =>
              rcases Checked.bind_eq_ok_iff.1 hDeed with
                ⟨index, hIndex, hDeed⟩
              cases hDeed
              have hIdle := h.index.orderly.isIdle_flush hIndex
              exact ⟨⟨h.text, hIdle.hasRoom hBytes⟩, rfl⟩
      | silent start stop text => exact absurd hAllows id
      | notice changed => cases hQueues
      | ask query =>
          rcases Checked.bind_eq_ok_iff.1 hDeed with
            ⟨⟨_, after⟩, hAsk, hDeed⟩
          cases hDeed
          rcases Checked.bind_eq_ok_iff.1 hAsk with
            ⟨⟨_, index⟩, hIndex, hAsk⟩
          cases hAsk
          have hOrderly := h.index.orderly.ask hIndex
          have hLike := Index.isLike_ask hIndex
          refine ⟨⟨h.text, hOrderly, ?_, ?_⟩, rfl⟩
          · rw [hLike]
            exact h.index.edits
          · rw [hLike]
            exact h.index.plainEdits

/- So do all of them. -/
theorem HasRoom.performAll
    {deeds : List Deed}
    (hLimit : limit ≤ 2 ^ 32)
    (h : session.HasRoom limit count)
    (hAllows :
      session.document.document.AllowsDeeds limit count
        deeds)
    (hDeeds : session.performAll deeds = .ok next) :
    next.HasRoom limit count := by
  induction deeds generalizing session with
  | nil =>
      cases hDeeds
      exact h
  | cons deed rest ih =>
      rw [performAll, List.foldlM_cons] at hDeeds
      rcases Checked.bind_eq_ok_iff.1 hDeeds with
        ⟨middle, hMiddle, hRest⟩
      rcases h.perform hLimit hAllows.1 hMiddle with
        ⟨hRoom, hDocument⟩
      refine ih hRoom ?_ hRest
      rw [hDocument]
      exact hAllows.2

theorem hasRoom_ofShared
    {table : TokenTable}
    {document : SharedDocument}
    (hText : Text.IsWithin limit count document.document.text)
    (h : ofShared table document = .ok session) :
    session.HasRoom limit count ∧
      session.document = document := by
  rcases isIdle_ofShared h with ⟨hIdle, hDocument⟩
  refine ⟨⟨?_, hIdle.hasRoom (TextByte.length_padded_lt ?_)⟩,
    hDocument⟩
  · rw [Session.text, hDocument]
    exact hText
  · rw [Session.text, hDocument]
    exact hText

/-
  Below 32 bits, nothing that is queued overflows, however
  it is mixed with notices of any lines up to a given
  number.  Below half of that, neither do the maps of the
  queues.  The edits of announced lines never do.
-/
theorem fits_of_performAll
    {table : TokenTable}
    {document : SharedDocument}
    {deeds : List Deed}
    {start last : Session}
    (hLimit : limit ≤ 2 ^ 32)
    (hText : Text.IsWithin limit count document.document.text)
    (hAllows :
      document.document.AllowsDeeds limit count deeds)
    (hStart : ofShared table document = .ok start)
    (hDeeds : start.performAll deeds = .ok last) :
    (∀ deed,
        deed.queues = true →
          last.document.document.AllowsDeed limit count deed →
            ∃ next, last.perform deed = .ok next) ∧
      (limit ≤ 2 ^ 31 →
        ∀ edits ∈ [last.index.edits, last.index.plainEdits],
          ∃ map,
            PositionMap.ofEdits edits = .ok map ∧
              map.IsSafe) ∧
      ∀ changed : List LineSpan,
        (∀ span ∈ changed, span.last ≤ maxCount) →
          ∀ span ∈ LineSpan.merge changed,
            span.first ≤ LineSpan.after span.last ∧
              LineSpan.after span.last ≤ maxCount := by
  rcases hasRoom_ofShared hText hStart with ⟨hFirst, hDocument⟩
  rw [← hDocument] at hAllows
  have hRoom := hFirst.performAll hLimit hAllows hDeeds
  have hBytes := TextByte.length_padded_lt hRoom.text
  refine ⟨?_, ?_, fun _ => LineSpan.first_le_after_of_merge⟩
  · intro deed hQueues hDeed
    rcases hRoom.exists_perform hLimit hQueues hDeed with
      ⟨next, hNext, _⟩
    exact ⟨next, hNext⟩
  · intro hHalf edits hMem
    rw [List.mem_pair] at hMem
    rcases hMem with rfl | rfl
    · exact hRoom.index.edits.exists_map hHalf hBytes
    · exact hRoom.index.plainEdits.exists_map hHalf hBytes

/-
  Many more lines are announced than there are, before and
  behind an edit that adds one.
-/
theorem fits_of_performAll_parens :
    let table :=
      TokenTable.ofDeclaration ⟨[⟨['('], [')']⟩], none⟩
    let document := SharedDocument.ofDocument
      (Document.ofText ['(', ')'])
    let deeds : List Deed :=
      [.notice [⟨0, 2 ^ 30⟩],
        .step (.edit ⟨0, 0⟩ ⟨0, 0⟩ ['\n']), .step .flush,
        .notice [⟨1, 2 ^ 30⟩, ⟨0, 0⟩]]
    Text.IsWithin (2 ^ 31) (2 ^ 30) document.document.text ∧
      document.document.AllowsDeeds (2 ^ 31) (2 ^ 30) deeds ∧
      ∃ start last,
        ofShared table document = .ok start ∧
          start.performAll deeds = .ok last ∧
          last.index.edits ≠ [] ∧
          ∀ edits ∈ [last.index.edits, last.index.plainEdits],
            ∃ map,
              PositionMap.ofEdits edits = .ok map ∧
                map.IsSafe := by
  intro table document deeds
  have hText :
      Text.IsWithin (2 ^ 31) (2 ^ 30) document.document.text :=
    by decide
  have hAllows :
      document.document.AllowsDeeds (2 ^ 31) (2 ^ 30)
        deeds := by
    decide +kernel
  have hRun :
      (ofShared table document >>= (performAll · deeds)
        ).toOption.any (fun last => last.index.edits != []) =
          true := by
    decide +kernel
  rcases Checked.exists_of_any hRun with ⟨last, hLast, hQueued⟩
  rcases Checked.bind_eq_ok_iff.1 hLast with
    ⟨start, hStart, hDeeds⟩
  rcases fits_of_performAll (by omega) hText hAllows hStart
      hDeeds with
    ⟨_, hMaps, _⟩
  exact ⟨hText, hAllows, start, last, hStart, hDeeds,
    bne_iff_ne.1 hQueued, hMaps (by omega)⟩

end Session

end Bracketry
