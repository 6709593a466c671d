import Bracketry.Proofs.LineTrees
import Bracketry.Proofs.Synced

/-
  Sessions over classified documents.

  A revision is an edit and the classification of the edited
  text, with the lines that it concerns.  If all lines that
  were edited are among those, and all others that are not
  classified like the lines they came from, then the tree
  keeps in step with the bytes of the document.  Behind a
  flush it has the outline of a new session over the text
  and its classification, however many revisions there were
  since the last one.

  Key definitions include:
    * `Session.Revision`, `Session.revise`
    * `Session.Revision.Leaves`
    * `Document.AllowsRevision`
    * `Session.Act`, `SharedDocument.AllowsAct`
    * `Session.IsClassified`

  Main declarations:
    * `LineByte.agreesBut_revised`
    * `LineByte.queues_revision`
    * `Session.IsClassified.act`
    * `Session.revisions_isFresh`
-/

------------------------------------------------------------
-- Lines around a Cut
------------------------------------------------------------

namespace Bracketry

namespace Line

/- Only the line of a cut depends on both of its sides. -/
theorem exists_split_append
    (a b : List Char) :
    ∃ line,
      split (a ++ b) =
        (split a).dropLast ++ line :: (split b).tail := by
  have hSome := split_ne_nil b
  fun_induction split a with
  | case1 =>
      rcases List.exists_cons_of_ne_nil hSome with
        ⟨line, rest, hSplit⟩
      exact ⟨line, by simp [hSplit]⟩
  | case2 rest ih =>
      rcases ih with ⟨line, hSplit⟩
      refine ⟨line, ?_⟩
      rw [List.cons_append, split, hSplit,
        List.dropLast_cons_of_ne_nil (split_ne_nil rest)]
      rfl
  | case3 rest ih =>
      rcases ih with ⟨line, hSplit⟩
      refine ⟨line, ?_⟩
      rw [List.cons_append, List.cons_append, split, hSplit,
        List.dropLast_cons_of_ne_nil (split_ne_nil rest)]
      rfl
  | case4 c rest _ _ hNil ih =>
      exact absurd hNil (split_ne_nil rest)
  | case5 c rest hBreak hReturn first lines hCons ih =>
      rcases ih with ⟨line, hSplit⟩
      by_cases hFeed :
          c = '\r' ∧ (rest ++ b).head? = some '\n'
      · rcases hFeed with ⟨rfl, hHead⟩
        cases rest with
        | cons d more =>
            cases Option.some.inj hHead
            exact absurd rfl (hReturn more rfl)
        | nil =>
            cases hCons
            rcases List.head?_eq_some_iff.1 hHead with
              ⟨more, rfl⟩
            exact ⟨_, rfl⟩
      · rw [hCons] at hSplit
        cases lines with
        | nil =>
            refine ⟨⟨c :: line.text, line.ending⟩, ?_⟩
            exact split_cons hBreak hFeed hSplit
        | cons second others =>
            refine ⟨line, ?_⟩
            exact split_cons hBreak hFeed hSplit

end Line

end Bracketry

namespace Bracketry

namespace ClassifiedLine

variable {a b c : List Char} {old new : SpanTable}

/- A line in front of a cut does not depend on the rest. -/
theorem ofText_append_left
    {number : Nat}
    (hNumber : number < (Length.ofText a).lines)
    (hSpans : old.onLine number = new.onLine number) :
    ofText (a ++ b) old number = ofText (a ++ c) new number := by
  have hLine :
      ∀ rest,
        (Line.split (a ++ rest))[number]? =
          (Line.split a).dropLast[number]? := by
    intro rest
    rcases Line.exists_split_append a rest with ⟨line, hSplit⟩
    rw [hSplit]
    apply List.getElem?_append_left
    rw [List.length_dropLast, Line.length_split]
    exact hNumber
  unfold ofText
  rw [hLine b, hLine c, hSpans]

/- Nor does one behind it on the text in front. -/
theorem ofText_append_right
    {more : Nat}
    (hSpans :
      old.onLine ((Length.ofText a).lines + more + 1) =
        new.onLine ((Length.ofText b).lines + more + 1)) :
    ofText (a ++ c) old ((Length.ofText a).lines + more + 1) =
      ofText (b ++ c) new
        ((Length.ofText b).lines + more + 1) := by
  have hLine :
      ∀ first,
        (Line.split (first ++ c))[
            (Length.ofText first).lines + more + 1]? =
          (Line.split c).tail[more]? := by
    intro first
    rcases Line.exists_split_append first c with
      ⟨line, hSplit⟩
    have hLength :
        (Line.split first).dropLast.length =
          (Length.ofText first).lines := by
      rw [List.length_dropLast, Line.length_split]
      rfl
    rw [hSplit, List.getElem?_append_right (by omega),
      hLength, Nat.add_assoc, Nat.add_sub_cancel_left]
    rfl
  unfold ofText
  rw [hLine a, hLine b, hSpans]

end ClassifiedLine

end Bracketry

------------------------------------------------------------
-- Revisions
------------------------------------------------------------

namespace Bracketry

namespace Session

/-
  An edit, the classification of the edited text, and the
  lines whose classification may have changed.
-/
structure Revision where
  start : Position
  stop : Position
  text : List Char
  spans : SpanTable
  changed : List LineSpan
deriving DecidableEq, Repr, Inhabited

/- Edit the document and classify it anew. -/
def revise
    (session : Session)
    (revision : Revision) :
    Checked Session := do
  let session ←
    session.applyEdit revision.start revision.stop
      revision.text
  session.updateSpans revision.spans revision.changed

namespace Revision

/- The edit of a revision, as a step. -/
def edit
    (revision : Revision) :
    Step :=
  .edit revision.start revision.stop revision.text

/- The last of the lines that the inserted text is on. -/
def lastLine
    (revision : Revision) :
    Nat :=
  revision.start.lines + (Length.ofText revision.text).lines

/- The line of the old text that another line came from. -/
def originOf
    (revision : Revision)
    (line : Nat) :
    Nat :=
  if line < revision.start.lines then line
  else line - revision.lastLine + revision.stop.lines

/-
  The line is none of those that the inserted text is on,
  and it is classified like the line that it came from.
-/
def Leaves
    (revision : Revision)
    (old : SpanTable)
    (line : Nat) :
    Prop :=
  (line < revision.start.lines ∨ revision.lastLine < line) ∧
    revision.spans.onLine line =
      old.onLine (revision.originOf line)

instance
    (revision : Revision)
    (old : SpanTable)
    (line : Nat) :
    Decidable (revision.Leaves old line) :=
  inferInstanceAs (Decidable (_ ∧ _))

end Revision

end Session

instance
    (spans : List LineSpan)
    (line : Nat) :
    Decidable (LineSpan.Cover spans line) :=
  inferInstanceAs (Decidable (∃ _ ∈ spans, _))

/-
  A revision is between two positions of the document, and
  its result is admitted.  All lines that it does not leave
  as they were are among the changed ones, which may lie
  behind the end of the document, up to the given number.
-/
structure Document.AllowsRevision
    (document : Document)
    (table : TokenTable)
    (count : Nat)
    (old : SpanTable)
    (revision : Session.Revision) :
    Prop where
  order : revision.start ≤ revision.stop
  hasStart : document.HasPosition revision.start
  hasStop : document.HasPosition revision.stop
  admits :
    table.AdmitsLines count (document.after revision.edit).text
      revision.spans
  lines : ∀ span ∈ revision.changed, span.last ≤ count
  covers :
    ∀ line < (document.after revision.edit).lines.length,
      LineSpan.Cover revision.changed line ∨
        revision.Leaves old line

instance
    (document : Document)
    (table : TokenTable)
    (count : Nat)
    (old : SpanTable)
    (revision : Session.Revision) :
    Decidable
      (document.AllowsRevision table count old revision) :=
  decidable_of_iff
    (revision.start ≤ revision.stop ∧
      document.HasPosition revision.start ∧
      document.HasPosition revision.stop ∧
      table.AdmitsLines count
        (document.after revision.edit).text revision.spans ∧
      (∀ span ∈ revision.changed, span.last ≤ count) ∧
      ∀ line < (document.after revision.edit).lines.length,
        LineSpan.Cover revision.changed line ∨
          revision.Leaves old line)
    ⟨fun ⟨hOrder, hStart, hStop, hText, hLines, hCovers⟩ =>
        ⟨hOrder, hStart, hStop, hText, hLines, hCovers⟩,
      fun ⟨hOrder, hStart, hStop, hText, hLines, hCovers⟩ =>
        ⟨hOrder, hStart, hStop, hText, hLines, hCovers⟩⟩

end Bracketry

------------------------------------------------------------
-- Bytes of a Revised Text
------------------------------------------------------------

namespace Bracketry

open Measured

namespace LineByte

theorem isLined : IsLined LineByte := by
  intro lineByte
  rcases TextByte.length_cases lineByte.byte with hFlat | hBreak
  · exact .inl (congrArg Length.lines hFlat)
  · exact .inr hBreak

/- There are more lines than were put behind the end. -/
theorem lt_lines
    (text : List Char)
    (spans : SpanTable)
    (count : Nat) :
    count <
      (extent (ofText text spans ++ pads count)).lines := by
  have hPads : (extent (pads count)).lines = count + 1 :=
    lines_replicate _ rfl
  rw [extent_append, Length.add_lines, hPads]
  omega

/- The same bytes agree where they are stamped alike. -/
theorem agreesBut_stamp
    {covered : Nat → Prop}
    {lines others : Nat → ClassifiedLine}
    {place other : Position}
    {bytes : List TextByte}
    {line : Nat}
    (hLine : line = other.lines)
    (h :
      ∀ before behind,
        bytes = before ++ behind →
          covered (other + extent before).lines ∨
            lines (place + extent before).lines =
                others (other + extent before).lines ∧
              (place + extent before).columns =
                (other + extent before).columns) :
    AgreesBut Eq covered line (stamp lines place bytes)
      (stamp others other bytes) := by
  subst hLine
  induction bytes generalizing place other with
  | nil => trivial
  | cons byte rest ih =>
      refine ⟨rfl, ?_, ?_⟩
      · have hHere := h [] (byte :: rest) rfl
        rw [extent_nil, add_zero, add_zero] at hHere
        apply hHere.imp id
        intro hSame
        rw [hSame.1, hSame.2]
      · have hNext :
            other.lines + (size (LineByte.mk byte place.columns
              (lines place.lines))).lines =
              (other + byte.length).lines := by
          rw [Length.add_lines]
          rfl
        rw [hNext]
        apply ih
        intro before behind hRest
        have hLater := h (byte :: before) behind (by
          rw [hRest]
          rfl)
        rw [extent_cons, ← add_assoc, ← add_assoc] at hLater
        exact hLater

end LineByte

end Bracketry

namespace Bracketry

open Measured

namespace LineByte

variable {revision : Session.Revision} {old : SpanTable}
variable {before cut behind : List Char}

/-
  The bytes of a text with an edit, where what is kept still
  has the lines that it had.
-/
def edited
    (revision : Session.Revision)
    (old : SpanTable)
    (before cut behind : List Char) :
    List LineByte :=
  let lines :=
    ClassifiedLine.ofText (before ++ (cut ++ behind)) old
  let others :=
    ClassifiedLine.ofText
      (before ++ (revision.text ++ behind)) revision.spans
  stamp lines 0 (TextByte.ofText before) ++
    (stamp others revision.start
        (TextByte.ofText revision.text) ++
      stamp lines revision.stop (TextByte.ofText behind))

/- The bytes of a text that is cut in three. -/
theorem ofText_cut
    (spans : SpanTable)
    (first second third : List Char)
    {lines : Nat → ClassifiedLine}
    (hLines :
      lines =
        ClassifiedLine.ofText (first ++ (second ++ third))
          spans) :
    ofText (first ++ (second ++ third)) spans =
      stamp lines 0 (TextByte.ofText first) ++
        (stamp lines (Length.ofText first)
            (TextByte.ofText second) ++
          stamp lines
            (Length.ofText first + Length.ofText second)
            (TextByte.ofText third)) := by
  rw [ofText, TextByte.ofText_append, TextByte.ofText_append,
    stamp_append, stamp_append, zero_add, TextByte.extent_ofText,
    TextByte.extent_ofText, hLines]

/- The edit turns the bytes of the old text into those. -/
theorem turns_edited
    (count : Nat)
    (hStart : revision.start = Length.ofText before)
    (hStop :
      revision.stop = revision.start + Length.ofText cut) :
    Turns Eq 0
      [Edit.replace revision.start revision.stop
        revision.text]
      (ofText (before ++ (cut ++ behind)) old ++ pads count)
      (edited revision old before cut behind ++
        pads count) := by
  rw [ofText_cut old before cut behind rfl, edited,
    ← hStart, ← hStop]
  simp only [List.append_assoc]
  apply Turns.single
  · rw [List.forall₂_eq_eq_eq]
  · rw [List.forall₂_eq_eq_eq]
  · rw [extent_stamp, TextByte.extent_ofText, ← hStart]
    rfl
  · rw [extent_stamp, TextByte.extent_ofText]
    exact hStop
  · rw [extent_stamp, TextByte.extent_ofText]
    rfl

/- In front of the edit, lines keep their numbers. -/
theorem agreesBut_before
    {lines others : Nat → ClassifiedLine}
    (hLines :
      lines =
        ClassifiedLine.ofText (before ++ (cut ++ behind)) old)
    (hOthers :
      others =
        ClassifiedLine.ofText
          (before ++ (revision.text ++ behind)) revision.spans)
    (hStart : revision.start = Length.ofText before)
    (hCovers :
      ∀ line ≤ revision.start.lines,
        LineSpan.Cover revision.changed line ∨
          revision.Leaves old line) :
    AgreesBut Eq (LineSpan.Cover revision.changed) 0
      (stamp lines 0 (TextByte.ofText before))
      (stamp others 0 (TextByte.ofText before)) := by
  subst hLines hOthers
  apply agreesBut_stamp Length.zero_lines.symm
  intro first rest hSplit
  rw [zero_add]
  have hFirst := congrArg extent hSplit
  rw [TextByte.extent_ofText, ← hStart, extent_append] at hFirst
  have hLine := congrArg Length.lines hFirst
  rw [Length.add_lines] at hLine
  apply (hCovers (extent first).lines (by omega)).imp id
  rintro ⟨hOutside, hSpans⟩
  unfold Session.Revision.lastLine at hOutside
  have hLess :
      (extent first).lines < revision.start.lines := by
    omega
  rw [Session.Revision.originOf, if_pos hLess] at hSpans
  rw [hStart] at hLess
  exact ⟨ClassifiedLine.ofText_append_left hLess hSpans.symm,
    rfl⟩

/- Behind the edit, all lines move by the same number. -/
theorem agreesBut_behind
    {lines others : Nat → ClassifiedLine}
    (hLines :
      lines =
        ClassifiedLine.ofText (before ++ (cut ++ behind)) old)
    (hOthers :
      others =
        ClassifiedLine.ofText
          (before ++ (revision.text ++ behind)) revision.spans)
    (hStart : revision.start = Length.ofText before)
    (hStop :
      revision.stop = revision.start + Length.ofText cut)
    (hCovers :
      ∀ line ≤
          revision.lastLine + (Length.ofText behind).lines,
        LineSpan.Cover revision.changed line ∨
          revision.Leaves old line) :
    AgreesBut Eq (LineSpan.Cover revision.changed)
      revision.lastLine
      (stamp lines revision.stop (TextByte.ofText behind))
      (stamp others
        (revision.start + Length.ofText revision.text)
        (TextByte.ofText behind)) := by
  subst hLines hOthers
  unfold Session.Revision.lastLine at hCovers ⊢
  apply agreesBut_stamp (Length.add_lines _ _).symm
  intro first rest hSplit
  have hFirst := congrArg extent hSplit
  rw [TextByte.extent_ofText, extent_append] at hFirst
  have hLine := congrArg Length.lines hFirst
  rw [Length.add_lines] at hLine
  simp only [Length.add_lines, Length.add_columns]
  apply (hCovers _ (by omega)).imp id
  rintro ⟨hOutside, hSpans⟩
  unfold Session.Revision.originOf at hSpans
  unfold Session.Revision.lastLine at hOutside hSpans
  -- The line is not the first of what is behind the edit.
  rcases Nat.exists_eq_succ_of_ne_zero
      (by omega : (extent first).lines ≠ 0) with
    ⟨more, hMore⟩
  have hOld :
      revision.stop.lines + (extent first).lines =
        (Length.ofText (before ++ cut)).lines + more + 1 := by
    rw [hStop, hStart, ← Length.ofText_append, hMore]
    rfl
  have hNew :
      revision.start.lines +
          (Length.ofText revision.text).lines +
          (extent first).lines =
        (Length.ofText (before ++ revision.text)).lines +
          more + 1 := by
    rw [hStart, ← Length.add_lines, ← Length.ofText_append,
      hMore]
    rfl
  have hOrigin :
      revision.start.lines +
            (Length.ofText revision.text).lines +
            (extent first).lines -
          (revision.start.lines +
            (Length.ofText revision.text).lines) +
          revision.stop.lines =
        revision.stop.lines + (extent first).lines := by
    omega
  rw [if_neg (by omega), hOrigin, hOld, hNew] at hSpans
  rw [hOld, hNew, ← List.append_assoc, ← List.append_assoc]
  refine ⟨ClassifiedLine.ofText_append_right hSpans.symm, ?_⟩
  rw [if_neg (by omega), if_neg (by omega)]

/-
  They agree with the bytes of the new text, but for the
  lines that changed.
-/
theorem agreesBut_revised
    (count : Nat)
    (hStart : revision.start = Length.ofText before)
    (hStop :
      revision.stop = revision.start + Length.ofText cut)
    (hCovers :
      ∀ line ≤
          (Length.ofText
            (before ++ (revision.text ++ behind))).lines,
        LineSpan.Cover revision.changed line ∨
          revision.Leaves old line) :
    AgreesBut Eq (LineSpan.Cover revision.changed) 0
      (edited revision old before cut behind ++ pads count)
      (ofText (before ++ (revision.text ++ behind))
        revision.spans ++ pads count) := by
  simp only [Length.ofText_append, Length.add_lines,
    ← hStart] at hCovers
  have hFar :
      ∀ line ≤
          revision.lastLine + (Length.ofText behind).lines,
        LineSpan.Cover revision.changed line ∨
          revision.Leaves old line := by
    intro line hLine
    unfold Session.Revision.lastLine at hLine
    exact hCovers line (by omega)
  have hBehind := agreesBut_behind rfl rfl hStart hStop hFar
  have hLast :
      revision.lastLine =
        0 + (extent (TextByte.ofText before)).lines +
          (extent (TextByte.ofText revision.text)).lines := by
    rw [TextByte.extent_ofText, TextByte.extent_ofText, ← hStart,
      Nat.zero_add]
    rfl
  rw [hLast] at hBehind
  rw [ofText_cut _ _ _ _ rfl, edited, ← hStart]
  refine .append (.append ?_ (.append (.refl _ _) ?_))
    (.refl _ _)
  · exact agreesBut_before rfl rfl hStart fun line hLine =>
      hCovers line (by omega)
  · simpa only [extent_stamp] using hBehind

end LineByte

end Bracketry

------------------------------------------------------------
-- Queued Revisions
------------------------------------------------------------

namespace Bracketry

open Measured

namespace LineByte

/- The tree follows the bytes of a classified text. -/
def Follows
    (table : TokenTable)
    (count : Nat)
    (text : List Char)
    (spans : SpanTable) :
    Node → List Edit → Prop :=
  (account table count).Follows (ofText text spans)

variable {table : TokenTable} {count : Nat}
variable {revision : Session.Revision} {old : SpanTable}
variable {before cut behind : List Char}

/- The kept bytes and those of the edit spell the new text. -/
theorem map_byte_edited :
    (edited revision old before cut behind).map byte =
      TextByte.ofText (before ++ (revision.text ++ behind)) := by
  simp only [edited, List.map_append, map_byte_stamp,
    TextByte.ofText_append]

/-
  The edit of a revision turns a text into pieces, which its
  lines turn into the new text.
-/
theorem queues_revision
    (hStart : revision.start = Length.ofText before)
    (hStop :
      revision.stop = revision.start + Length.ofText cut)
    (hText :
      table.AdmitsLines count
        (before ++ (revision.text ++ behind)) revision.spans)
    (hLines : ∀ span ∈ revision.changed, span.last ≤ count)
    (hCovers :
      ∀ line ≤
          (Length.ofText
            (before ++ (revision.text ++ behind))).lines,
        LineSpan.Cover revision.changed line ∨
          revision.Leaves old line) :
    ∃ Meets : Node → List Edit → Prop,
      Index.Queues
          [Edit.replace revision.start revision.stop
            revision.text]
          (Follows table count (before ++ (cut ++ behind)) old)
          Meets ∧
        Index.Queues
          ((LineSpan.merge revision.changed).map
            LineSpan.toEdit)
          Meets
          (Follows table count
            (before ++ (revision.text ++ behind))
            revision.spans) := by
  have hSound : (account table count).IsSound :=
    isSound_account table count
  have hMore :=
    lt_lines (before ++ (revision.text ++ behind))
      revision.spans count
  refine ⟨((account table count).Reaches Eq · ·
    (edited revision old before cut behind ++ pads count)),
    ?_, ?_⟩
  · intro root edits hFollows
    have hQueue :=
      Account.Reaches.queue hSound sameSize_eq sameSize_eq
        ((carries_of_bytes count map_byte_edited).isSmall
          hText.size).fitsFrom
        hFollows (turns_edited count hStart hStop)
    rwa [via_eq] at hQueue
  · refine Account.queues_changed hSound ⟨_, _, rfl, hText⟩
      isLined (Nat.zero_lt_of_lt hMore) ?_
      (agreesBut_revised count hStart hStop hCovers)
    intro span hSpan
    exact Nat.lt_of_le_of_lt (hLines span hSpan) hMore

end LineByte

end Bracketry

------------------------------------------------------------
-- Classified Sessions
------------------------------------------------------------

namespace Bracketry

namespace Session

/- A revision of the document, or a flush. -/
inductive Act where
  | revise (revision : Revision)
  | flush
deriving DecidableEq, Repr, Inhabited

/- Take one of these. -/
def act
    (session : Session) :
    Act → Checked Session
  | .revise revision => session.revise revision
  | .flush => session.flush

end Session

namespace SharedDocument

/- The document behind it. -/
def afterAct
    (document : SharedDocument) :
    Session.Act → SharedDocument
  | .revise revision =>
      ⟨document.document.after revision.edit,
        some revision.spans⟩
  | .flush => document

/- A flush is allowed everywhere. -/
def AllowsAct
    (table : TokenTable)
    (count : Nat)
    (document : SharedDocument) :
    Session.Act → Prop
  | .revise revision =>
      document.document.AllowsRevision table count
        (document.spans.getD SpanTable.plain) revision
  | .flush => True

instance
    (table : TokenTable)
    (count : Nat)
    (document : SharedDocument) :
    (act : Session.Act) →
      Decidable (document.AllowsAct table count act)
  | .revise _ =>
      inferInstanceAs (Decidable (Document.AllowsRevision ..))
  | .flush => .isTrue trivial

end SharedDocument

namespace Session

variable {table : TokenTable} {count : Nat}
variable {session : Session}

/-
  The only tree of the session follows the classification of
  its document.
-/
structure IsClassified
    (table : TokenTable)
    (count : Nat)
    (session : Session) :
    Prop where
  table_eq : session.index.table = table
  spans :
    ∃ spans,
      session.document.spans = some spans ∧
        table.AdmitsLines count session.text spans ∧
        session.index.Holds (fun _ _ => False)
          (LineByte.Follows table count session.text spans)

theorem IsClassified.revise
    {revision : Revision}
    (h : session.IsClassified table count)
    (hAllows :
      session.document.AllowsAct table count
        (.revise revision)) :
    ∃ next,
      session.revise revision = .ok next ∧
        next.IsClassified table count ∧
        next.document =
          session.document.afterAct (.revise revision) := by
  rcases h with ⟨hTable, spans, hSpans, hOld, hHolds⟩
  rw [SharedDocument.AllowsAct, hSpans, Option.getD_some]
    at hAllows
  rcases Document.exists_of_replace revision.text
      (Document.isCounted_of_isShort hOld.isShort)
      hAllows.hasStart hAllows.hasStop hAllows.order with
    ⟨before, cut, behind, hText, hBefore, hCut, hReplace⟩
  have hAfter :
      session.document.document.after revision.edit =
        session.document.document.edited
          (before ++ (revision.text ++ behind)) := by
    rw [Revision.edit, Document.after, hReplace]
  have hAdmits := hAllows.admits
  have hCovers := hAllows.covers
  rw [hAfter] at hAdmits hCovers
  rw [extent_chars] at hBefore hCut
  rcases LineByte.queues_revision hBefore.symm hCut.symm hAdmits
      hAllows.lines fun line hLine =>
        hCovers line (by
          rw [Document.lines, Line.length_split]
          exact Nat.lt_succ_of_le hLine) with
    ⟨Meets, hEdit, hLines⟩
  rw [text, hText] at hHolds
  have hPlain :
      Index.Queues
        [Edit.replace revision.start revision.stop
          revision.text]
        (fun _ _ => False) fun _ _ => False :=
    fun _ _ hNone => hNone.elim
  rcases hHolds.queueEdit hPlain hEdit with
    ⟨edited, hEdited, hMeets, hSame, _⟩
  rcases hMeets.queueLines hLines with
    ⟨index, hIndex, hNew, hLast, _⟩
  refine ⟨⟨⟨session.document.document.edited
      (before ++ (revision.text ++ behind)),
      some revision.spans⟩, index⟩, ?_,
    ⟨hLast.trans (hSame.trans hTable), revision.spans, rfl,
      hAdmits, hNew⟩, ?_⟩
  · simp [Session.revise, applyEdit, replace,
      SharedDocument.replace, updateSpans,
      SharedDocument.setSpans, hReplace, hEdited, hIndex,
      bind, Except.bind, pure, Except.pure]
  · rw [SharedDocument.afterAct, hAfter]

/- A flush leaves a tree that describes the document. -/
theorem IsClassified.flush
    (hSolid : table.IsSolid)
    (h : session.IsClassified table count) :
    ∃ next,
      session.flush = .ok next ∧
        next.IsClassified table count ∧
        next.index.IsSettled ∧
        next.document = session.document := by
  rcases h with ⟨hTable, spans, hSpans, hText, hHolds⟩
  have hCovers :
      (LineByte.account table count).Covers session.index.table
        session.live.content session.live.spans
        (LineByte.ofText session.text spans) := by
    have hLive : session.live.spans = some spans := hSpans
    rw [hTable, hLive]
    exact LineByte.covers (Content.holds_ofDocument _) hSolid
      hText
  rcases hHolds.flush (fun _ _ hNone => hNone.elim)
      (fun _ _ hRoot => hCovers.makes hRoot)
      (fun hNone => by
        have hLive : session.document.spans = none := hNone
        rw [hSpans] at hLive
        cases hLive) with
    ⟨index, hIndex, hNew, hFlushed⟩
  exact ⟨_, flush_eq_ok hIndex,
    ⟨hFlushed.table.trans hTable, spans, hSpans, hText, hNew⟩,
    hFlushed.settled, rfl⟩

theorem IsClassified.act
    {act : Act}
    (hSolid : table.IsSolid)
    (h : session.IsClassified table count)
    (hAllows : session.document.AllowsAct table count act) :
    ∃ next,
      session.act act = .ok next ∧
        next.IsClassified table count ∧
        next.document = session.document.afterAct act := by
  cases act with
  | revise revision => exact h.revise hAllows
  | flush =>
      rcases h.flush hSolid with ⟨next, hFlush, hNext, _, hSame⟩
      exact ⟨next, hFlush, hNext, hSame⟩

/- A session over a classified document begins so. -/
theorem exists_withSpans
    {document : Document}
    {spans : SpanTable}
    (hSolid : table.IsSolid)
    (hText : table.AdmitsLines count document.text spans) :
    ∃ session,
      withSpans table document spans = .ok session ∧
        session.IsClassified table count ∧
        session.index.IsSettled ∧
        session.document = ⟨document, some spans⟩ := by
  have hCovers :
      (LineByte.account table count).Covers table
        (Content.ofDocument document) (some spans)
        (LineByte.ofText document.text spans) :=
    LineByte.covers (Content.holds_ofDocument _) hSolid hText
  let noTree : Node → List Edit → Prop := fun _ _ => False
  have hPlain :
      (SharedDocument.mk document (some spans)).snapshot.spans =
          none →
        ∀ root,
          LineByte.Follows table count document.text spans root
              [] →
            noTree root [] := by
    rintro ⟨⟩
  rcases Index.ofSnapshot_spec hCovers.makes_fresh hPlain with
    ⟨index, hIndex, hHolds, hSettled, hTable, _⟩
  exact ⟨_, ofShared_eq_ok hIndex,
    ⟨hTable, spans, rfl, hText, hHolds⟩, hSettled, rfl⟩

/- The brackets of the document tell the outline. -/
theorem IsClassified.outline
    {spans : SpanTable}
    (h : session.IsClassified table count)
    (hSettled : session.index.IsSettled)
    (hSpans : session.document.spans = some spans) :
    ∃ root,
      session.index.current? = some root ∧
        root.outline =
          .ok (table.outlineOf session.text spans) := by
  rcases h with ⟨_, others, hOthers, hText, hHolds⟩
  rw [hSpans] at hOthers
  rcases Option.some.inj hOthers with rfl
  rcases hHolds.classified with ⟨root, hRoot, hFollows⟩
  rw [hSettled.classified] at hFollows
  have hPlain : session.index.plain = none := by
    rw [Option.eq_none_iff_forall_ne_some]
    intro other hOther
    exact hHolds.plain other hOther
  refine ⟨root, by rw [Index.current?, hPlain, hRoot]; rfl, ?_⟩
  exact LineByte.outline_of_describes hText
    (Account.Follows.describes hFollows)

/-
  The tree that queries read has the outline of the tree of
  a new session over the text as it is classified.
-/
def IsFreshlyClassified
    (table : TokenTable)
    (session : Session) :
    Prop :=
  ∃ spans fresh root node outline,
    session.document.spans = some spans ∧
      withSpans table (Document.ofText session.text) spans =
        .ok fresh ∧
      fresh.index.current? = some root ∧
      session.index.current? = some node ∧
      root.outline = .ok outline ∧ node.outline = .ok outline

theorem IsClassified.isFreshlyClassified
    (hSolid : table.IsSolid)
    (h : session.IsClassified table count)
    (hSettled : session.index.IsSettled) :
    session.IsFreshlyClassified table := by
  rcases h.spans with ⟨spans, hSpans, hText, _⟩
  have hAdmits :
      table.AdmitsLines count
        (Document.ofText session.text).text spans :=
    hText
  rcases exists_withSpans hSolid hAdmits with
    ⟨fresh, hFresh, hBegins, hRests, hDocument⟩
  rcases h.outline hSettled hSpans with ⟨node, hNode, hOutline⟩
  rcases hBegins.outline hRests
      (congrArg SharedDocument.spans hDocument) with
    ⟨root, hRoot, hSame⟩
  have hFreshText : fresh.text = session.text := by
    rw [text, hDocument]
    rfl
  rw [hFreshText] at hSame
  exact ⟨spans, fresh, root, node, _, hSpans, hFresh, hRoot,
    hNode, hSame, hOutline⟩

/-
  A flush behind any revisions and flushes leaves a tree with
  the outline of a new session over the text as it is
  classified then.
-/
theorem revisions_isFresh
    {declaration : BracketDeclaration}
    {document : Document}
    {spans : SpanTable}
    {acts : List Act}
    (hText :
      (TokenTable.ofDeclaration declaration).AdmitsLines count
        document.text spans)
    (hAllows :
      AllowsEach
        (SharedDocument.AllowsAct
          (TokenTable.ofDeclaration declaration) count)
        SharedDocument.afterAct ⟨document, some spans⟩ acts) :
    ∃ start last flushed,
      withSpans (TokenTable.ofDeclaration declaration)
          document spans = .ok start ∧
        acts.foldlM act start = .ok last ∧
        last.flush = .ok flushed ∧
        flushed.document =
          acts.foldl SharedDocument.afterAct
            ⟨document, some spans⟩ ∧
        flushed.IsFreshlyClassified
          (TokenTable.ofDeclaration declaration) := by
  have hSolid := TokenTable.isSolid_ofDeclaration declaration
  rcases exists_withSpans hSolid hText with
    ⟨start, hStart, hBegins, _, hDocument⟩
  rw [← hDocument] at hAllows
  rcases exists_foldlM (fun session => session.document)
      (fun _ hKept hAct => hKept.act hSolid hAct) hBegins
      hAllows with
    ⟨last, hRun, hLast, hAfter⟩
  rcases hLast.flush hSolid with
    ⟨flushed, hFlush, hNew, hSettled, hSame⟩
  refine ⟨start, last, flushed, hStart, hRun, hFlush, ?_,
    hNew.isFreshlyClassified hSolid hSettled⟩
  rw [hSame, hAfter, hDocument]

/- A line break moves a comment, which is told of no more. -/
theorem revisions_isFresh_comment :
    let declaration : BracketDeclaration :=
      ⟨[⟨['('], [')']⟩], none⟩
    let table := TokenTable.ofDeclaration declaration
    let document := Document.ofText ['(', '\n', ')']
    let old : SpanTable := ⟨[Span.plain, [⟨0, .comment⟩]]⟩
    let new : SpanTable :=
      ⟨[Span.plain, Span.plain, [⟨0, .comment⟩]]⟩
    let acts : List Act :=
      [.revise ⟨⟨0, 1⟩, ⟨0, 1⟩, [')'], old, [⟨0, 0⟩]⟩, .flush,
        .revise ⟨⟨0, 0⟩, ⟨0, 0⟩, ['\n'], new, [⟨0, 1⟩]⟩]
    table.AdmitsLines 1 document.text old ∧
      AllowsEach (SharedDocument.AllowsAct table 1)
        SharedDocument.afterAct ⟨document, some old⟩ acts ∧
      ∃ start last flushed,
        withSpans table document old = .ok start ∧
          acts.foldlM act start = .ok last ∧
          last.flush = .ok flushed ∧
          flushed.document =
            acts.foldl SharedDocument.afterAct
              ⟨document, some old⟩ ∧
          flushed.IsFreshlyClassified table := by
  intro declaration table document old new acts
  have hText : table.AdmitsLines 1 document.text old := by
    decide +kernel
  have hAllows :
      AllowsEach (SharedDocument.AllowsAct table 1)
        SharedDocument.afterAct ⟨document, some old⟩ acts := by
    decide +kernel
  exact ⟨hText, hAllows, revisions_isFresh hText hAllows⟩

end Session

end Bracketry
