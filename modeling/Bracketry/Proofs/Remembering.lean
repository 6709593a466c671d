import Bracketry.Proofs.Asking
import Bracketry.Proofs.Reusing
import Bracketry.Proofs.Twins

/-
  What is remembered stays right.

  The indentation of a list is remembered under its key, and
  nothing is forgotten when the document is edited.  A flush
  keeps lists of the old tree only where their indentation
  is what it was, and gives new keys to all others.  So each
  answer is the one that would be computed from the text as
  it is, with nothing remembered.

  Key definitions include:
    * `Index.Remembers`
    * `Session.Arises`
    * `Session.IsFaithful`

  Main declarations:
    * `Index.standsIn_parse`
    * `Session.Arises.exists_isFaithful`
    * `Session.pairs_of_arises`
-/

------------------------------------------------------------
-- Trees of Content
------------------------------------------------------------

namespace Bracketry

open Measured

namespace Node

variable {content : Content} {text : List Char}
variable {known : List (Nat × Checked Nat)}

/- Keys change nothing that a tree stands for. -/
theorem StandsIn.giveKeys
    {start : Position}
    {root : Node}
    (next : Nat)
    (h : root.StandsIn content text known start) :
    (giveKeys next root).1.StandsIn content text
      (keyedValues content .empty start (giveKeys next root).1)
      start := by
  rcases h with ⟨before, part, behind, hText, hStart, hRoot, _⟩
  exact ⟨before, part, behind, hText, hStart,
    hRoot.giveKeys next, List.Subset.refl _⟩

end Node

namespace Index

/-
  The tree of a parse stands in the text of its content, and
  its lists with keys have values that were known.
-/
theorem standsIn_parse
    {table : TokenTable}
    {content old : Content}
    {past text : List Char}
    {job : ParseJob}
    {made : Node}
    {stats : ParseStats}
    {known : List (Nat × Checked Nat)}
    (hSolid : table.IsSolid)
    (hClear : table.IsClear)
    (hContent : content.Holds text)
    (hShort : Text.IsShort text)
    (hTabSize : content.tabSize = old.tabSize)
    (hOldLines : old.lines = Line.split past)
    (hPast : Text.IsShort past)
    (hJob :
      ∀ tree, job.old = some tree →
        Turns BreakChar.Stays 0 job.edits
            (BreakChar.ofText past ++ BreakChar.pads)
            (BreakChar.ofText text ++ BreakChar.pads) ∧
          tree.StandsIn old past known 0)
    (h : parse table content none job = .ok (made, stats)) :
    made.StandsIn content text known 0 := by
  let remake : Remake :=
    { source := ⟨content, SpanTable.plain, table⟩
      text := text
      content := old
      past := past
      known := known }
  have hSound : remake.IsSound :=
    ⟨hSolid, hClear, rfl,
      LineSource.isOf_of_isShort hContent.lines hShort, hShort,
      hTabSize, hOldLines, hPast⟩
  unfold parse at h
  split at h
  · refine remake.standsIn_parseDocument hSound ?_ (by simp) h
    rw [hContent.text_eq]
    exact .scanned _ rfl BreakChar.isWhole_nil
      (BreakChar.spells_of_scan hSolid hClear
        (Scan.spells_tokens hSolid hClear.isFlat text))
  · refine remake.standsIn_parseDocument hSound ?_ hJob h
    exact .lines rfl BreakChar.isWhole_nil hSound.script.start

end Index

end Bracketry

------------------------------------------------------------
-- Memories of an Index
------------------------------------------------------------

namespace Bracketry

namespace Index

/-
  Keys that were not given yet.  Their value is a fault, so
  nothing can be remembered for them.
-/
def keysAhead
    (next count : Nat) :
    List (Nat × Checked Nat) :=
  (List.range' next count).map (·, .error .overflow)

theorem mem_keysAhead
    {next count : Nat}
    {entry : Nat × Checked Nat} :
    entry ∈ keysAhead next count ↔
      (next ≤ entry.1 ∧ entry.1 < next + count) ∧
        entry.2 = .error .overflow := by
  rcases entry with ⟨key, value⟩
  simp only [keysAhead, List.mem_map, List.mem_range'_1,
    Prod.mk.injEq]
  constructor
  · rintro ⟨_, hKey, rfl, rfl⟩
    exact ⟨hKey, rfl⟩
  · rintro ⟨hKey, rfl⟩
    exact ⟨key, hKey, rfl, rfl⟩

/-
  What is remembered are values of the lists of a tree, or of
  lists that the tree has no more.
-/
def Remembers
    (index : Index)
    (content : Content)
    (root : Node) :
    Prop :=
  ∀ count,
    index.cache.IsSound
      (Node.keyedValues content .empty 0 root ++
        keysAhead index.nextKey count)
      .empty

variable {index after : Index} {content next : Content}
variable {root made : Node}

theorem isSound_empty
    (known : List (Nat × Checked Nat)) :
    IndentationCache.empty.IsSound known .empty :=
  ⟨nofun, nofun⟩

/- Nothing is remembered for keys that are ahead. -/
theorem Remembers.lt_nextKey
    {key value : Nat}
    (h : index.Remembers content root)
    (hCache : index.cache.get? (some key) = some value) :
    key < index.nextKey := by
  by_contra hLe
  have hAhead :
      (key, .error .overflow) ∈
        keysAhead index.nextKey (key - index.nextKey + 1) :=
    mem_keysAhead.2 ⟨⟨by omega, by omega⟩, rfl⟩
  have hValue :=
    (h _).sound key value hCache _
      (List.mem_append_right _ hAhead)
  cases hValue

/- Each key is known with one value. -/
theorem isFunctional_known
    (count : Nat)
    (hKeyed : root.IsKeyed index.nextKey) :
    IndentationCache.IsFunctional
      (Node.keyedValues content .empty 0 root ++
        keysAhead index.nextKey count) := by
  have hTree :
      ∀ key value,
        (key, value) ∈ Node.keyedValues content .empty 0 root →
          key < index.nextKey := by
    intro key value hEntry
    exact hKeyed.lt key
      ((Node.sublist_keyedValues 0 root).subset
        (List.mem_map_of_mem hEntry))
  intro key a b hA hB
  rw [List.mem_append] at hA hB
  rcases hA with hA | hA <;> rcases hB with hB | hB
  · exact Node.isFunctional_keyedValues 0 hKeyed key a b hA hB
  · have hLt := hTree key a hA
    have hLe := (mem_keysAhead.1 hB).1.1
    omega
  · have hLt := hTree key b hB
    have hLe := (mem_keysAhead.1 hA).1.1
    omega
  · exact (mem_keysAhead.1 hA).2.trans
      (mem_keysAhead.1 hB).2.symm

/-
  A tree whose lists have values that were known, or new
  keys, takes the place of both trees.
-/
theorem Remembers.withBoth
    {stats : ParseStats}
    {last : Nat}
    (hLast : index.nextKey ≤ last)
    (hMade :
      ∀ entry ∈ Node.keyedValues next .empty 0 made,
        entry ∈ Node.keyedValues content .empty 0 root ∨
          index.nextKey ≤ entry.1)
    (h : index.Remembers content root) :
    (index.withBoth next made last stats).Remembers next
      made := by
  refine fun count => ⟨?_, nofun⟩
  intro key value hCache found hKnown
  have hLt := h.lt_nextKey hCache
  rcases List.mem_append.1 hKnown with hTree | hAhead
  · rcases hMade _ hTree with hOld | hLe
    · exact (h 0).sound key value hCache found
        (List.mem_append_left _ hOld)
    · omega
  · have hLe : last ≤ key := (mem_keysAhead.1 hAhead).1.1
    omega

/- Walks go alike with all memories that are right. -/
theorem foresees_known
    {count : Nat}
    {wants : Bool}
    (hContent : index.content = some content)
    (hKeyed : root.IsKeyed index.nextKey)
    (hDepth :
      wants = true → root.nesting ≤ maxQueryDepth + 1)
    (hRoot : index.current? = some root) :
    index.Foresees
      (fun cache =>
        cache.IsSound
          (Node.keyedValues content .empty 0 root ++
            keysAhead index.nextKey count)
          .empty)
      wants := by
  cases wants with
  | false => exact foresees_false index _
  | true =>
      intro other hOther
      rw [hRoot] at hOther
      rcases Option.some.inj hOther with rfl
      rw [if_pos rfl, hContent]
      exact ⟨_, Node.allowsWalks_some
          (isFunctional_known count hKeyed),
        hDepth rfl, fun _ hEntry =>
          List.mem_append_left _ hEntry⟩

/- A query remembers what is right. -/
theorem Remembers.ask
    {live : Option Nat}
    {query : Session.Query}
    {answer : query.Answer}
    (hContent : index.content = some content)
    (hKeyed : root.IsKeyed index.nextKey)
    (hDepth :
      query.wantsIndentation = true →
        root.nesting ≤ maxQueryDepth + 1)
    (hRoot : index.current? = some root)
    (hAsk : index.ask live query = .ok (answer, after))
    (h : index.Remembers content root) :
    after.Remembers content root := by
  have hLike := isLike_ask hAsk
  have hNext : after.nextKey = index.nextKey := by rw [hLike]
  intro count
  rw [hNext]
  exact good_of_ask
    (foresees_known hContent hKeyed hDepth hRoot)
    (.refl index) (h count) hAsk

/- The pairs of the current tree, with what is remembered. -/
theorem map_pairs
    {live : Option Nat}
    (window : Range)
    (hContent : index.content = some content)
    (hRoot : index.current? = some root)
    (hLive : live = index.version) :
    (index.pairs live window true).map Prod.fst =
      (root.pairsIn ⟨window, some content⟩ index.cache).map
        Prod.fst := by
  unfold pairs visitPairs whenCurrent Node.pairsIn
  simp only [hRoot, if_pos hLive, if_pos, hContent]
  cases root.visitPairs ⟨window, some content⟩
    Visitor.collect ⟨[], index.cache⟩ <;> rfl

/-
  Where all that is remembered is right, pairs have the
  indentations that are computed with nothing remembered.
-/
theorem Remembers.pairs_eq
    {live : Option Nat}
    (window : Range)
    (hContent : index.content = some content)
    (hKeyed : root.IsKeyed index.nextKey)
    (hDepth : root.nesting ≤ maxQueryDepth + 1)
    (hRoot : index.current? = some root)
    (hLive : live = index.version)
    (h : index.Remembers content root) :
    (index.pairs live window true).map Prod.fst =
      (root.pairsIn ⟨window, some content⟩ .empty).map
        Prod.fst := by
  let forgetful : Index := { index with cache := .empty }
  let query : Session.Query := .pairs window true
  have hLike : index.IsLike forgetful := rfl
  have hSame :
      (index.ask live query).map Prod.fst =
        (forgetful.ask live query).map Prod.fst :=
    (agree_ask
      (foresees_known hContent hKeyed (fun _ => hDepth) hRoot)
      (.refl index) hLike (h 0) (isSound_empty _)).map_eq
        fun _ _ hAlike => hAlike.1
  have hForgetful :
      (forgetful.pairs live window true).map Prod.fst =
        (root.pairsIn ⟨window, some content⟩ .empty).map
          Prod.fst :=
    map_pairs window hContent hRoot hLive
  exact hSame.trans hForgetful

end Index

end Bracketry

------------------------------------------------------------
-- Faithful Sessions
------------------------------------------------------------

namespace Bracketry

open Measured

namespace Session

/-
  The sessions over a document without a classification, as
  it is edited, flushed and asked.  What is asked for
  indentations has no pairs that are nested too deeply for a
  query.
-/
inductive Arises
    (table : TokenTable)
    (document : Document) :
    Session → Prop where
  | opened
    {session : Session}
    (h : ofDocument table document = .ok session) :
    Arises table document session
  | edited
    {session after : Session}
    {start stop : Position}
    {text : List Char}
    (hArises : Arises table document session)
    (hAllows :
      session.document.document.Allows (.edit start stop text))
    (h : session.applyEdit start stop text = .ok after) :
    Arises table document after
  | flushed
    {session after : Session}
    (hArises : Arises table document session)
    (h : session.flush = .ok after) :
    Arises table document after
  | asked
    {session after : Session}
    {query : Query}
    {answer : query.Answer}
    (hArises : Arises table document session)
    (hDepth :
      query.wantsIndentation = true →
        ∀ root, session.index.current? = some root →
          root.nesting ≤ maxQueryDepth + 1)
    (h : session.ask query = .ok (answer, after)) :
    Arises table document after

/-
  The session has one tree, which stands in an older text,
  with the edits since then.  All that is remembered is right
  for the tree and the content that it was made from.
-/
structure IsFaithful
    (session : Session)
    (root : Node)
    (content : Content)
    (past : List Char) :
    Prop where
  sound : session.IsSound
  clear : session.index.table.IsClear
  spans : session.document.spans = none
  twin : session.index.IsTwin root
  key : root.key?.isSome = true
  keyed : root.IsKeyed session.index.nextKey
  madeFrom : session.index.content = some content
  version : session.index.version = some content.version
  lines : content.lines = Line.split past
  short : Text.IsShort past
  tabSize :
    content.tabSize = session.document.document.tabSize
  older :
    content.version ≤ session.document.document.version
  current :
    content.version = session.document.document.version →
      content = Content.ofDocument session.document.document
  stands :
    root.StandsIn content past
      (Node.keyedValues content .empty 0 root) 0
  turns :
    Turns BreakChar.Stays 0 session.index.edits
      (BreakChar.ofText past ++ BreakChar.pads)
      (BreakChar.ofText session.text ++ BreakChar.pads)
  remembers : session.index.Remembers content root

variable {table : TokenTable} {document : Document}
variable {session after : Session} {root : Node}
variable {content : Content} {past : List Char}

/-
  A tree that was made from the document as it is takes the
  place of both trees.
-/
theorem isFaithful_withBoth
    {index : Index}
    {made : Node}
    {stats : ParseStats}
    {shared : SharedDocument}
    (hSession :
      after =
        ⟨shared,
          index.withBoth (Content.ofDocument shared.document)
            (made.giveKeys index.nextKey).1
            (made.giveKeys index.nextKey).2 stats⟩)
    (hSound : after.IsSound)
    (hClear : index.table.IsClear)
    (hSpans : shared.spans = none)
    (hKeyed : made.IsKeyed index.nextKey)
    (hStands :
      made.StandsIn (Content.ofDocument shared.document)
        shared.document.text
        (Node.keyedValues content .empty 0 root) 0)
    (hRemembers : index.Remembers content root) :
    after.IsFaithful (made.giveKeys index.nextKey).1
      (Content.ofDocument shared.document)
      shared.document.text := by
  subst hSession
  have hKnown :
      ∀ entry ∈
          Node.keyedValues
            (Content.ofDocument shared.document) .empty 0
            (made.giveKeys index.nextKey).1,
        entry ∈ Node.keyedValues content .empty 0 root ∨
          index.nextKey ≤ entry.1 := by
    rcases hStands with ⟨_, _, _, _, _, _, hValues⟩
    intro entry hEntry
    exact (Node.mem_keyedValues_giveKeys made index.nextKey 0
      entry hEntry).imp (hValues ·) id
  exact
    { sound := hSound
      clear := hClear
      spans := hSpans
      twin := Index.isTwin_withBoth _ _ _ _ _
      key :=
        Node.key?_giveKeys
          (hSound.not_isBracket ⟨rfl, fun _ => rfl⟩ rfl)
      keyed := hKeyed.giveKeys
      madeFrom := rfl
      version := rfl
      lines := rfl
      short := hSound.short
      tabSize := rfl
      older := Nat.le_refl _
      current := fun _ => rfl
      stands := hStands.giveKeys index.nextKey
      turns := .kept (BreakChar.forall₂_stays_refl _)
      remembers :=
        hRemembers.withBoth (Node.le_giveKeys made _) hKnown }

/- A session begins faithful. -/
theorem exists_isFaithful_ofDocument
    (hSolid : table.IsSolid)
    (hClear : table.IsClear)
    (hShort : Text.IsShort document.text)
    (h : ofDocument table document = .ok session) :
    ∃ root content past,
      session.IsFaithful root content past := by
  let shared := SharedDocument.ofDocument document
  have hStart :
      ∃ session,
        ofShared table shared = .ok session ∧
          session.IsSound ∧ session.document = shared :=
    exists_ofShared hSolid hClear.isFlat hShort
  rcases hStart with ⟨other, hOther, hSound, _⟩
  cases hOther.symm.trans h
  rcases exists_of_ofShared h with ⟨index, hIndex, rfl⟩
  rcases Index.exists_of_ofPlain hIndex with
    ⟨made, stats, hParse, rfl⟩
  let content := Content.ofDocument document
  have hStands :
      made.StandsIn content document.text
        (Node.keyedValues content .empty 0 Node.emptyList) 0 :=
    Index.standsIn_parse hSolid hClear
      (Content.holds_ofDocument document) hShort rfl
      (show content.lines = Line.split document.text from rfl)
      hShort (by simp) hParse
  have hKeyed : made.IsKeyed 0 :=
    Index.isKeyed_parse (by simp) hParse
  exact ⟨_, _, _, isFaithful_withBoth rfl hSound hClear rfl
    hKeyed hStands fun _ => Index.isSound_empty _⟩

/- Only what is remembered matters, if nothing else changed. -/
theorem IsFaithful.ofLike
    {index : Index}
    (hLike : session.index.IsLike index)
    (hRemembers : index.Remembers content root)
    (h : session.IsFaithful root content past) :
    IsFaithful { session with index := index } root content
      past := by
  have hSound : IsSound { session with index := index } := by
    have hTable : index.table = session.index.table := by
      rw [hLike]
    refine ⟨?_, ?_, h.sound.short, ?_⟩
    · exact hTable ▸ h.sound.solid
    · exact hTable ▸ h.sound.flat
    · rw [hLike]
      exact ⟨h.sound.holds.plain, h.sound.holds.classified⟩
  rw [hLike] at hSound hRemembers ⊢
  exact
    { h with
      sound := hSound
      twin := ⟨h.twin.plain, h.twin.classified, h.twin.edits⟩
      remembers := hRemembers }

/- A flush keeps the session faithful, and up to date. -/
theorem IsFaithful.flush
    (h : session.IsFaithful root content past)
    (hFlush : session.flush = .ok after) :
    (∃ root content past,
        after.IsFaithful root content past) ∧
      after.liveVersion = after.index.version := by
  rcases h.sound.flush with ⟨other, hOther, hSound, _⟩
  cases hOther.symm.trans hFlush
  rcases Checked.bind_eq_ok_iff.1 hFlush with
    ⟨index, hIndex, hFlush⟩
  cases hFlush
  have hLive :
      session.live =
        ⟨Content.ofDocument session.document.document, none⟩ := by
    rw [live, SharedDocument.snapshot, h.spans]
  rw [hLive] at hIndex
  rcases h.twin.flush_cases h.key hIndex with
    ⟨hEdits, hVersion, rfl⟩ | ⟨made, stats, hParse, rfl⟩
  · exact ⟨⟨root, content, past, h.ofLike rfl h.remembers⟩,
      hVersion.symm⟩
  · have hJob :
        ∀ tree,
          (Index.jobOf root session.index.edits).old =
              some tree →
            tree = root := by
      intro tree hTree
      rw [Index.jobOf] at hTree
      split_ifs at hTree
      exact (Option.some.inj hTree).symm
    have hStands :=
      Index.standsIn_parse h.sound.solid h.clear
        (Content.holds_ofDocument session.document.document)
        h.sound.short h.tabSize.symm h.lines h.short
        (fun tree hTree => by
          rcases hJob tree hTree with rfl
          exact ⟨h.turns, h.stands⟩) hParse
    have hKeyed :=
      Index.isKeyed_parse
        (fun tree hTree => by
          rcases hJob tree hTree with rfl
          exact h.keyed) hParse
    exact ⟨⟨_, _, _, isFaithful_withBoth rfl hSound h.clear
      h.spans hKeyed hStands h.remembers⟩, rfl⟩

/- A replacement is an edit of the characters. -/
theorem turns_of_position
    {document : Document}
    {start stop : Position}
    {before cut behind : List Char}
    (inserted : List Char)
    (hShort : Text.IsShort document.text)
    (hText : document.text = before ++ (cut ++ behind))
    (hBefore : extent before = start)
    (hCut : start + extent cut = stop)
    (hStart : document.HasPosition start) :
    Turns BreakChar.Stays 0 [Edit.replace start stop inserted]
      (BreakChar.ofText document.text ++ BreakChar.pads)
      (BreakChar.ofText (before ++ (inserted ++ behind)) ++
        BreakChar.pads) := by
  subst hCut hBefore
  let source : LineSource :=
    ⟨Content.ofDocument document, SpanTable.plain, default⟩
  have hOf : source.IsOf (before ++ (cut ++ behind)) := by
    rw [← hText]
    exact LineSource.isOf_of_isShort rfl hShort
  have hPlace : source.HasPlace (Length.ofText before) := by
    rw [LineSource.hasPlace_iff hOf, ← hText,
      ← TextByte.hasPlace_iff, ← extent_chars]
    exact hStart.1
  rw [hText, extent_chars, extent_chars]
  exact BreakChar.turns_replace inserted
    (LineSource.cut_of_hasPlace hOf hPlace)

/- An edit leaves the tree, and is queued for it. -/
theorem IsFaithful.applyEdit
    {start stop : Position}
    {inserted : List Char}
    (h : session.IsFaithful root content past)
    (hAllows :
      session.document.document.Allows
        (.edit start stop inserted))
    (hEdit :
      session.applyEdit start stop inserted = .ok after) :
    after.IsFaithful root content past := by
  rcases h.sound.applyEdit hAllows with
    ⟨other, hOther, hSound, _⟩
  cases hOther.symm.trans hEdit
  rcases hAllows with ⟨hOrder, hStart, hStop, _⟩
  rcases Document.exists_of_replace inserted
      (Document.isCounted_of_isShort h.sound.short) hStart hStop
      hOrder with
    ⟨before, cut, behind, hText, hBefore, hCut, hReplace⟩
  rcases Checked.bind_eq_ok_iff.1 hEdit with
    ⟨replaced, hReplaced, hEdit⟩
  rcases Checked.bind_eq_ok_iff.1 hReplaced with
    ⟨shared, hShared, hReplaced⟩
  cases hReplaced
  rcases Checked.bind_eq_ok_iff.1 hShared with
    ⟨edited, hEdited, hShared⟩
  cases hShared
  cases hReplace.symm.trans hEdited
  rcases Checked.bind_eq_ok_iff.1 hEdit with
    ⟨index, hQueue, hEdit⟩
  cases hEdit
  rcases h.twin.queueEdit hQueue with ⟨composed, hComposed, rfl⟩
  have hTurns :=
    turns_of_position inserted h.sound.short hText hBefore
      hCut hStart
  rcases Turns.compose BreakChar.sameSize_stays
      BreakChar.sameSize_stays h.turns hTurns
      (BreakChar.isSmall_ofText h.short).fitsFrom
      (BreakChar.isSmall_ofText hSound.short).fitsFrom with
    ⟨other, hOther, _, hBoth⟩
  cases hOther.symm.trans hComposed
  rw [BreakChar.via_stays] at hBoth
  have hVersion :
      content.version <
        (session.document.document.edited
          (before ++ (inserted ++ behind))).version :=
    Nat.lt_succ_of_le h.older
  exact
    { h with
      sound := hSound
      twin := ⟨h.twin.plain, h.twin.classified, rfl⟩
      older := Nat.le_of_lt hVersion
      current := fun hSame =>
        absurd hSame (Nat.ne_of_lt hVersion)
      turns := hBoth }

theorem IsFaithful.current?_eq
    (h : session.IsFaithful root content past) :
    session.index.current? = some root := by
  rw [Index.current?, h.twin.plain]
  rfl

/- A query remembers more, and leaves all else. -/
theorem IsFaithful.ask
    {query : Query}
    {answer : query.Answer}
    (h : session.IsFaithful root content past)
    (hDepth :
      query.wantsIndentation = true →
        ∀ root, session.index.current? = some root →
          root.nesting ≤ maxQueryDepth + 1)
    (hAsk : session.ask query = .ok (answer, after)) :
    after.IsFaithful root content past := by
  rcases exists_of_ask hAsk with ⟨index, hIndex, rfl⟩
  have hRoot := h.current?_eq
  exact h.ofLike (Index.isLike_ask hIndex)
    (h.remembers.ask h.madeFrom h.keyed
      (fun hWants => hDepth hWants root hRoot) hRoot hIndex)

/- All sessions that arise are faithful. -/
theorem Arises.exists_isFaithful
    (hSolid : table.IsSolid)
    (hClear : table.IsClear)
    (hShort : Text.IsShort document.text)
    (h : Arises table document session) :
    ∃ root content past,
      session.IsFaithful root content past := by
  induction h with
  | opened h =>
      exact exists_isFaithful_ofDocument hSolid hClear hShort h
  | edited _ hAllows h ih =>
      rcases ih with ⟨root, content, past, hBefore⟩
      exact ⟨root, content, past, hBefore.applyEdit hAllows h⟩
  | flushed _ h ih =>
      rcases ih with ⟨root, content, past, hBefore⟩
      exact (hBefore.flush h).1
  | asked _ hDepth h ih =>
      rcases ih with ⟨root, content, past, hBefore⟩
      exact ⟨root, content, past, hBefore.ask hDepth h⟩

/-
  Whatever was remembered since a document was opened, and
  however it was edited, as long as its text stayed short: a
  session can be flushed, and where it is up to date, pairs
  have the indentations that are computed from the text as it
  is, with nothing remembered.
-/
theorem pairs_of_arises
    {declaration : BracketDeclaration}
    (hFlat : declaration.IsFlat)
    (hVisible : declaration.IsVisible)
    (hShort : Text.IsShort document.text)
    (h :
      Arises (TokenTable.ofDeclaration declaration) document
        session) :
    (∃ flushed,
      session.flush = .ok flushed ∧
        flushed.liveVersion = flushed.index.version) ∧
      (session.liveVersion = session.index.version →
        ∃ root,
          session.index.current? = some root ∧
            (root.nesting ≤ maxQueryDepth + 1 →
              ∀ window,
                (session.index.pairs session.liveVersion
                    window true).map Prod.fst =
                  (root.pairsIn
                    ⟨window, some session.live.content⟩
                    IndentationCache.empty).map Prod.fst)) := by
  rcases h.exists_isFaithful
      (TokenTable.isSolid_ofDeclaration declaration)
      (TokenTable.isClear_ofDeclaration hFlat hVisible)
      hShort with
    ⟨root, content, past, hFaithful⟩
  constructor
  · rcases hFaithful.sound.flush with ⟨flushed, hFlush, _⟩
    exact ⟨flushed, hFlush, (hFaithful.flush hFlush).2⟩
  · intro hLive
    refine ⟨root, hFaithful.current?_eq, ?_⟩
    intro hDepth window
    have hVersion := hLive
    rw [hFaithful.version] at hVersion
    have hContent : content = session.live.content :=
      hFaithful.current (Option.some.inj hVersion).symm
    rw [← hContent]
    exact hFaithful.remembers.pairs_eq window
      hFaithful.madeFrom hFaithful.keyed
      hDepth hFaithful.current?_eq hLive

/-
  The list inside a pair is asked for, moves with an edit
  that puts a line in front of it, and is asked for again.
-/
theorem pairs_of_arises_parens :
    let declaration : BracketDeclaration :=
      ⟨[⟨['('], [')']⟩], none⟩
    let table := TokenTable.ofDeclaration declaration
    let document :=
      (Document.ofText
        ['(', '\n', '\t', '(', ')', ' ', 'a', '\n', ')']).withTabSize
          8
    let window : Range := ⟨⟨0, 0⟩, ⟨4, 0⟩⟩
    ∃ start answer asked edited flushed root,
      ofDocument table document = .ok start ∧
        start.ask (.pairs window true) = .ok (answer, asked) ∧
        asked.applyEdit ⟨0, 0⟩ ⟨0, 0⟩ ['\n'] = .ok edited ∧
        edited.flush = .ok flushed ∧
        flushed.index.current? = some root ∧
        (flushed.index.pairs flushed.liveVersion window
            true).map Prod.fst =
          (root.pairsIn ⟨window, some flushed.live.content⟩
            IndentationCache.empty).map Prod.fst := by
  intro declaration table document window
  let isShallow (session : Session) : Bool :=
    session.index.current?.all
      (·.nesting ≤ maxQueryDepth + 1)
  have hGood :
      (ofDocument table document).toOption.any fun start =>
        isShallow start &&
        (start.ask (.pairs window true)).toOption.any
          fun (_, asked) =>
            decide (asked.document.document.Allows
              (.edit ⟨0, 0⟩ ⟨0, 0⟩ ['\n'])) &&
            (asked.applyEdit ⟨0, 0⟩ ⟨0, 0⟩ ['\n']).toOption.any
              fun edited =>
                edited.flush.toOption.any fun flushed =>
                  isShallow flushed &&
                  decide (flushed.liveVersion =
                    flushed.index.version) := by
    decide +kernel
  rcases Checked.exists_of_any hGood with ⟨start, hStart, hGood⟩
  rcases Bool.and_eq_true_iff.1 hGood with ⟨hShallow, hGood⟩
  rcases Checked.exists_of_any hGood with
    ⟨⟨answer, asked⟩, hAsked, hGood⟩
  rcases Bool.and_eq_true_iff.1 hGood with ⟨hAllows, hGood⟩
  rcases Checked.exists_of_any hGood with
    ⟨edited, hEdited, hGood⟩
  rcases Checked.exists_of_any hGood with
    ⟨flushed, hFlushed, hGood⟩
  rcases Bool.and_eq_true_iff.1 hGood with ⟨hDeep, hLive⟩
  have hArises : Arises table document flushed := by
    refine .flushed (.edited (.asked (.opened hStart) ?_ hAsked)
      (of_decide_eq_true hAllows) hEdited) hFlushed
    intro _ root hRoot
    simp only [isShallow, hRoot, Option.all_some,
      decide_eq_true_eq] at hShallow
    exact hShallow
  rcases pairs_of_arises (by decide) (by decide) (by decide)
      hArises with
    ⟨_, hPairs⟩
  rcases hPairs (of_decide_eq_true hLive) with
    ⟨root, hRoot, hPairs⟩
  refine ⟨start, answer, asked, edited, flushed, root, hStart,
    hAsked, hEdited, hFlushed, hRoot, hPairs ?_ window⟩
  simp only [isShallow, hRoot, Option.all_some,
    decide_eq_true_eq] at hDeep
  exact hDeep

end Session

end Bracketry
