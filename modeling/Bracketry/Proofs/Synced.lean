import Bracketry.Proofs.CharTrees
import Bracketry.Proofs.Sessions

/-
  Sessions over texts that are not classified.

  An index that is told of every edit keeps both of its
  trees in step with the characters of the document.  Behind
  a flush the brackets of the text tell the outlines of the
  trees, and so they are those of a new session over the
  same text.

  Key definitions include:
    * `Session.IsTold`, `Session.IsSynced`
    * `Session.HasFreshOutline`, `Session.IsFresh`
    * `Document.AllowsEdits`

  Main declarations:
    * `Session.IsSynced.isFresh`
    * `Session.run_isFresh`
-/

------------------------------------------------------------
-- Edits of Characters
------------------------------------------------------------

namespace Bracketry

open Measured

/-
  A replacement is between two positions of the document,
  and its result is admitted.
-/
structure Document.AllowsReplace
    (document : Document)
    (table : TokenTable)
    (count : Nat)
    (start stop : Position)
    (inserted : List Char) :
    Prop where
  order : start ≤ stop
  hasStart : document.HasPosition start
  hasStop : document.HasPosition stop
  admits :
    table.Admits count
      (document.after (.edit start stop inserted)).text

instance
    (document : Document)
    (table : TokenTable)
    (count : Nat)
    (start stop : Position)
    (inserted : List Char) :
    Decidable
      (document.AllowsReplace table count start stop
        inserted) :=
  decidable_of_iff
    (start ≤ stop ∧ document.HasPosition start ∧
      document.HasPosition stop ∧
      table.Admits count
        (document.after (.edit start stop inserted)).text)
    ⟨fun ⟨hOrder, hStart, hStop, hText⟩ =>
        ⟨hOrder, hStart, hStop, hText⟩,
      fun ⟨hOrder, hStart, hStop, hText⟩ =>
        ⟨hOrder, hStart, hStop, hText⟩⟩

theorem TokenTable.Admits.isCounted
    {table : TokenTable}
    {count : Nat}
    {document : Document}
    (h : table.Admits count document.text) :
    document.IsCounted :=
  Document.isCounted_of_isShort (Text.isShort_of_lt h.size)

namespace TextChar

theorem isLined : IsLined TextChar := by
  rintro (c | _)
  · change (Length.ofChar c).lines = 0 ∨
      Length.ofChar c = ⟨1, 0⟩
    rw [Length.ofChar]
    split_ifs
    · exact .inr rfl
    · exact .inl rfl
  · exact .inr rfl

/- There are more lines than were put behind the end. -/
theorem lt_lines
    (text : List Char)
    (count : Nat) :
    count < (extent (ofText text ++ pads count)).lines := by
  have hPads : (extent (pads count)).lines = count + 1 :=
    lines_replicate _ rfl
  rw [extent_append, Length.add_lines, hPads]
  omega

/- The tree follows the characters of a text. -/
def Follows
    (table : TokenTable)
    (count : Nat)
    (text : List Char) :
    Node → List Edit → Prop :=
  (account table count).Follows (ofText text)

variable {table : TokenTable} {count : Nat}

/- An edit of a document is an edit of its characters. -/
theorem queues_edit
    {document : Document}
    {start stop : Position}
    {inserted : List Char}
    (hOld : table.Admits count document.text)
    (h :
      document.AllowsReplace table count start stop
        inserted) :
    Index.Queues [Edit.replace start stop inserted]
      (Follows table count document.text)
      (Follows table count
        (document.after (.edit start stop inserted)).text) := by
  rcases Account.queues_edit (isSound_account table count)
      ofText_append extent_ofText hOld.isCounted h.order
      h.hasStart h.hasStop ⟨_, rfl, h.admits⟩ with
    ⟨text, _, hAfter, hQueues⟩
  rw [hAfter]
  exact hQueues

/- Lines are edits that leave the characters. -/
theorem queues_lines
    {text : List Char}
    {changed : List LineSpan}
    (hText : table.Admits count text)
    (hLines : ∀ span ∈ changed, span.last ≤ count) :
    Index.Queues
      ((LineSpan.merge changed).map LineSpan.toEdit)
      (Follows table count text)
      (Follows table count text) := by
  have hMore := lt_lines text count
  refine Account.queues_lines (isSound_account table count)
    ⟨text, rfl, hText⟩ isLined (Nat.zero_lt_of_lt hMore) ?_
  intro span hSpan
  exact Nat.lt_of_le_of_lt (hLines span hSpan) hMore

end TextChar

end Bracketry

------------------------------------------------------------
-- Told Changes
------------------------------------------------------------

namespace Bracketry

namespace Session

variable {table : TokenTable} {count : Nat}
variable {session : Session}

/- An edit of the document only. -/
theorem replace_eq
    {start stop : Position}
    {inserted : List Char}
    (hText : table.Admits count session.text)
    (h :
      session.document.document.AllowsReplace table count
        start stop inserted) :
    session.replace start stop inserted =
      .ok { session with
        document := { session.document with
          document :=
            session.document.document.after
              (.edit start stop inserted) } } := by
  rcases Document.exists_of_replace inserted hText.isCounted
      h.hasStart h.hasStop h.order with
    ⟨_, _, _, _, _, _, hReplace⟩
  simp [replace, SharedDocument.replace, Document.after,
    hReplace, bind, Except.bind, pure, Except.pure]

/- There are two trees, and both follow the characters. -/
structure IsTold
    (table : TokenTable)
    (count : Nat)
    (session : Session) :
    Prop where
  table_eq : session.index.table = table
  spans : session.document.spans = none
  text : table.Admits count session.text
  plain : session.index.plain.isSome = true
  holds :
    session.index.Holds
      (TextChar.Follows table count session.text)
      (TextChar.Follows table count session.text)

/- The trees describe the characters, and nothing moved. -/
structure IsSynced
    (table : TokenTable)
    (count : Nat)
    (session : Session) :
    Prop extends session.IsTold table count where
  settled : session.index.IsSettled
  version : session.index.version = session.liveVersion

theorem IsTold.applyEdit
    {start stop : Position}
    {inserted : List Char}
    (h : session.IsTold table count)
    (hAllows :
      session.document.document.AllowsReplace table count
        start stop inserted) :
    ∃ next,
      session.applyEdit start stop inserted = .ok next ∧
        next.IsTold table count ∧
        next.document.document =
          session.document.document.after
            (.edit start stop inserted) := by
  have hQueues := TextChar.queues_edit h.text hAllows
  rcases h.holds.queueEdit hQueues hQueues with
    ⟨index, hIndex, hHolds, hTable, hPlain⟩
  refine ⟨⟨{ session.document with
    document :=
      session.document.document.after
        (.edit start stop inserted) }, index⟩, ?_,
    ⟨hTable.trans h.table_eq, h.spans, hAllows.admits,
      hPlain ▸ h.plain, hHolds⟩, rfl⟩
  rw [Session.applyEdit, replace_eq h.text hAllows]
  simp [hIndex, bind, Except.bind, pure, Except.pure]

/- What is read behind a document that is not classified. -/
theorem covers_live
    (hSymbolic : table.IsSymbolic)
    (hSolid : table.IsSolid)
    (hTable : session.index.table = table)
    (hSpans : session.document.spans = none)
    (hText : table.Admits count session.text) :
    (TextChar.account table count).Covers session.index.table
      session.live.content session.live.spans
      (TextChar.ofText session.text) := by
  have hNone : session.live.spans = none := hSpans
  rw [hTable, hNone]
  exact TextChar.covers (Content.holds_ofDocument _) hSymbolic
    hSolid hText

/- A flush of trees that follow the text syncs them. -/
theorem isSynced_of_flushed
    {index : Index}
    (hTable : session.index.table = table)
    (hSpans : session.document.spans = none)
    (hText : table.Admits count session.text)
    (hPlain : session.index.plain.isSome = true)
    (hHolds :
      index.Holds (TextChar.Follows table count session.text)
        (TextChar.Follows table count session.text))
    (hFlushed :
      session.index.IsFlushed index session.live.content) :
    IsSynced table count { session with index := index } where
  table_eq := hFlushed.table.trans hTable
  spans := hSpans
  text := hText
  plain := hFlushed.plain.trans hPlain
  holds := hHolds
  settled := hFlushed.settled
  version := hFlushed.version

/- A flush syncs an index that was told of all changes. -/
theorem IsTold.flush
    (hSymbolic : table.IsSymbolic)
    (hSolid : table.IsSolid)
    (h : session.IsTold table count) :
    ∃ next,
      session.flush = .ok next ∧ next.IsSynced table count ∧
        next.document = session.document := by
  have hCovers :=
    covers_live hSymbolic hSolid h.table_eq h.spans h.text
  have hPlainCovers := hCovers
  have hNone : session.live.spans = none := h.spans
  rw [hNone] at hPlainCovers
  rcases h.holds.flush
      (fun _ _ hRoot => hPlainCovers.makes hRoot)
      (fun _ _ hRoot => hCovers.makes hRoot)
      (fun _ _ hRoot => hRoot) with
    ⟨index, hIndex, hHolds, hFlushed⟩
  exact ⟨_, flush_eq_ok hIndex,
    isSynced_of_flushed h.table_eq h.spans h.text h.plain
      hHolds hFlushed, rfl⟩

/- A session begins synced. -/
theorem exists_ofDocument
    {document : Document}
    (hSymbolic : table.IsSymbolic)
    (hSolid : table.IsSolid)
    (hText : table.Admits count document.text) :
    ∃ session,
      ofDocument table document = .ok session ∧
        session.IsSynced table count ∧
        session.document.document = document := by
  have hCovers :
      (TextChar.account table count).Covers table
        (Content.ofDocument document) none
        (TextChar.ofText document.text) :=
    TextChar.covers (Content.holds_ofDocument _) hSymbolic
      hSolid hText
  let known := TextChar.Follows table count document.text
  have hSame :
      (SharedDocument.ofDocument document).snapshot.spans =
          none →
        ∀ root, known root [] → known root [] :=
    fun _ _ hRoot => hRoot
  rcases Index.ofSnapshot_spec hCovers.makes_fresh hSame with
    ⟨index, hIndex, hHolds, hSettled, hTable, hVersion, hPlain⟩
  exact ⟨_, ofShared_eq_ok hIndex,
    ⟨⟨hTable, rfl, hText, hPlain, hHolds⟩, hSettled, hVersion⟩,
    rfl⟩

end Session

end Bracketry

------------------------------------------------------------
-- Fresh Trees
------------------------------------------------------------

namespace Bracketry

namespace Session

/-
  The tree has the outline of the tree of a new session over
  a document with the text.
-/
def HasFreshOutline
    (table : TokenTable)
    (text : List Char)
    (tree : Option Node) :
    Prop :=
  ∃ fresh root node outline,
    ofDocument table (Document.ofText text) = .ok fresh ∧
      fresh.index.current? = some root ∧ tree = some node ∧
      root.outline = .ok outline ∧ node.outline = .ok outline

/-
  The tree that queries read and the classified one have the
  outline of a new session.
-/
structure IsFresh
    (table : TokenTable)
    (session : Session) :
    Prop where
  current :
    HasFreshOutline table session.text
      session.index.current?
  classified :
    HasFreshOutline table session.text
      session.index.classified

variable {table : TokenTable} {count : Nat}
variable {session : Session}

/- The brackets of the text tell the outlines of its trees. -/
theorem IsSynced.outlines
    (h : session.IsSynced table count) :
    (∃ root,
        session.index.current? = some root ∧
          root.outline = .ok (table.outline session.text)) ∧
      ∃ root,
        session.index.classified = some root ∧
          root.outline = .ok (table.outline session.text) := by
  constructor
  · rcases Option.isSome_iff_exists.1 h.plain with ⟨root, hRoot⟩
    have hFollows := h.holds.plain root hRoot
    rw [h.settled.plain h.plain] at hFollows
    refine ⟨root, by rw [Index.current?, hRoot]; rfl, ?_⟩
    exact TextChar.outline_of_describes h.text
      (Account.Follows.describes hFollows)
  · rcases h.holds.classified with ⟨root, hRoot, hFollows⟩
    rw [h.settled.classified] at hFollows
    exact ⟨root, hRoot, TextChar.outline_of_describes h.text
      (Account.Follows.describes hFollows)⟩

theorem IsSynced.isFresh
    (hSymbolic : table.IsSymbolic)
    (hSolid : table.IsSolid)
    (h : session.IsSynced table count) :
    session.IsFresh table := by
  have hAdmits :
      table.Admits count (Document.ofText session.text).text :=
    h.text
  rcases exists_ofDocument hSymbolic hSolid hAdmits with
    ⟨fresh, hFresh, hSynced, hDocument⟩
  rcases hSynced.outlines with ⟨⟨root, hRoot, hOutline⟩, _⟩
  have hText : fresh.text = session.text := by
    rw [text, hDocument]
    rfl
  rw [hText] at hOutline
  rcases h.outlines with
    ⟨⟨plain, hPlain, hPlainOutline⟩, classified, hClassified,
      hClassifiedOutline⟩
  exact ⟨⟨fresh, root, plain, _, hFresh, hRoot, hPlain,
      hOutline, hPlainOutline⟩,
    fresh, root, classified, _, hFresh, hRoot, hClassified,
    hOutline, hClassifiedOutline⟩

end Session

end Bracketry

------------------------------------------------------------
-- Runs of Edits
------------------------------------------------------------

namespace Bracketry

namespace Document

/- The step is an allowed edit or a flush. -/
def AllowsEdit
    (document : Document)
    (table : TokenTable) :
    Session.Step → Prop
  | .edit start stop text =>
      document.AllowsReplace table 0 start stop text
  | .flush => True
  | _ => False

instance
    (document : Document)
    (table : TokenTable) :
    (step : Session.Step) →
      Decidable (document.AllowsEdit table step)
  | .edit start stop text =>
      inferInstanceAs
        (Decidable
          (document.AllowsReplace table 0 start stop text))
  | .flush => .isTrue trivial
  | .classify _ _ => .isFalse id
  | .declassify => .isFalse id
  | .complete => .isFalse id

/- Each step is one of these when it is taken. -/
def AllowsEdits
    (document : Document)
    (table : TokenTable)
    (steps : List Session.Step) :
    Prop :=
  AllowsEach (AllowsEdit · table) after document steps

instance
    (document : Document)
    (table : TokenTable)
    (steps : List Session.Step) :
    Decidable (document.AllowsEdits table steps) :=
  decidableAllowsEach document steps

end Document

namespace Session

variable {table : TokenTable} {session : Session}

theorem IsTold.step
    {step : Step}
    (hSymbolic : table.IsSymbolic)
    (hSolid : table.IsSolid)
    (h : session.IsTold table 0)
    (hAllows :
      session.document.document.AllowsEdit table step) :
    ∃ next,
      session.step step = .ok next ∧ next.IsTold table 0 ∧
        next.document.document =
          session.document.document.after step := by
  cases step with
  | edit start stop text => exact h.applyEdit hAllows
  | flush =>
      rcases h.flush hSymbolic hSolid with
        ⟨next, hFlush, hSynced, hSame⟩
      refine ⟨next, hFlush, hSynced.toIsTold, ?_⟩
      rw [hSame]
      rfl
  | classify spans changed => cases hAllows
  | declassify => cases hAllows
  | complete => cases hAllows

theorem IsTold.run
    {steps : List Step}
    (hSymbolic : table.IsSymbolic)
    (hSolid : table.IsSolid)
    (h : session.IsTold table 0)
    (hAllows :
      session.document.document.AllowsEdits table steps) :
    ∃ last,
      session.run steps = .ok last ∧ last.IsTold table 0 ∧
        last.document.document =
          session.document.document.afterAll steps :=
  exists_foldlM (fun session => session.document.document)
    (fun _ hTold hStep => hTold.step hSymbolic hSolid hStep)
    h hAllows

/-
  Where all brackets are symbols, a flush behind any edits
  and flushes leaves trees with the outline of a new session
  over the text.
-/
theorem run_isFresh
    {declaration : BracketDeclaration}
    {document : Document}
    {steps : List Step}
    (hSymbolic : declaration.IsSymbolic)
    (hText :
      (TokenTable.ofDeclaration declaration).Admits 0
        document.text)
    (hAllows :
      document.AllowsEdits
        (TokenTable.ofDeclaration declaration) steps) :
    ∃ start last flushed,
      ofDocument (TokenTable.ofDeclaration declaration)
          document = .ok start ∧
        start.run steps = .ok last ∧
        last.flush = .ok flushed ∧
        flushed.document.document = document.afterAll steps ∧
        flushed.IsFresh
          (TokenTable.ofDeclaration declaration) := by
  have hTable :=
    TokenTable.isSymbolic_ofDeclaration hSymbolic
  have hSolid := TokenTable.isSolid_ofDeclaration declaration
  rcases exists_ofDocument hTable hSolid hText with
    ⟨start, hStart, hSynced, hDocument⟩
  rw [← hDocument] at hAllows
  rcases hSynced.toIsTold.run hTable hSolid hAllows with
    ⟨last, hRun, hTold, hAfter⟩
  rcases hTold.flush hTable hSolid with
    ⟨flushed, hFlush, hFlushed, hSame⟩
  refine ⟨start, last, flushed, hStart, hRun, hFlush, ?_,
    hFlushed.isFresh hTable hSolid⟩
  rw [hSame, hAfter, hDocument]

/- A bracket is closed, flushed and closed a second time. -/
theorem run_isFresh_brackets :
    let declaration : BracketDeclaration :=
      ⟨[⟨['('], [')']⟩, ⟨['['], [']']⟩], none⟩
    let table := TokenTable.ofDeclaration declaration
    let document := Document.ofText ['(', 'a', '\n', '[']
    let steps : List Step :=
      [.edit ⟨0, 2⟩ ⟨0, 2⟩ [')'], .flush,
        .edit ⟨0, 0⟩ ⟨0, 1⟩ ['[', ']'],
        .edit ⟨1, 1⟩ ⟨1, 1⟩ [']', ')']]
    declaration.IsSymbolic ∧
      table.Admits 0 document.text ∧
      document.AllowsEdits table steps ∧
      ∃ start last flushed,
        ofDocument table document = .ok start ∧
          start.run steps = .ok last ∧
          last.flush = .ok flushed ∧
          flushed.document.document =
            document.afterAll steps ∧
          flushed.IsFresh table := by
  intro declaration table document steps
  have hSymbolic : declaration.IsSymbolic := by decide
  have hText : table.Admits 0 document.text := by
    decide +kernel
  have hAllows : document.AllowsEdits table steps := by
    decide +kernel
  exact ⟨hSymbolic, hText, hAllows,
    run_isFresh hSymbolic hText hAllows⟩

end Session

end Bracketry
