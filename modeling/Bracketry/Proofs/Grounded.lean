import Bracketry.Proofs.Builds
import Bracketry.Proofs.Queues
import Bracketry.Proofs.CharBytes

/-
  Sessions whose trees lie over their text.

  Whatever is done with a session, its trees are made by
  parses, and with the edits queued for them they follow the
  text of the document.  An index also keeps the content that
  it was made from.  Behind a flush this is the document as
  it is, and the brackets of each tree lie over what they
  match.

  Key definitions include:
    * `Index.Keeps`
    * `BracketDeclaration.Follows`
    * `Session.IsGrounded`

  Main declarations:
    * `Index.Keeps.flush`
    * `Session.IsGrounded.run`
    * `Session.IsGrounded.flush`
-/

------------------------------------------------------------
-- Trees of an Account
------------------------------------------------------------

namespace Bracketry

open Measured

/- Where all stretches fit, so do the lengths in a row. -/
theorem Length.fitBehind_of_allFit
    {before tokens : List Token}
    (h : Token.AllFit (before ++ tokens)) :
    FitBehind (Token.total before)
      (tokens.map Token.length) := by
  induction tokens generalizing before with
  | nil => trivial
  | cons token rest ih =>
      have hNext :
          Token.total (before ++ [token]) =
            Token.total before + token.length := by
        simp
      rw [← List.singleton_append, ← List.append_assoc] at h
      rw [List.map_cons, FitBehind, ← hNext]
      exact ⟨h _ rest rfl, ih h⟩

variable {α : Type} [Measured α]

/- The leaves of a tree of a small text fit. -/
theorem Account.Describes.fitBehind
    {account : Account α}
    {root : Node}
    {text : List α}
    (hSound : account.IsSound)
    (hText : account.IsText text)
    (h : account.Describes root text) :
    Length.FitBehind 0 (root.leaves.map Node.length) := by
  rcases h with ⟨forest, hRoot, hShape, _, hSpells⟩
  have hFit : Token.AllFit ([] ++ forest.leaves) :=
    hSpells.allFit (hSound hText)
  rw [Node.lengths_shape_of_isRoot hRoot, ← hShape,
    Forest.lengths, Forest.lengths_shape]
  exact Length.fitBehind_of_allFit hFit

/- A parse that fits makes a built tree. -/
theorem Index.isBuilt_parse
    {declaration : BracketDeclaration}
    {content : Content}
    {spans : Option SpanTable}
    {job : ParseJob}
    {root : Node}
    {stats : ParseStats}
    (hOld : ∀ tree, job.old = some tree → tree.IsBuilt)
    (hFits :
      Length.FitBehind 0 (root.leaves.map Node.length))
    (hParse :
      parse (TokenTable.ofDeclaration declaration) content
        spans job = .ok (root, stats)) :
    root.IsBuilt := by
  rcases job with ⟨old, edits⟩
  have hLines :
      ∀ spans : SpanTable,
        parseDocument
            (TokenStream.ofLines
              ⟨content, spans,
                TokenTable.ofDeclaration declaration⟩)
            edits old = .ok (root, stats) →
          root.IsBuilt :=
    fun spans hParse =>
      .ofLines declaration rfl hOld hParse fun _ => hFits
  cases spans with
  | some spans => exact hLines spans hParse
  | none =>
      cases old with
      | some tree => exact hLines .plain hParse
      | none => exact .ofText declaration _ hParse

end Bracketry

------------------------------------------------------------
-- What an Index Was Made From
------------------------------------------------------------

namespace Bracketry

namespace Index

/-
  The index keeps the content that it was made from, which is
  the document as it is if it has the version of it.
-/
structure Keeps
    (index : Index)
    (document : Document)
    (content : Content) :
    Prop where
  madeFrom : index.content = some content
  version : index.version = some content.version
  older : content.version ≤ document.version
  current :
    content.version = document.version →
      content = Content.ofDocument document

variable {index after : Index} {document : Document}
variable {content : Content}

/- Queued edits do not change what an index was made from. -/
theorem content_queueEdits
    {edits : List Edit}
    {forPlain : Bool}
    (h : index.queueEdits edits forPlain = .ok after) :
    after.content = index.content := by
  rcases Checked.bind_eq_ok_iff.1 h with ⟨queued, _, h⟩
  dsimp only at h
  split_ifs at h
  · rcases Checked.bind_eq_ok_iff.1 h with ⟨plain, _, h⟩
    cases h
    rfl
  · cases h
    rfl

/- Nor does an edit, and the document behind it is newer. -/
theorem Keeps.queueEdit
    {start stop : Position}
    {inserted text : List Char}
    (h : index.Keeps document content)
    (hQueue :
      index.queueEdit start stop inserted = .ok after) :
    after.Keeps (document.edited text) content := by
  have hVersion := (hasTreesOf_queueEdit hQueue).version
  rcases Checked.bind_eq_ok_iff.1 hQueue with
    ⟨queued, hQueued, hQueue⟩
  cases hQueue
  have hNewer :
      content.version < (document.edited text).version :=
    Nat.lt_succ_of_le h.older
  exact ⟨(content_queueEdits hQueued).trans h.madeFrom,
    hVersion.trans h.version, hNewer.le,
    fun hSame => absurd hSame hNewer.ne⟩

theorem Keeps.queueLines
    {changed : List LineSpan}
    (h : index.Keeps document content)
    (hQueue : index.queueLines changed = .ok after) :
    after.Keeps document content := by
  have hVersion := (hasTreesOf_queueLines hQueue).version
  have hContent : after.content = index.content := by
    unfold Index.queueLines at hQueue
    dsimp only at hQueue
    split at hQueue
    · cases hQueue
      rfl
    · rcases Checked.bind_eq_ok_iff.1 hQueue with
        ⟨queued, hQueued, hQueue⟩
      cases hQueue
      have hSame := content_queueEdits hQueued
      exact hSame
  exact ⟨hContent.trans h.madeFrom, hVersion.trans h.version,
    h.older, h.current⟩

/-
  A flush of an index makes its trees from the document, or
  they were made from it before.
-/
theorem Keeps.flush
    {spans : Option SpanTable}
    (h : index.Keeps document content)
    (hFlush :
      index.flush
          (some ⟨Content.ofDocument document, spans⟩) =
        .ok after) :
    after.Keeps document (Content.ofDocument document) := by
  rcases Checked.bind_eq_ok_iff.1 hFlush with
    ⟨last, hUpdate, hFlush⟩
  cases hFlush
  rcases update_cases hUpdate with
    ⟨hNone, _, rfl⟩ | ⟨last, _, _, rfl⟩
  · have hVersion := (classifiedJob?_eq_none.1 hNone).2.2
    have hSame : content.version = document.version := by
      rw [h.version] at hVersion
      exact Option.some.inj hVersion
    have hContent := h.current hSame
    exact ⟨hContent ▸ h.madeFrom, hVersion, Nat.le_refl _,
      fun _ => rfl⟩
  · exact ⟨rfl, rfl, Nat.le_refl _, fun _ => rfl⟩

/- The index of a document was made from it. -/
theorem keeps_ofSnapshot
    {table : TokenTable}
    {spans : Option SpanTable}
    (h :
      ofSnapshot table
          (some ⟨Content.ofDocument document, spans⟩) =
        .ok index) :
    index.Keeps document (Content.ofDocument document) := by
  rcases exists_of_ofSnapshot h with ⟨made, stats, _, rfl⟩
  exact ⟨rfl, rfl, Nat.le_refl _, fun _ => rfl⟩

end Index

end Bracketry

------------------------------------------------------------
-- Grounded Sessions
------------------------------------------------------------

namespace Bracketry

open Measured

theorem CharByte.isLined : IsLined CharByte :=
  fun charByte => TextByte.isLined charByte.byte

/-
  A parse made the tree, and with the edits queued for it the
  tree follows the bytes of a text.
-/
def BracketDeclaration.Follows
    (declaration : BracketDeclaration)
    (text : List Char)
    (root : Node)
    (edits : List Edit) :
    Prop :=
  (CharByte.account
      (TokenTable.ofDeclaration declaration)).Follows
      (CharByte.ofText text) root edits ∧
    root.IsBuilt

namespace BracketDeclaration

variable {declaration : BracketDeclaration}
variable {content : Content} {text : List Char}

/- A tree that describes a text, from a parse of it. -/
theorem follows_of_parse
    {spans : Option SpanTable}
    {job : ParseJob}
    (hShort : Text.IsShort text)
    (hOld : ∀ tree, job.old = some tree → tree.IsBuilt)
    (h :
      ∃ root stats,
        Index.parse (TokenTable.ofDeclaration declaration)
            content spans job = .ok (root, stats) ∧
          (CharByte.account
            (TokenTable.ofDeclaration declaration)).Describes
              root (CharByte.ofText text)) :
    Index.Makes (TokenTable.ofDeclaration declaration)
      content spans job
      fun root => declaration.Follows text root [] := by
  rcases h with ⟨root, stats, hParse, hRoot⟩
  have hFits :=
    hRoot.fitBehind (CharByte.isSound_account _)
      ⟨text, rfl, hShort⟩
  have hBuilt := Index.isBuilt_parse hOld hFits hParse
  exact ⟨root, stats, hParse, fun next =>
    ⟨(hRoot.giveKeys next).follows ⟨text, rfl, hShort⟩,
      .keyed next hBuilt⟩⟩

theorem makes_fresh
    (spans : Option SpanTable)
    (hFlat : declaration.IsFlat)
    (hShort : Text.IsShort text)
    (hContent : content.Holds text) :
    Index.Makes (TokenTable.ofDeclaration declaration)
      content spans ⟨none, []⟩
      fun root => declaration.Follows text root [] :=
  follows_of_parse hShort (by rintro _ ⟨⟩)
    (CharByte.covers spans hContent
      (TokenTable.isSolid_ofDeclaration declaration)
      (TokenTable.isFlat_ofDeclaration hFlat)
      hShort).parse_fresh

/- A parse with such a tree makes one of the text. -/
theorem Follows.makes
    {root : Node}
    {edits : List Edit}
    (spans : Option SpanTable)
    (hFlat : declaration.IsFlat)
    (hShort : Text.IsShort text)
    (hContent : content.Holds text)
    (h : declaration.Follows text root edits) :
    Index.Makes (TokenTable.ofDeclaration declaration)
      content spans (Index.jobOf root edits)
      fun root => declaration.Follows text root [] := by
  refine follows_of_parse hShort ?_
    ((CharByte.covers spans hContent
      (TokenTable.isSolid_ofDeclaration declaration)
      (TokenTable.isFlat_ofDeclaration hFlat)
      hShort).parse h.1)
  intro tree hTree
  rw [Index.jobOf] at hTree
  split_ifs at hTree
  rcases Option.some.inj hTree with rfl
  exact h.2

/- An edit is queued for a tree, whatever made it. -/
theorem queues
    {batch : List Edit}
    {new : List Char}
    (h :
      Index.Queues batch
        ((CharByte.account
          (TokenTable.ofDeclaration declaration)).Follows
            (CharByte.ofText text))
        ((CharByte.account
          (TokenTable.ofDeclaration declaration)).Follows
            (CharByte.ofText new))) :
    Index.Queues batch (declaration.Follows text)
      (declaration.Follows new) := by
  rintro root edits ⟨hFollows, hBuilt⟩
  rcases h root edits hFollows with ⟨composed, hCompose, hNew⟩
  exact ⟨composed, hCompose, hNew, hBuilt⟩

/- An edit of a document is an edit of its bytes. -/
theorem queues_edit
    {document : Document}
    {start stop : Position}
    {inserted : List Char}
    (hOld : Text.IsShort document.text)
    (hAllows :
      document.Allows (.edit start stop inserted)) :
    ∃ text,
      document.replace start stop inserted =
          .ok (document.edited text) ∧
        document.after (.edit start stop inserted) =
          document.edited text ∧
        Text.IsShort text ∧
        Index.Queues [Edit.replace start stop inserted]
          (declaration.Follows document.text)
          (declaration.Follows text) := by
  rcases hAllows with ⟨hOrder, hStart, hStop, hShort⟩
  rcases Account.queues_edit
      (CharByte.isSound_account
        (TokenTable.ofDeclaration declaration))
      CharByte.ofText_append CharByte.extent_ofText
      (Document.isCounted_of_isShort hOld) hOrder hStart
      hStop ⟨_, rfl, hShort⟩ with
    ⟨text, hReplace, hAfter, hQueues⟩
  rw [hAfter] at hShort
  exact ⟨text, hReplace, hAfter, hShort, queues hQueues⟩

/- Lines of a text are edits that leave its bytes. -/
theorem queues_lines
    {changed : List LineSpan}
    (hShort : Text.IsShort text)
    (hLines :
      ∀ span ∈ changed,
        span.last < (Line.split text).length) :
    Index.Queues
      ((LineSpan.merge changed).map LineSpan.toEdit)
      (declaration.Follows text)
      (declaration.Follows text) := by
  have hCount :
      (extent
        (CharByte.ofText text ++
          (CharByte.account
            (TokenTable.ofDeclaration declaration)).ending)).lines =
        (Line.split text).length := by
    rw [← TextByte.lines_ofText, ← CharByte.extent_map_byte,
      List.map_append, CharByte.map_byte_ofText]
    rfl
  refine queues (Account.queues_lines
    (CharByte.isSound_account _) ⟨text, rfl, hShort⟩
    CharByte.isLined ?_ ?_)
  · exact hCount.symm ▸
      List.length_pos_of_ne_nil (Line.split_ne_nil text)
  · exact hCount.symm ▸ hLines

end BracketDeclaration

namespace Session

/-
  Both trees follow the bytes of the document, and the index
  keeps what they were made from.
-/
structure IsGrounded
    (declaration : BracketDeclaration)
    (session : Session) :
    Prop where
  table :
    session.index.table = TokenTable.ofDeclaration declaration
  short : Text.IsShort session.text
  holds :
    session.index.Holds (declaration.Follows session.text)
      (declaration.Follows session.text)
  keeps :
    ∃ content,
      session.index.Keeps session.document.document content

variable {declaration : BracketDeclaration}
variable {session : Session}

theorem IsGrounded.applyEdit
    {start stop : Position}
    {inserted : List Char}
    (h : session.IsGrounded declaration)
    (hAllows :
      session.document.document.Allows
        (.edit start stop inserted)) :
    ∃ next,
      session.applyEdit start stop inserted = .ok next ∧
        next.IsGrounded declaration ∧
        next.document.document =
          session.document.document.after
            (.edit start stop inserted) := by
  rcases BracketDeclaration.queues_edit h.short hAllows with
    ⟨text, hReplace, hAfter, hShort, hQueues⟩
  rcases h.holds.queueEdit hQueues hQueues with
    ⟨index, hIndex, hHolds, hTable, _⟩
  rcases h.keeps with ⟨content, hKeeps⟩
  exact ⟨_, applyEdit_eq_ok hReplace hIndex,
    ⟨hTable.trans h.table, hShort, hHolds, content,
      hKeeps.queueEdit hIndex⟩, hAfter.symm⟩

theorem IsGrounded.updateSpans
    {spans : SpanTable}
    {changed : List LineSpan}
    (h : session.IsGrounded declaration)
    (hAllows :
      session.document.document.Allows
        (.classify spans changed)) :
    ∃ next,
      session.updateSpans spans changed = .ok next ∧
        next.IsGrounded declaration ∧
        next.document.document =
          session.document.document := by
  rcases h.holds.queueLines
      (BracketDeclaration.queues_lines h.short hAllows) with
    ⟨index, hIndex, hHolds, hTable, _⟩
  rcases h.keeps with ⟨content, hKeeps⟩
  exact ⟨_, updateSpans_eq_ok hIndex,
    ⟨hTable.trans h.table, h.short, hHolds, content,
      hKeeps.queueLines hIndex⟩, rfl⟩

/- A flush leaves nothing queued, and no older content. -/
theorem IsGrounded.flush
    (hFlat : declaration.IsFlat)
    (h : session.IsGrounded declaration) :
    ∃ next,
      session.flush = .ok next ∧
        next.IsGrounded declaration ∧
        next.document = session.document ∧
        next.index.IsSettled ∧
        next.index.Keeps next.document.document
          (Content.ofDocument next.document.document) := by
  have hMakes :
      ∀ spans root edits,
        declaration.Follows session.text root edits →
          Index.Makes session.index.table
            session.live.content spans
            (Index.jobOf root edits)
            fun root => declaration.Follows session.text root
              [] := by
    intro spans root edits hRoot
    rw [h.table]
    exact hRoot.makes spans hFlat h.short
      (Content.holds_ofDocument _)
  rcases h.holds.flush (hMakes none) (hMakes _)
      (fun _ _ hRoot => hRoot) with
    ⟨index, hIndex, hHolds, hFlushed⟩
  rcases h.keeps with ⟨content, hKeeps⟩
  have hNew := hKeeps.flush hIndex
  exact ⟨_, flush_eq_ok hIndex,
    ⟨hFlushed.table.trans h.table, h.short, hHolds, _, hNew⟩,
    rfl, hFlushed.settled, hNew⟩

/- Each step that is allowed succeeds. -/
theorem IsGrounded.step
    {step : Step}
    (hFlat : declaration.IsFlat)
    (h : session.IsGrounded declaration)
    (hAllows : session.document.document.Allows step) :
    ∃ next,
      session.step step = .ok next ∧
        next.IsGrounded declaration ∧
        next.document.document =
          session.document.document.after step := by
  cases step with
  | edit start stop text => exact h.applyEdit hAllows
  | classify spans changed => exact h.updateSpans hAllows
  | declassify =>
      exact ⟨_, rfl, ⟨h.table, h.short, h.holds, h.keeps⟩, rfl⟩
  | complete =>
      rcases h.keeps with ⟨content, hKeeps⟩
      exact ⟨_, rfl, ⟨h.table, h.short,
        h.holds.completeClassification, content,
        ⟨hKeeps.madeFrom, hKeeps.version, hKeeps.older,
          hKeeps.current⟩⟩, rfl⟩
  | flush =>
      rcases h.flush hFlat with ⟨next, hFlush, hNext, hSame, _⟩
      exact ⟨next, hFlush, hNext, by rw [hSame]; rfl⟩

/- So does each run. -/
theorem IsGrounded.run
    {steps : List Step}
    (hFlat : declaration.IsFlat)
    (h : session.IsGrounded declaration)
    (hAllows : session.document.document.AllowsAll steps) :
    ∃ last,
      session.run steps = .ok last ∧
        last.IsGrounded declaration ∧
        last.document.document =
          session.document.document.afterAll steps :=
  exists_foldlM (fun session => session.document.document)
    (fun _ hGrounded hStep => hGrounded.step hFlat hStep) h
    hAllows

/- A session begins with the trees of its document. -/
theorem exists_isGrounded
    {document : SharedDocument}
    (hFlat : declaration.IsFlat)
    (hShort : Text.IsShort document.document.text) :
    ∃ session,
      ofShared (TokenTable.ofDeclaration declaration)
          document = .ok session ∧
        session.IsGrounded declaration ∧
        session.document = document := by
  have hMakes :
      Index.Makes (TokenTable.ofDeclaration declaration)
        document.snapshot.content document.snapshot.spans
        ⟨none, []⟩ fun root =>
          declaration.Follows document.document.text root [] :=
    BracketDeclaration.makes_fresh _ hFlat hShort
      (Content.holds_ofDocument _)
  have hSame :
      document.snapshot.spans = none →
        ∀ root,
          declaration.Follows document.document.text root [] →
            declaration.Follows document.document.text root
              [] :=
    fun _ _ hRoot => hRoot
  rcases Index.ofSnapshot_spec hMakes hSame with
    ⟨index, hIndex, hHolds, _, hTable, _⟩
  exact ⟨_, ofShared_eq_ok hIndex, ⟨hTable, hShort, hHolds,
    _, Index.keeps_ofSnapshot hIndex⟩, rfl⟩

end Session

end Bracketry
