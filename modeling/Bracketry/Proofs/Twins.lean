import Bracketry.Proofs.Ancestry

/-
  One tree in the place of both.

  Without a classification, an index begins with one tree
  that is both the plain and the classified one.  It stays
  so: edits are queued for both alike, and the work of a
  flush is the same work, which is done once.

  Key definitions include:
    * `Index.IsTwin`
    * `Index.withBoth`

  Main declarations:
    * `Index.IsTwin.queueEdit`
    * `Index.IsTwin.flush_cases`
-/

------------------------------------------------------------
-- Indexes with One Tree
------------------------------------------------------------

namespace Bracketry

namespace Index

/- Both trees are one, with the same edits queued for it. -/
structure IsTwin
    (index : Index)
    (root : Node) :
    Prop where
  plain : index.plain = some root
  classified : index.classified = some root
  edits : index.plainEdits = index.edits

/- The index with a tree of some content for both trees. -/
def withBoth
    (index : Index)
    (content : Content)
    (root : Node)
    (next : Nat)
    (stats : ParseStats) :
    Index :=
  { index with
    plain := some root
    classified := some root
    plainEdits := []
    edits := []
    content := some content
    version := some content.version
    stats := stats
    isDirty := false
    nextKey := next }

variable {index after : Index} {root : Node}
variable {content : Content}

theorem isTwin_withBoth
    (index : Index)
    (content : Content)
    (root : Node)
    (next : Nat)
    (stats : ParseStats) :
    (index.withBoth content root next stats).IsTwin root :=
  ⟨rfl, rfl, rfl⟩

/- An index without a classification begins with one tree. -/
theorem exists_of_ofPlain
    {table : TokenTable}
    (h : ofSnapshot table (some ⟨content, none⟩) = .ok index) :
    ∃ made stats,
      parse table content none ⟨none, []⟩ = .ok (made, stats) ∧
        index =
          (empty table).withBoth content (made.giveKeys 0).1
            (made.giveKeys 0).2 stats := by
  rcases exists_of_ofSnapshot h with ⟨made, stats, hMade, rfl⟩
  exact ⟨made, stats, hMade, rfl⟩

/- Edits are queued for both trees alike. -/
theorem IsTwin.queueEdit
    {start stop : Position}
    {text : List Char}
    (h : index.IsTwin root)
    (hQueue : index.queueEdit start stop text = .ok after) :
    ∃ composed,
      Edit.compose index.edits
          [Edit.replace start stop text] = .ok composed ∧
        after =
          { index with
            plainEdits := composed
            edits := composed
            isDirty := true } := by
  rcases Checked.bind_eq_ok_iff.1 hQueue with
    ⟨queued, hQueued, hQueue⟩
  cases hQueue
  rcases Checked.bind_eq_ok_iff.1 hQueued with
    ⟨composed, hComposed, hQueued⟩
  have hPlain : (true && index.plain.isSome) = true := by
    rw [h.plain]
    rfl
  rw [if_pos hPlain] at hQueued
  rcases Checked.bind_eq_ok_iff.1 hQueued with
    ⟨other, hOther, hQueued⟩
  cases hQueued
  rw [h.edits, hComposed] at hOther
  cases hOther
  exact ⟨composed, hComposed, rfl⟩

/- The work on both trees is the same. -/
theorem IsTwin.plainJob?_eq
    (content : Content)
    (h : index.IsTwin root) :
    index.plainJob? content = index.classifiedJob? content := by
  rw [plainJob?, classifiedJob?, h.plain, h.classified, h.edits]
  rfl

theorem isSameWork_self
    {job : ParseJob}
    (content : Content)
    (hKey :
      ∀ tree, job.old = some tree → tree.key?.isSome = true) :
    isSameWork ⟨content, none⟩ job job = true := by
  rcases job with ⟨old, edits⟩
  cases old with
  | none => simp [isSameWork]
  | some tree => simp [isSameWork, Node.isSame, hKey tree rfl]

/-
  A flush of an index with one tree leaves it, or makes one
  tree for both.
-/
theorem IsTwin.flush_cases
    (h : index.IsTwin root)
    (hKey : root.key?.isSome = true)
    (hFlush :
      index.flush (some ⟨content, none⟩) = .ok after) :
    (index.edits = [] ∧ index.version = some content.version ∧
        after = { index with isDirty := false }) ∨
      ∃ made stats,
        parse index.table content none
            (jobOf root index.edits) = .ok (made, stats) ∧
          after =
            index.withBoth content
              (made.giveKeys index.nextKey).1
              (made.giveKeys index.nextKey).2 stats := by
  rcases Checked.bind_eq_ok_iff.1 hFlush with
    ⟨updated, hUpdate, hFlush⟩
  cases hFlush
  unfold update at hUpdate
  rw [h.plainJob?_eq] at hUpdate
  rcases classifiedJob?_spec content h.classified with
    ⟨hNone, hEdits, hMoved⟩ | hJob
  · rw [hNone] at hUpdate
    cases hUpdate
    exact .inl ⟨hEdits, version_of_not_moved hMoved, rfl⟩
  · right
    rw [hJob] at hUpdate
    have hSame :
        isSameWork ⟨content, none⟩ (jobOf root index.edits)
          (jobOf root index.edits) = true := by
      refine isSameWork_self content fun tree hTree => ?_
      rw [jobOf] at hTree
      split_ifs at hTree
      cases hTree
      exact hKey
    simp only [Option.isNone_some, Bool.and_self,
      Bool.false_eq_true, if_false, if_pos hSame] at hUpdate
    rcases Checked.bind_eq_ok_iff.1 hUpdate with
      ⟨both, hBoth, hUpdate⟩
    rcases Checked.bind_eq_ok_iff.1 hBoth with
      ⟨⟨tree, counts, next⟩, hParse, hBoth⟩
    rcases Checked.bind_eq_ok_iff.1 hParse with
      ⟨⟨made, _⟩, hMade, hParse⟩
    cases hParse
    cases hBoth
    cases hUpdate
    exact ⟨made, counts, hMade, rfl⟩

end Index

end Bracketry

------------------------------------------------------------
-- Trees with Keys
------------------------------------------------------------

namespace Bracketry

namespace Node

/- All that is no bracket is given a key. -/
theorem key?_giveKeys
    {node : Node}
    {next : Nat}
    (h : ¬(giveKeys next node).1.IsBracket) :
    (giveKeys next node).1.key?.isSome = true := by
  cases node with
  | text key length => cases key <;> rfl
  | bracket leaf => exact absurd ⟨leaf, rfl⟩ h
  | invalid key ids length => cases key <;> rfl
  | pair key length missing opening child closing =>
      cases key with
      | some old => rfl
      | none => cases child <;> rfl
  | list key height length missing items =>
      cases key <;> rfl

/- A tree that shows tokens is no bracket. -/
theorem not_isBracket_of_shape
    {root : Node}
    {forest : Forest Token}
    (h : forest.shape = root.shape) :
    ¬root.IsBracket := by
  rintro ⟨leaf, rfl⟩
  cases forest with
  | leaf token rest =>
      cases congrArg Sign.kind (Forest.leaf.inj h).1
  | nil => cases h
  | stray token rest => cases h
  | pair opening inside closing rest => cases h

end Node

namespace Session

variable {session : Session}

/- Behind a flush, the trees are no brackets. -/
theorem IsSound.not_isBracket
    {root : Node}
    (h : session.IsSound)
    (hSettled : session.index.IsSettled)
    (hRoot : session.index.plain = some root) :
    ¬root.IsBracket := by
  rcases h.describes hSettled (.inl hRoot) with
    ⟨forest, _, hShape, _⟩
  exact Node.not_isBracket_of_shape hShape

end Session

end Bracketry
