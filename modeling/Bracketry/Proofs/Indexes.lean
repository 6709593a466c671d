import Bracketry.Index.Flush
import Bracketry.Proofs.Parsing

/-
  Queues and work of an index.

  What is known of a tree and the edits that are queued for
  it carries an index through its operations: a queue is
  composed with new edits, and a flush replaces each tree
  that has queued edits by the tree of a parse.  Keys change
  nothing that a tree shows.

  Key definitions include:
    * `Node.IsRekeyed`
    * `Index.Holds`
    * `Index.Makes`

  Main declarations:
    * `Index.Holds.queueEdits`
    * `Index.Holds.flushTo`, `Index.Holds.flush`
-/

------------------------------------------------------------
-- Keys
------------------------------------------------------------

namespace Bracketry

namespace Node

/- The second tree differs from the first in keys only. -/
structure IsRekeyed
    (a b : Node) :
    Prop where
  shape : b.shape = a.shape
  length : b.length = a.length
  height : b.height = a.height
  missing : b.missing = a.missing
  proper : a.IsProper → b.IsProper

theorem IsRekeyed.refl
    (node : Node) :
    node.IsRekeyed node :=
  ⟨rfl, rfl, rfl, rfl, id⟩

theorem map_of_rekeyed
    {β : Type}
    {f : Node → β}
    {items others : List Node}
    (hSame : ∀ a b : Node, a.IsRekeyed b → f b = f a)
    (h : List.Forall₂ IsRekeyed items others) :
    others.map f = items.map f := by
  induction h with
  | nil => rfl
  | cons hHead _ ih =>
      rw [List.map_cons, List.map_cons, hSame _ _ hHead, ih]

theorem allMissing_eq
    (items : List Node) :
    allMissing items =
      (items.map missing).foldl IdSet.union IdSet.empty := by
  rw [allMissing, List.foldl_map]

/- A list of rekeyed items. -/
theorem IsRekeyed.list
    {key newKey : Option Nat}
    {height : Nat}
    {length : Length}
    {missing : IdSet}
    {items others : List Node}
    (h : List.Forall₂ IsRekeyed items others) :
    (Node.list key height length missing items).IsRekeyed
      (.list newKey height length missing others) := by
  refine ⟨?_, rfl, rfl, rfl, ?_⟩
  · rw [Node.shape, Node.shape]
    induction h with
    | nil => rfl
    | cons hHead _ ih =>
        rw [shapeOfAll, shapeOfAll, hHead.shape, ih]
  · rintro ⟨hCount, hLength, hMissing, hItems⟩
    have hLengths :=
      map_of_rekeyed (fun _ _ hItem => hItem.length) h
    have hIds :=
      map_of_rekeyed (fun _ _ hItem => hItem.missing) h
    refine ⟨?_, ?_, ?_, ?_⟩
    · rwa [← h.length_eq]
    · rw [hLengths, hLength]
    · rw [hMissing, allMissing_eq, allMissing_eq, hIds]
    · clear hCount hLength hMissing hLengths hIds
      induction h with
      | nil => trivial
      | cons hHead _ ih =>
          rcases hItems with ⟨hHeight, hProper, hRest⟩
          exact ⟨by rw [hHead.height, hHeight],
            hHead.proper hProper, ih hRest⟩

/- A pair whose inside is rekeyed. -/
theorem IsRekeyed.pair
    {key newKey : Option Nat}
    {length : Length}
    {missing : IdSet}
    {opening node other : Node}
    {closing : Option Node}
    (h : node.IsRekeyed other) :
    (Node.pair key length missing opening (some node)
        closing).IsRekeyed
      (.pair newKey length missing opening (some other)
        closing) := by
  refine ⟨?_, rfl, rfl, rfl, ?_⟩
  · rw [shape_pair, shape_pair, partShape, partShape,
      h.shape]
  · intro hProper
    rw [isProper_pair] at hProper ⊢
    rcases hProper with
      ⟨hOpening, hClosing, hLength, hMissing, hChild⟩
    refine ⟨hOpening, hClosing, ?_, ?_, ?_⟩
    · rw [hLength, partLength, partLength, h.length]
    · rw [hMissing, partMissing, partMissing, h.missing]
    · rintro _ ⟨⟩
      exact h.proper (hChild node rfl)

/- Keys are all that is given to a tree. -/
theorem isRekeyed_giveKeys
    (node : Node)
    (next : Nat) :
    node.IsRekeyed (giveKeys next node).1 := by
  induction node using Node.induction
    generalizing next with
  | text key length =>
      cases key
      · exact ⟨rfl, rfl, rfl, rfl, id⟩
      · exact .refl _
  | bracket leaf => exact .refl _
  | invalid key ids length =>
      cases key
      · exact ⟨rfl, rfl, rfl, rfl, id⟩
      · exact .refl _
  | pair key length missing opening child closing ih =>
      cases key with
      | some old => exact .refl _
      | none =>
          cases child with
          | none =>
              refine ⟨rfl, rfl, rfl, rfl, ?_⟩
              simp [giveKeys, isProper_pair]
          | some node => exact (ih node rfl _).pair
  | list key height length missing items ih =>
      cases key with
      | some old => exact .refl _
      | none =>
          refine .list ?_
          generalize next + 1 = start
          induction items generalizing start with
          | nil => exact .nil
          | cons first rest ihRest =>
              rw [List.forall_mem_cons] at ih
              exact .cons (ih.1 start) (ihRest ih.2 _)

/- A finished tree is a root as before. -/
theorem isRoot_giveKeys
    {root : Node}
    (next : Nat)
    (h : root.IsRoot) :
    (giveKeys next root).1.IsRoot := by
  rcases h with hProper | ⟨key, rfl⟩
  · exact .inl ((isRekeyed_giveKeys root next).proper hProper)
  · cases key
    · exact .inr ⟨some next, rfl⟩
    · exact .inr ⟨_, rfl⟩

end Node

end Bracketry

------------------------------------------------------------
-- Trees and Queues
------------------------------------------------------------

namespace Bracketry

namespace Index

/-
  There is a classified tree, and something is known of each
  tree with the edits that are queued for it.
-/
structure Holds
    (index : Index)
    (Plain Classified : Node → List Edit → Prop) :
    Prop where
  plain :
    ∀ root, index.plain = some root →
      Plain root index.plainEdits
  classified :
    ∃ root, index.classified = some root ∧
      Classified root index.edits

/- A queue takes more edits for what is known then. -/
def Queues
    (batch : List Edit)
    (Before After : Node → List Edit → Prop) :
    Prop :=
  ∀ root edits, Before root edits →
    ∃ composed,
      Edit.compose edits batch = .ok composed ∧
        After root composed

variable {index : Index} {batch : List Edit}
variable {Plain Classified : Node → List Edit → Prop}
variable {NewPlain NewClassified : Node → List Edit → Prop}

/- Edits for both trees are queued for those there are. -/
theorem Holds.queueEdits
    (h : index.Holds Plain Classified)
    (hPlain : Queues batch Plain NewPlain)
    (hClassified : Queues batch Classified NewClassified) :
    ∃ after,
      index.queueEdits batch true = .ok after ∧
        after.Holds NewPlain NewClassified ∧
        after.table = index.table ∧
        after.plain = index.plain := by
  rcases h.classified with ⟨root, hRoot, hKnown⟩
  rcases hClassified root _ hKnown with
    ⟨composed, hCompose, hNew⟩
  cases hTree : index.plain with
  | none =>
      refine ⟨{ index with edits := composed }, ?_, ⟨?_, ?_⟩,
        rfl, hTree⟩
      · simp [Index.queueEdits, hCompose, hTree, bind,
          Except.bind, pure, Except.pure]
      · intro other hOther
        rw [hTree] at hOther
        cases hOther
      · exact ⟨root, hRoot, hNew⟩
  | some tree =>
      rcases hPlain tree _ (h.plain tree hTree) with
        ⟨others, hOthers, hNewPlain⟩
      refine ⟨{ index with
        edits := composed, plainEdits := others }, ?_,
        ⟨?_, ?_⟩, rfl, hTree⟩
      · simp [Index.queueEdits, hCompose, hTree, hOthers,
          bind, Except.bind, pure, Except.pure]
      · intro other hOther
        rw [hTree] at hOther
        rcases Option.some.inj hOther with rfl
        exact hNewPlain
      · exact ⟨root, hRoot, hNew⟩

/- Edits for the classified tree leave the plain one. -/
theorem Holds.queueClassified
    (h : index.Holds Plain Classified)
    (hClassified : Queues batch Classified NewClassified) :
    ∃ after,
      index.queueEdits batch false = .ok after ∧
        after.Holds Plain NewClassified ∧
        after.table = index.table ∧
        after.plain = index.plain := by
  rcases h.classified with ⟨root, hRoot, hKnown⟩
  rcases hClassified root _ hKnown with
    ⟨composed, hCompose, hNew⟩
  refine ⟨{ index with edits := composed }, ?_,
    ⟨h.plain, root, hRoot, hNew⟩, rfl, rfl⟩
  simp [Index.queueEdits, hCompose, bind, Except.bind, pure,
    Except.pure]

end Index

end Bracketry

------------------------------------------------------------
-- Work
------------------------------------------------------------

namespace Bracketry

namespace Index

/- A parse makes a tree that is good with its keys. -/
def Makes
    (table : TokenTable)
    (content : Content)
    (spans : Option SpanTable)
    (job : ParseJob)
    (Good : Node → Prop) :
    Prop :=
  ∃ root stats,
    parse table content spans job = .ok (root, stats) ∧
      ∀ next, Good (root.giveKeys next).1

/- The work on a tree with the edits queued for it. -/
def jobOf
    (root : Node)
    (edits : List Edit) :
    ParseJob :=
  ⟨if edits.isEmpty then none else some root, edits⟩

variable {index : Index} {snapshot : Snapshot}
variable {job : ParseJob} {Good : Node → Prop}

theorem parseWithKeys_spec
    (index : Index)
    {content : Content}
    {spans : Option SpanTable}
    (h : Makes index.table content spans job Good) :
    ∃ root stats next,
      index.parseWithKeys content spans job =
          .ok (root, stats, { index with nextKey := next }) ∧
        Good root := by
  rcases h with ⟨root, stats, hParse, hGood⟩
  refine ⟨(root.giveKeys index.nextKey).1, stats,
    (root.giveKeys index.nextKey).2, ?_, hGood _⟩
  simp [parseWithKeys, hParse, bind, Except.bind, pure,
    Except.pure]

/- A new index holds a tree with keys and no work. -/
theorem exists_of_ofSnapshot
    {table : TokenTable}
    (h : ofSnapshot table (some snapshot) = .ok index) :
    ∃ made stats,
      parse table snapshot.content snapshot.spans ⟨none, []⟩ =
          .ok (made, stats) ∧
        index =
          { empty table with
            nextKey := (made.giveKeys 0).2
            plain :=
              if snapshot.spans.isNone then
                some (made.giveKeys 0).1
              else none
            classified := some (made.giveKeys 0).1
            version := some snapshot.content.version
            content := some snapshot.content
            stats := stats } := by
  rcases Checked.bind_eq_ok_iff.1 h with
    ⟨⟨root, counts, keyed⟩, hParse, h⟩
  rcases Checked.bind_eq_ok_iff.1 hParse with
    ⟨⟨made, stats⟩, hMade, hParse⟩
  cases hParse
  cases h
  exact ⟨made, counts, hMade, rfl⟩

/-
  The work on a tree makes a good one.  Where there is none,
  the tree that there is is good.
-/
def Works
    (table : TokenTable)
    (content : Content)
    (spans : Option SpanTable)
    (tree : Option Node)
    (Good : Node → Prop) :
    Option ParseJob → Prop
  | none => ∀ root, tree = some root → Good root
  | some job =>
      tree.isSome = true ∧ Makes table content spans job Good

variable {work : Option ParseJob}

/- What work on the classified tree changes. -/
theorem updateClassified_spec
    (index : Index)
    (hTree : index.classified.isSome = true)
    (h :
      Works index.table snapshot.content snapshot.spans
        index.classified Good work) :
    ∃ root stats next,
      index.updateClassified snapshot work =
          .ok { index with
            nextKey := next
            classified := some root
            stats := stats } ∧
        Good root := by
  cases work with
  | none =>
      rcases Option.isSome_iff_exists.1 hTree with ⟨root, hRoot⟩
      refine ⟨root, index.stats, index.nextKey, ?_,
        h root hRoot⟩
      rw [← hRoot]
      rfl
  | some job =>
      rcases parseWithKeys_spec index h.2 with
        ⟨root, stats, next, hParse, hGood⟩
      refine ⟨root, stats, next, ?_, hGood⟩
      simp [updateClassified, hParse, bind, Except.bind,
        pure, Except.pure]

/- What work on the plain tree changes. -/
theorem updatePlain_spec
    (index : Index)
    (h :
      Works index.table snapshot.content none index.plain
        Good work) :
    ∃ plain stats next,
      index.updatePlain snapshot work =
          .ok { index with
            nextKey := next
            plain := plain
            stats := stats } ∧
        plain.isSome = index.plain.isSome ∧
        ∀ root, plain = some root → Good root := by
  cases work with
  | none =>
      exact ⟨index.plain, index.stats, index.nextKey, rfl, rfl,
        h⟩
  | some job =>
      rcases h with ⟨hSome, hMakes⟩
      rcases parseWithKeys_spec index hMakes with
        ⟨root, stats, next, hParse, hGood⟩
      refine ⟨some root, stats, next, ?_, by rw [hSome]; rfl,
        ?_⟩
      · simp [updatePlain, hParse, bind, Except.bind, pure,
          Except.pure]
      · rintro _ ⟨⟩
        exact hGood

/- What work on both trees at once changes. -/
theorem updateBoth_spec
    (index : Index)
    (h : Makes index.table snapshot.content none job Good) :
    ∃ root stats next,
      index.updateBoth snapshot job =
          .ok { index with
            nextKey := next
            classified := some root
            plain := some root
            stats := stats } ∧
        Good root := by
  rcases parseWithKeys_spec index h with
    ⟨root, stats, next, hParse, hGood⟩
  refine ⟨root, stats, next, ?_, hGood⟩
  simp [updateBoth, hParse, bind, Except.bind, pure,
    Except.pure]

/- There is no work only if nothing is queued and moved. -/
theorem job?_spec
    {isNeeded : Bool}
    {root : Node}
    {edits : List Edit} :
    (isNeeded = false ∧
        job? isNeeded (some root) edits = none) ∨
      job? isNeeded (some root) edits =
        some (jobOf root edits) := by
  by_cases hSome : isNeeded = true
  · rw [job?, if_pos hSome]
    exact .inr rfl
  · rw [job?, if_neg hSome]
    exact .inl ⟨Bool.eq_false_iff.2 hSome, rfl⟩

theorem classifiedJob?_spec
    (content : Content)
    {root : Node}
    (hRoot : index.classified = some root) :
    (index.classifiedJob? content = none ∧
        index.edits = [] ∧
        index.hasMoved content = false) ∨
      index.classifiedJob? content =
        some (jobOf root index.edits) := by
  rw [classifiedJob?, hRoot]
  refine job?_spec.imp_left ?_
  rintro ⟨hNeeded, hNone⟩
  simp only [Option.isNone_some, Bool.false_or,
    Bool.or_eq_false_iff, Bool.not_eq_false',
    List.isEmpty_iff] at hNeeded
  exact ⟨hNone, hNeeded⟩

theorem plainJob?_spec
    (content : Content)
    {root : Node}
    (hRoot : index.plain = some root) :
    (index.plainJob? content = none ∧
        index.plainEdits = [] ∧
        index.hasMoved content = false) ∨
      index.plainJob? content =
        some (jobOf root index.plainEdits) := by
  rw [plainJob?, hRoot]
  refine job?_spec.imp_left ?_
  rintro ⟨hNeeded, hNone⟩
  simp only [Option.isSome_some, Bool.true_and,
    Bool.or_eq_false_iff, Bool.not_eq_false',
    List.isEmpty_iff] at hNeeded
  exact ⟨hNone, hNeeded⟩

theorem plainJob?_none
    (content : Content)
    (hRoot : index.plain = none) :
    index.plainJob? content = none := by
  rw [plainJob?, hRoot]
  rfl

end Index

end Bracketry

------------------------------------------------------------
-- Flushing
------------------------------------------------------------

namespace Bracketry

namespace Index

variable {index : Index} {snapshot : Snapshot}
variable {Plain Classified : Node → List Edit → Prop}

/- Nothing is queued for a tree that there is. -/
structure IsSettled
    (index : Index) :
    Prop where
  classified : index.edits = []
  plain : index.plain.isSome = true → index.plainEdits = []

/- What a flush for some content leaves. -/
structure IsFlushed
    (index after : Index)
    (content : Content) :
    Prop where
  settled : after.IsSettled
  table : after.table = index.table
  version : after.version = some content.version
  plain : after.plain.isSome = index.plain.isSome

theorem version_of_not_moved
    {content : Content}
    (h : index.hasMoved content = false) :
    index.version = some content.version := by
  simpa [hasMoved] using h

variable {NewPlain NewClassified : Node → List Edit → Prop}

/- The work of a flush on the classified tree. -/
theorem Holds.classifiedWork
    {New : Node → List Edit → Prop}
    (h : index.Holds Plain Classified)
    (hMakes :
      ∀ root edits, Classified root edits →
        Makes index.table snapshot.content snapshot.spans
          (jobOf root edits) fun root => New root [])
    (hStay :
      index.hasMoved snapshot.content = false →
        ∀ root, Classified root [] → New root []) :
    (index.classifiedJob? snapshot.content = none →
        index.edits = [] ∧
          index.version = some snapshot.content.version) ∧
      Works index.table snapshot.content snapshot.spans
        index.classified (fun root => New root [])
        (index.classifiedJob? snapshot.content) := by
  rcases h.classified with ⟨root, hRoot, hKnown⟩
  rcases classifiedJob?_spec snapshot.content hRoot with
    ⟨hJob, hEdits, hMoved⟩ | hJob
  · rw [hJob]
    refine ⟨fun _ => ⟨hEdits, version_of_not_moved hMoved⟩,
      ?_⟩
    intro other hOther
    rw [hRoot] at hOther
    rcases Option.some.inj hOther with rfl
    rw [hEdits] at hKnown
    exact hStay hMoved root hKnown
  · rw [hJob, hRoot]
    exact ⟨by simp, rfl, hMakes root _ hKnown⟩

/- The work of a flush on the plain tree. -/
theorem Holds.plainWork
    {New : Node → List Edit → Prop}
    (h : index.Holds Plain Classified)
    (hMakes :
      ∀ root edits, Plain root edits →
        Makes index.table snapshot.content none
          (jobOf root edits) fun root => New root [])
    (hStay :
      index.hasMoved snapshot.content = false →
        ∀ root, Plain root [] → New root []) :
    (index.plainJob? snapshot.content = none →
        index.plain.isSome = true → index.plainEdits = []) ∧
      Works index.table snapshot.content none index.plain
        (fun root => New root [])
        (index.plainJob? snapshot.content) := by
  cases hTree : index.plain with
  | none =>
      rw [plainJob?_none _ hTree]
      refine ⟨by simp, ?_⟩
      rintro _ ⟨⟩
  | some root =>
      have hKnown := h.plain root hTree
      rcases plainJob?_spec snapshot.content hTree with
        ⟨hJob, hEdits, hMoved⟩ | hJob
      · rw [hJob]
        refine ⟨fun _ _ => hEdits, ?_⟩
        rintro _ ⟨⟩
        rw [hEdits] at hKnown
        exact hStay hMoved root hKnown
      · rw [hJob]
        exact ⟨by simp, rfl, hMakes root _ hKnown⟩

/- A flush that makes one tree do for both. -/
theorem flush_both
    {a b : ParseJob}
    (hA : index.classifiedJob? snapshot.content = some a)
    (hB : index.plainJob? snapshot.content = some b)
    (hBoth : isSameWork snapshot a b = true)
    (hTree : index.plain.isSome = true)
    (hMakes :
      Makes index.table snapshot.content none a
        fun root => NewClassified root [])
    (hSame : ∀ root, NewClassified root [] → NewPlain root []) :
    ∃ after,
      index.flush (some snapshot) = .ok after ∧
        after.Holds NewPlain NewClassified ∧
        index.IsFlushed after snapshot.content := by
  rcases updateBoth_spec
      { index with edits := [], plainEdits := [] } hMakes with
    ⟨new, stats, next, hUpdate, hNew⟩
  refine ⟨{ index with
    edits := [], plainEdits := [],
    nextKey := next, classified := some new,
    plain := some new, stats := stats,
    version := some snapshot.content.version,
    content := some snapshot.content,
    isDirty := false }, ?_, ⟨?_, new, rfl, hNew⟩,
    ⟨rfl, fun _ => rfl⟩, rfl, rfl, by rw [hTree]; rfl⟩
  · simp [Index.flush, update, hA, hB, hBoth, hUpdate, bind,
      Except.bind, pure, Except.pure]
  · rintro _ ⟨⟩
    exact hSame new hNew

/- A flush that does the work on each tree, if there is any. -/
theorem flush_each
    {work plainWork : Option ParseJob}
    (hJob : index.classifiedJob? snapshot.content = work)
    (hPlainJob : index.plainJob? snapshot.content = plainWork)
    (hBusy : ¬(work = none ∧ plainWork = none))
    (hApart :
      ∀ a b,
        work = some a → plainWork = some b →
          isSameWork snapshot a b = false)
    (hTree : index.classified.isSome = true)
    (hRest : work = none → index.edits = [])
    (hPlainRest :
      plainWork = none →
        index.plain.isSome = true → index.plainEdits = [])
    (hWork :
      Works index.table snapshot.content snapshot.spans
        index.classified (fun root => NewClassified root [])
        work)
    (hPlainWork :
      Works index.table snapshot.content none index.plain
        (fun root => NewPlain root []) plainWork) :
    ∃ after,
      index.flush (some snapshot) = .ok after ∧
        after.Holds NewPlain NewClassified ∧
        index.IsFlushed after snapshot.content := by
  have hIdle :
      (work.isNone && plainWork.isNone) = false := by
    cases work <;> cases plainWork <;> simp_all
  have hEdits :
      (if work.isSome then [] else index.edits) = [] := by
    cases work with
    | none => exact hRest rfl
    | some job => rfl
  have hPlainEdits :
      index.plain.isSome = true →
        (if plainWork.isSome then []
          else index.plainEdits) = [] := by
    cases plainWork with
    | none => exact hPlainRest rfl
    | some job => exact fun _ => rfl
  unfold Index.flush update
  simp only [hJob, hPlainJob]
  rw [hIdle, hEdits]
  generalize (if plainWork.isSome then []
    else index.plainEdits) = plainEdits at *
  rcases updateClassified_spec
      { index with edits := [], plainEdits := plainEdits } hTree
      hWork with
    ⟨new, stats, next, hUpdate, hNew⟩
  rcases updatePlain_spec
      { index with
        edits := [], plainEdits := plainEdits,
        nextKey := next, classified := some new,
        stats := stats } hPlainWork with
    ⟨plain, otherStats, last, hOther, hSome, hNewPlain⟩
  have hThere :
      plain.isSome = true → plainEdits = [] := by
    rw [hSome]
    exact hPlainEdits
  refine ⟨{ index with
    edits := [], plainEdits := plainEdits,
    nextKey := last, classified := some new,
    plain := plain, stats := otherStats,
    version := some snapshot.content.version,
    content := some snapshot.content,
    isDirty := false }, ?_, ⟨?_, new, rfl, hNew⟩,
    ⟨rfl, hThere⟩, rfl, rfl, hSome⟩
  · cases work <;> cases plainWork <;>
      simp_all [bind, Except.bind, pure, Except.pure]
  · intro root hRoot
    simp only at hRoot
    simp only [hThere (by rw [hRoot]; rfl)]
    exact hNewPlain root hRoot

/-
  A flush parses anew what has queued edits, and all if the
  content has moved.  Where the content is not classified,
  what is known then of the classified tree holds of the
  plain one.
-/
theorem Holds.flushTo
    (h : index.Holds Plain Classified)
    (hPlain :
      ∀ root edits, Plain root edits →
        Makes index.table snapshot.content none
          (jobOf root edits) fun root => NewPlain root [])
    (hClassified :
      ∀ root edits, Classified root edits →
        Makes index.table snapshot.content snapshot.spans
          (jobOf root edits) fun root =>
            NewClassified root [])
    (hSame :
      snapshot.spans = none →
        ∀ root, NewClassified root [] → NewPlain root [])
    (hStay :
      index.hasMoved snapshot.content = false →
        ∀ root,
          (Plain root [] → NewPlain root []) ∧
            (Classified root [] → NewClassified root [])) :
    ∃ after,
      index.flush (some snapshot) = .ok after ∧
        after.Holds NewPlain NewClassified ∧
        index.IsFlushed after snapshot.content := by
  rcases h.classifiedWork hClassified fun hMoved root =>
      (hStay hMoved root).2 with
    ⟨hRest, hWork⟩
  rcases h.plainWork hPlain fun hMoved root =>
      (hStay hMoved root).1 with
    ⟨hPlainRest, hPlainWork⟩
  have hTree : index.classified.isSome = true := by
    rcases h.classified with ⟨root, hRoot, _⟩
    rw [hRoot]
    rfl
  cases hJob : index.classifiedJob? snapshot.content with
  | none =>
      rw [hJob] at hRest hWork
      rcases hRest rfl with ⟨hEdits, hVersion⟩
      cases hPlainJob : index.plainJob? snapshot.content with
      | none =>
          rw [hPlainJob] at hPlainRest hPlainWork
          rcases Option.isSome_iff_exists.1 hTree with
            ⟨root, hRoot⟩
          refine ⟨{ index with isDirty := false }, ?_,
            ⟨?_, root, hRoot, ?_⟩, ⟨hEdits, hPlainRest rfl⟩,
            rfl, hVersion, rfl⟩
          · simp [Index.flush, update, hJob, hPlainJob, bind,
              Except.bind, pure, Except.pure]
          · intro other hOther
            have hNew := hPlainWork other hOther
            rwa [← hPlainRest rfl (by rw [hOther]; rfl)]
              at hNew
          · have hNew := hWork root hRoot
            rwa [← hEdits] at hNew
      | some job =>
          rw [hPlainJob] at hPlainRest hPlainWork
          exact flush_each hJob hPlainJob (by simp) (by simp)
            hTree (fun _ => hEdits) hPlainRest hWork hPlainWork
  | some job =>
      rw [hJob] at hRest hWork
      by_cases hBoth :
          ∃ other,
            index.plainJob? snapshot.content = some other ∧
              isSameWork snapshot job other = true
      · rcases hBoth with ⟨other, hPlainJob, hBoth⟩
        rw [hPlainJob] at hPlainWork
        have hSpans : snapshot.spans = none := by
          have hAll := hBoth
          rw [isSameWork, Bool.and_eq_true,
            Bool.and_eq_true] at hAll
          simpa using hAll.1.1
        have hMakes := hWork.2
        rw [hSpans] at hMakes
        exact flush_both hJob hPlainJob hBoth hPlainWork.1
          hMakes (hSame hSpans)
      · refine flush_each hJob rfl (by simp) ?_ hTree (by simp)
          hPlainRest hWork hPlainWork
        rintro _ other ⟨⟩ hOther
        exact Bool.eq_false_iff.2 fun hSameWork =>
          hBoth ⟨other, hOther, hSameWork⟩

/- What is known of both trees with their edits stays so. -/
theorem Holds.flush
    (h : index.Holds Plain Classified)
    (hPlain :
      ∀ root edits, Plain root edits →
        Makes index.table snapshot.content none
          (jobOf root edits) fun root => Plain root [])
    (hClassified :
      ∀ root edits, Classified root edits →
        Makes index.table snapshot.content snapshot.spans
          (jobOf root edits) fun root => Classified root [])
    (hSame :
      snapshot.spans = none →
        ∀ root, Classified root [] → Plain root []) :
    ∃ after,
      index.flush (some snapshot) = .ok after ∧
        after.Holds Plain Classified ∧
        index.IsFlushed after snapshot.content :=
  h.flushTo hPlain hClassified hSame
    fun _ _ => ⟨id, id⟩

end Index

end Bracketry

------------------------------------------------------------
-- Operations
------------------------------------------------------------

namespace Bracketry

namespace Index

variable {index : Index}
variable {Plain Classified : Node → List Edit → Prop}
variable {NewPlain NewClassified : Node → List Edit → Prop}

/- The index of some content holds its tree. -/
theorem ofSnapshot_spec
    {table : TokenTable}
    {snapshot : Snapshot}
    (hMakes :
      Makes table snapshot.content snapshot.spans ⟨none, []⟩
        fun root => Classified root [])
    (hSame :
      snapshot.spans = none →
        ∀ root, Classified root [] → Plain root []) :
    ∃ index,
      ofSnapshot table (some snapshot) = .ok index ∧
        index.Holds Plain Classified ∧ index.IsSettled ∧
        index.table = table ∧
        index.version = some snapshot.content.version ∧
        index.plain.isSome = snapshot.spans.isNone := by
  rcases parseWithKeys_spec (empty table) hMakes with
    ⟨root, stats, next, hParse, hGood⟩
  refine ⟨{ empty table with
    nextKey := next
    plain :=
      if snapshot.spans.isNone then some root else none
    classified := some root
    version := some snapshot.content.version
    content := some snapshot.content
    stats := stats }, ?_, ⟨?_, root, rfl, hGood⟩,
    ⟨rfl, fun _ => rfl⟩, rfl, rfl, ?_⟩
  · simp [ofSnapshot, hParse, bind, Except.bind, pure,
      Except.pure]
  · intro other hOther
    simp only at hOther
    split_ifs at hOther with hNone
    rcases Option.some.inj hOther with rfl
    exact hSame (Option.isNone_iff_eq_none.1 hNone) _ hGood
  · cases snapshot.spans <;> rfl

/- An edit is queued for both trees. -/
theorem Holds.queueEdit
    {start stop : Position}
    {text : List Char}
    (h : index.Holds Plain Classified)
    (hPlain :
      Queues [Edit.replace start stop text] Plain NewPlain)
    (hClassified :
      Queues [Edit.replace start stop text] Classified
        NewClassified) :
    ∃ after,
      index.queueEdit start stop text = .ok after ∧
        after.Holds NewPlain NewClassified ∧
        after.table = index.table ∧
        after.plain = index.plain := by
  rcases h.queueEdits hPlain hClassified with
    ⟨after, hQueue, hAfter, hTable, hTree⟩
  refine ⟨{ after with isDirty := true }, ?_,
    ⟨hAfter.plain, hAfter.classified⟩, hTable, hTree⟩
  simp [Index.queueEdit, hQueue, bind, Except.bind, pure,
    Except.pure]

/- Lines are queued for the classified tree. -/
theorem Holds.queueLines
    {changed : List LineSpan}
    (h : index.Holds Plain Classified)
    (hClassified :
      Queues ((LineSpan.merge changed).map LineSpan.toEdit)
        Classified NewClassified) :
    ∃ after,
      index.queueLines changed = .ok after ∧
        after.Holds Plain NewClassified ∧
        after.table = index.table ∧
        after.plain = index.plain := by
  rcases h.classified with ⟨root, hRoot, hKnown⟩
  by_cases hNil :
      (LineSpan.merge changed).map LineSpan.toEdit = []
  · rcases hClassified root _ hKnown with
      ⟨composed, hCompose, hNew⟩
    have hSame : index.edits = composed := by
      rw [hNil] at hCompose
      unfold Edit.compose at hCompose
      split_ifs at hCompose with hFirst hSecond
      · rw [List.isEmpty_iff] at hFirst
        rw [hFirst]
        exact Except.ok.inj hCompose
      · exact Except.ok.inj hCompose
      · simp at hSecond
    refine ⟨index, ?_, ⟨h.plain, root, hRoot, ?_⟩, rfl, rfl⟩
    · simp [Index.queueLines, hNil]
    · rwa [hSame]
  · rcases h.queueClassified hClassified with
      ⟨after, hQueue, hAfter, hTable, hTree⟩
    refine ⟨{ after with isDirty := true }, ?_,
      ⟨hAfter.plain, hAfter.classified⟩, hTable, hTree⟩
    have hEmpty :
        ((LineSpan.merge changed).map
          LineSpan.toEdit).isEmpty = false :=
      Bool.eq_false_iff.2 (mt List.isEmpty_iff.1 hNil)
    simp only [Index.queueLines, hEmpty, hRoot, hQueue, bind,
      Except.bind, pure, Except.pure, Option.isNone_some,
      Bool.or_self, Bool.false_eq_true, if_false]

/- The plain tree is dropped. -/
theorem Holds.completeClassification
    (h : index.Holds Plain Classified) :
    index.completeClassification.Holds Plain Classified where
  plain := by
    rintro root ⟨⟩
  classified := h.classified

end Index

end Bracketry
