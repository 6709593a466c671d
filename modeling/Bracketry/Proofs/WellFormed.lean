import Bracketry.Proofs.Sessions

/-
  Trees of a session are well formed.

  Behind every flush of every run over short texts, the trees
  of the index are balanced, each node keeps what its parts
  add up to, a pair that is not closed ends the items that it
  stands in, and the root is as long as the document.

  Key definitions include:
    * `Node.HasPart`, `Node.HasTop`
    * `Node.IsTreeOf`

  Main declarations:
    * `TextByte.isTreeOf_of_describes`
    * `Session.run_isTreeOf`
-/

------------------------------------------------------------
-- Parts of a Tree
------------------------------------------------------------

namespace Bracketry

namespace Node

/- The node is the tree itself or lies anywhere inside it. -/
inductive HasPart : Node → Node → Prop where
  | self {node} : HasPart node node
  | inside {node part below}
      (hPart : part ∈ node.children)
      (hBelow : HasPart part below) :
      HasPart node below

/- The node has parts, and keeps summaries of them. -/
def IsInner : Node → Prop
  | .pair _ _ _ _ _ _ => True
  | .list _ _ _ _ _ => True
  | _ => False

/- The items of the tree, or of what a pair in it holds. -/
def HasTop
    (root top : Node) :
    Prop :=
  top = root ∨
    ∃ key length missing opening closing,
      root.HasPart
        (.pair key length missing opening (some top) closing)

/- Some closing bracket inside did not find the id. -/
def Misses
    (node : Node)
    (id : Nat) :
    Prop :=
  ∃ key ids length,
    node.HasPart (.invalid key ids length) ∧
      id ∈ ids.toList

/-
  The tree is a well-formed tree of the text: balanced, with
  right summaries everywhere, and with pairs that are not
  closed only at the end of their items.
-/
structure IsTreeOf
    (root : Node)
    (text : List Char) :
    Prop where
  balanced : root.isBalanced = true
  filled :
    ∀ node, root.HasPart node → node.isEmptyList = true →
      node = root ∧ text = []
  lengths :
    ∀ node, root.HasPart node → node.IsInner →
      node.length = (node.children.map length).sum
  missing :
    ∀ node, root.HasPart node → node.IsInner →
      ∀ id, id ∈ node.missing.toList ↔ node.Misses id
  unclosed :
    ∀ top, root.HasTop top →
      ∀ before key length missing opening child after,
        top.items =
            before ++
              .pair key length missing opening child none ::
                after →
          after = []
  length : root.length = Length.ofText text

end Node

end Bracketry

------------------------------------------------------------
-- Parts of Proper Trees
------------------------------------------------------------

namespace Bracketry

namespace Node

theorem isProper_of_isBracket
    {node : Node}
    (h : node.IsBracket) :
    node.IsProper := by
  rcases h with ⟨leaf, rfl⟩
  trivial

theorem isProper_of_mem_children
    {node part : Node}
    (h : node.IsProper)
    (hPart : part ∈ node.children) :
    part.IsProper := by
  cases node with
  | text key length => cases hPart
  | bracket leaf => cases hPart
  | invalid key ids length => cases hPart
  | pair key length missing opening child closing =>
      rcases isProper_pair.1 h with
        ⟨hOpening, hClosing, _, _, hChild⟩
      simp only [children, List.mem_cons, List.mem_append,
        Option.mem_toList] at hPart
      rcases hPart with rfl | hInside | hLast
      · exact isProper_of_isBracket hOpening
      · exact hChild part hInside
      · exact isProper_of_isBracket (hClosing part hLast)
  | list key height length missing items =>
      exact (isProper_item h part hPart).2

/- All parts of a proper tree are proper. -/
theorem HasPart.isProper
    {root node : Node}
    (h : root.HasPart node)
    (hRoot : root.IsProper) :
    node.IsProper := by
  induction h with
  | self => exact hRoot
  | inside hPart _ ih =>
      exact ih (isProper_of_mem_children hRoot hPart)

theorem isBalanced_of_isProper
    {node : Node}
    (h : node.IsProper) :
    node.isBalanced = true := by
  induction node using Node.induction with
  | text key length => rfl
  | bracket leaf => rfl
  | invalid key ids length => rfl
  | pair key length missing opening child closing ih =>
      rcases isProper_pair.1 h with ⟨_, _, _, _, hChild⟩
      cases child with
      | none => rfl
      | some node =>
          rw [isBalanced]
          exact ih node rfl (hChild node rfl)
  | list key height length missing items ih =>
      have hItems := isProper_item h
      have hCount := h.1
      have hAll : allBalanced height items = true := by
        clear h hCount
        induction items with
        | nil => rfl
        | cons first rest ihRest =>
            rw [List.forall_mem_cons] at ih hItems
            rw [allBalanced, ih.1 hItems.1.2,
              ihRest ih.2 hItems.2, hItems.1.1]
            simp
      have hSome : items.isEmpty = false := by
        cases items with
        | nil => simp at hCount
        | cons first rest => rfl
      rw [isBalanced, hSome, hAll]
      simpa using hCount

/- A proper node is as long as its parts. -/
theorem length_eq_children
    {node : Node}
    (h : node.IsProper)
    (hInner : node.IsInner) :
    node.length = (node.children.map length).sum := by
  cases node with
  | text key length => exact hInner.elim
  | bracket leaf => exact hInner.elim
  | invalid key ids length => exact hInner.elim
  | pair key length missing opening child closing =>
      rcases isProper_pair.1 h with ⟨_, _, hLength, _, _⟩
      rw [Node.length, hLength]
      cases child <;> cases closing <;>
        simp [children, partLength]
  | list key height length missing items => exact h.2.1

theorem misses_iff
    {node : Node}
    {id : Nat}
    (hInner : node.IsInner) :
    node.Misses id ↔
      ∃ part ∈ node.children, part.Misses id := by
  constructor
  · rintro ⟨key, ids, length, hPart, hId⟩
    cases hPart with
    | self => exact hInner.elim
    | inside hPart hBelow =>
        exact ⟨_, hPart, key, ids, length, hBelow, hId⟩
  · rintro ⟨part, hPart, key, ids, length, hBelow, hId⟩
    exact ⟨key, ids, length, .inside hPart hBelow, hId⟩

theorem not_misses_of_isBracket
    {node : Node}
    {id : Nat}
    (h : node.IsBracket) :
    ¬node.Misses id := by
  rcases h with ⟨leaf, rfl⟩
  rintro ⟨key, ids, length, hPart, _⟩
  cases hPart with
  | inside hPart _ => cases hPart

/- A proper node keeps the ids that were not found in it. -/
theorem mem_missing_iff
    {node : Node}
    {id : Nat}
    (h : node.IsProper) :
    id ∈ node.missing.toList ↔ node.Misses id := by
  induction node using Node.induction with
  | text key length =>
      refine iff_of_false (by simp [missing, IdSet.toList_empty]) ?_
      rintro ⟨_, _, _, hPart, _⟩
      cases hPart with
      | inside hPart _ => cases hPart
  | bracket leaf =>
      exact iff_of_false (by simp [missing, IdSet.toList_empty])
        (not_misses_of_isBracket ⟨leaf, rfl⟩)
  | invalid key ids length =>
      constructor
      · intro hId
        exact ⟨key, ids, length, .self, hId⟩
      · rintro ⟨_, _, _, hPart, hId⟩
        cases hPart with
        | self => exact hId
        | inside hPart _ => cases hPart
  | pair key length missing opening child closing ih =>
      rcases isProper_pair.1 h with
        ⟨hOpening, hClosing, _, hMissing, hChild⟩
      have hInner :
          (Node.pair key length missing opening child
            closing).IsInner :=
        trivial
      rw [misses_iff hInner, Node.missing, hMissing]
      constructor
      · intro hId
        cases child with
        | none => simp [partMissing, IdSet.toList_empty] at hId
        | some node =>
            exact ⟨node, by simp [children],
              (ih node rfl (hChild node rfl)).1 hId⟩
      · rintro ⟨part, hPart, hMisses⟩
        simp only [children, List.mem_cons, List.mem_append,
          Option.mem_toList] at hPart
        rcases hPart with rfl | hInside | hLast
        · exact absurd hMisses
            (not_misses_of_isBracket hOpening)
        · subst hInside
          exact (ih part rfl (hChild part rfl)).2 hMisses
        · exact absurd hMisses
            (not_misses_of_isBracket (hClosing part hLast))
  | list key height length missing items ih =>
      have hItems := isProper_item h
      have hInner :
          (Node.list key height length missing
            items).IsInner :=
        trivial
      rw [misses_iff hInner, Node.missing, h.2.2.1,
        mem_allMissing]
      constructor
      · rintro ⟨item, hItem, hId⟩
        exact ⟨item, hItem,
          (ih item hItem (hItems item hItem).2).1 hId⟩
      · rintro ⟨item, hItem, hMisses⟩
        exact ⟨item, hItem,
          (ih item hItem (hItems item hItem).2).2 hMisses⟩

/- What a part shows is matched where the tree shows it. -/
theorem HasPart.exists_matched
    {root node : Node}
    (h : root.HasPart node)
    (hRoot : root.IsProper)
    (hForest :
      root.IsBracket ∨
        ∃ forest : Forest Token,
          forest.shape = root.shape ∧ forest.IsMatched) :
    node.IsBracket ∨
      ∃ forest : Forest Token,
        forest.shape = node.shape ∧ forest.IsMatched := by
  induction h with
  | self => exact hForest
  | @inside node part below hPart hBelow ih =>
      refine ih (isProper_of_mem_children hRoot hPart) ?_
      rcases hForest with ⟨leaf, rfl⟩ | ⟨forest, hShape, hMatched⟩
      · cases hPart
      cases node with
      | text key length => cases hPart
      | bracket leaf => cases hPart
      | invalid key ids length => cases hPart
      | pair key length missing opening child closing =>
          rcases isProper_pair.1 hRoot with
            ⟨hOpening, hClosing, _, _, _⟩
          rw [shape_pair] at hShape
          rcases Forest.exists_of_shape_eq_pair hShape with
            ⟨_, inside, _, rfl, _, hInside, _⟩
          simp only [children, List.mem_cons, List.mem_append,
            Option.mem_toList] at hPart
          rcases hPart with rfl | hChild | hLast
          · exact .inl hOpening
          · subst hChild
            exact .inr ⟨inside, hInside, hMatched.2.1⟩
          · exact .inl (hClosing part hLast)
      | list key height length missing items =>
          rcases List.append_of_mem hPart with
            ⟨before, after, rfl⟩
          rw [shape, shapeOfAll_append, shapeOfAll] at hShape
          rcases Forest.exists_of_shape_append hShape with
            ⟨_, second, rfl, _, hSecond⟩
          rcases Forest.exists_of_shape_append hSecond with
            ⟨first, _, rfl, hFirst, _⟩
          exact .inr ⟨first, hFirst,
            Forest.isMatched_of_append_left
              (Forest.isMatched_of_append_right hMatched)⟩

/- A pair that is not closed ends the items. -/
theorem eq_nil_of_unclosed
    {top opening : Node}
    {forest : Forest Token}
    {before after : List Node}
    {key : Option Nat}
    {length : Length}
    {missing : IdSet}
    {child : Option Node}
    (hTop : top.IsProper)
    (hShape : forest.shape = top.shape)
    (hMatched : forest.IsMatched)
    (hItems :
      top.items =
        before ++
          .pair key length missing opening child none ::
            after) :
    after = [] := by
  rw [← shapeOfAll_items, hItems, shapeOfAll_append,
    shapeOfAll, shape_pair] at hShape
  rcases Forest.exists_of_shape_append hShape with
    ⟨_, second, rfl, _, hSecond⟩
  have hEnd := Forest.isMatched_of_append_right hMatched
  cases second with
  | nil => cases hSecond
  | leaf t rest => cases hSecond
  | stray t rest => cases hSecond
  | pair o inside c rest =>
      injection hSecond with _ _ hClosing hRest
      rcases Option.map_eq_none_iff.1 hClosing with rfl
      have hNil : rest = .nil := hEnd.2.2.2.1
      subst hNil
      cases after with
      | nil => rfl
      | cons item others =>
          have hItem : item ∈ top.items := by simp [hItems]
          have hNil :
              item.shape ++ shapeOfAll others = .nil :=
            hRest.symm
          exact absurd (Forest.append_eq_nil.1 hNil).1
            (shape_ne_nil
              (Feed.isProper_of_mem_items hTop hItem))

end Node

end Bracketry

------------------------------------------------------------
-- Trees that Describe Bytes
------------------------------------------------------------

namespace Bracketry

open Measured

/- The tree of an empty text has no other parts. -/
theorem Node.eq_of_hasPart_empty
    {key : Option Nat}
    {height : Nat}
    {length : Length}
    {missing : IdSet}
    {node : Node}
    (h : (Node.list key height length missing []).HasPart node) :
    node = .list key height length missing [] := by
  cases h with
  | self => rfl
  | inside hPart _ => cases hPart

theorem Node.isTreeOf_empty
    (key : Option Nat) :
    (Node.list key 0 0 IdSet.empty []).IsTreeOf [] where
  balanced := by simp [isBalanced]
  filled _ hPart _ := ⟨eq_of_hasPart_empty hPart, rfl⟩
  lengths := by
    rintro node hPart _
    rw [eq_of_hasPart_empty hPart]
    rfl
  missing := by
    rintro node hPart _ id
    rw [eq_of_hasPart_empty hPart]
    refine iff_of_false (by simp [Node.missing, IdSet.toList_empty])
      ?_
    rintro ⟨_, _, _, hStray, _⟩
    cases eq_of_hasPart_empty hStray
  unclosed := by
    rintro top (rfl | ⟨_, _, _, _, _, hPair⟩) before _ _ _ _ _
      after hItems
    · simp [items, itemsOfAll] at hItems
    · cases eq_of_hasPart_empty hPair
  length := rfl

/- What a pair in a matched tree holds is matched. -/
theorem Node.HasTop.exists_matched
    {root top : Node}
    {forest : Forest Token}
    (h : root.HasTop top)
    (hRoot : root.IsProper)
    (hShape : forest.shape = root.shape)
    (hMatched : forest.IsMatched) :
    top.IsProper ∧
      ∃ inside : Forest Token,
        inside.shape = top.shape ∧ inside.IsMatched := by
  rcases h with rfl | ⟨_, _, _, _, _, hPair⟩
  · exact ⟨hRoot, forest, hShape, hMatched⟩
  · rcases isProper_pair.1 (hPair.isProper hRoot) with
      ⟨_, _, _, _, hChild⟩
    refine ⟨hChild top rfl, ?_⟩
    rcases hPair.exists_matched hRoot
      (.inr ⟨forest, hShape, hMatched⟩) with
      ⟨_, hNone⟩ | ⟨found, hFound, hInside⟩
    · cases hNone
    · rw [shape_pair] at hFound
      rcases Forest.exists_of_shape_eq_pair hFound with
        ⟨_, inside, _, rfl, _, hTop, _⟩
      exact ⟨inside, hTop, hInside.2.1⟩

/- A tree that describes a text is a tree of the text. -/
theorem TextByte.isTreeOf_of_describes
    {root : Node}
    {text : List Char}
    (h : TextByte.account.Describes root (TextByte.ofText text)) :
    root.IsTreeOf text := by
  rcases h with ⟨forest, hRoot, hShape, hMatched, hSpells⟩
  have hLength : root.length = Length.ofText text := by
    rw [Node.length_of_isRoot hRoot hShape.symm,
      ← TextByte.extent_ofText, hSpells.extent_eq]
    rfl
  rcases hRoot with hProper | ⟨key, rfl⟩
  · refine ⟨Node.isBalanced_of_isProper hProper, ?_, ?_, ?_,
      ?_, hLength⟩
    · intro node hPart hEmpty
      rw [Feed.isEmptyList_of_isProper
        (hPart.isProper hProper)] at hEmpty
      cases hEmpty
    · intro node hPart hInner
      exact Node.length_eq_children (hPart.isProper hProper)
        hInner
    · intro node hPart _ id
      exact Node.mem_missing_iff (hPart.isProper hProper)
    · intro top hTop before key length missing opening child
        after hItems
      rcases hTop.exists_matched hProper hShape hMatched with
        ⟨hTopProper, inside, hInside, hTopMatched⟩
      exact Node.eq_nil_of_unclosed hTopProper hInside
        hTopMatched hItems
  · rw [← extent_chars] at hLength
    rcases extent_eq_zero.1 hLength.symm with rfl
    exact Node.isTreeOf_empty key

end Bracketry

------------------------------------------------------------
-- Trees of a Session
------------------------------------------------------------

namespace Bracketry

namespace Session

/-
  Every run that the document allows, where its text is short
  and stays so, succeeds, and behind each flush in it the
  trees of the index are well-formed trees of the text at
  that moment.
-/
theorem run_isTreeOf
    {declaration : BracketDeclaration}
    {document : SharedDocument}
    {steps : List Step}
    (hFlat : declaration.IsFlat)
    (hShort : Text.IsShort document.document.text)
    (hAllows : document.document.AllowsAll steps) :
    ∃ start last flushed,
      ofShared (TokenTable.ofDeclaration declaration)
          document = .ok start ∧
        start.run steps = .ok last ∧
        last.flush = .ok flushed ∧
        flushed.document.document =
          document.document.afterAll steps ∧
        flushed.index.current?.isSome = true ∧
        ∀ root,
          flushed.index.plain = some root ∨
              flushed.index.classified = some root →
            root.IsTreeOf flushed.text := by
  rcases exists_ofShared
      (TokenTable.isSolid_ofDeclaration declaration)
      (TokenTable.isFlat_ofDeclaration hFlat) hShort with
    ⟨start, hStart, hSound, hDocument⟩
  rw [← hDocument] at hAllows
  rcases hSound.run hAllows with ⟨last, hRun, hLast, hAfter⟩
  rcases hLast.flush with
    ⟨flushed, hFlush, hFlushed, hSame, hSettled⟩
  refine ⟨start, last, flushed, hStart, hRun, hFlush, ?_, ?_,
    ?_⟩
  · rw [hSame, hAfter, hDocument]
  · rcases hFlushed.holds.classified with ⟨root, hRoot, _⟩
    rw [Index.current?, hRoot]
    cases flushed.index.plain <;> rfl
  · intro root hRoot
    exact TextByte.isTreeOf_of_describes
      (hFlushed.describes hSettled hRoot)

/- A round bracket is closed, and then its line is cut. -/
theorem run_isTreeOf_parens :
    let declaration : BracketDeclaration :=
      ⟨[⟨['('], [')']⟩], none⟩
    let document := SharedDocument.ofDocument
      (Document.ofText ['a', '(', 'b'])
    let steps : List Step :=
      [.edit ⟨0, 3⟩ ⟨0, 3⟩ [')'], .flush,
        .classify ⟨[[⟨0, .comment⟩]]⟩ [⟨0, 0⟩],
        .edit ⟨0, 1⟩ ⟨0, 2⟩ ['\n'], .declassify]
    declaration.IsFlat ∧
      Text.IsShort document.document.text ∧
      document.document.AllowsAll steps ∧
      ∃ start last flushed,
        ofShared (TokenTable.ofDeclaration declaration)
            document = .ok start ∧
          start.run steps = .ok last ∧
          last.flush = .ok flushed ∧
          flushed.document.document =
            document.document.afterAll steps ∧
          flushed.index.current?.isSome = true ∧
          ∀ root,
            flushed.index.plain = some root ∨
                flushed.index.classified = some root →
              root.IsTreeOf flushed.text := by
  intro declaration document steps
  have hFlat : declaration.IsFlat := by decide
  have hShort : Text.IsShort document.document.text := by
    decide
  have hAllows : document.document.AllowsAll steps := by
    decide
  exact ⟨hFlat, hShort, hAllows,
    run_isTreeOf hFlat hShort hAllows⟩

end Session

end Bracketry
