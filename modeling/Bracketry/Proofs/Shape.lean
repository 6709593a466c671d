import Bracketry.Proofs.Forest

/-
  Trees as forests.

  The shape of a tree is the forest of what its leaves show,
  without the lists that hold them together.  A tree is
  proper when its lists have two or three items of one
  height and every summary that a node keeps is that of its
  parts.  In a proper tree, the length, the ids that were
  not found and the last item of a node are those of its
  shape, whatever its lists look like.

  Key definitions include:
    * `Sign`, `Forest.shape`
    * `Node.shape`, `Node.IsProper`
    * `Node.leaves`

  Main declarations:
    * `Node.induction`
    * `Node.length_eq_total`
    * `Node.avoids_iff`
    * `Node.isClosed_of_canBeReused`
-/

------------------------------------------------------------
-- Signs
------------------------------------------------------------

namespace Bracketry

/- What a leaf of a tree shows: a bracket has its kind. -/
structure Sign where
  length : Length
  ids : IdSet
  kind : Option BracketKind
deriving DecidableEq, Inhabited

namespace Sign

/- The sign of text. -/
def text
    (length : Length) :
    Sign :=
  ⟨length, IdSet.empty, none⟩

/- The sign of a closing bracket that closes nothing. -/
def stray
    (ids : IdSet)
    (length : Length) :
    Sign :=
  ⟨length, ids, none⟩

/- The sign of a bracket of a pair. -/
def bracket
    (leaf : Bracket) :
    Sign :=
  ⟨leaf.length, leaf.ids, some leaf.kind⟩

end Sign

/- The sign of a token of a pair. -/
def Token.sign : Token → Sign
  | .text length => Sign.text length
  | .bracket leaf _ => Sign.bracket leaf

@[simp] theorem Token.length_sign
    (token : Token) :
    token.sign.length = token.length := by
  cases token <;> rfl

/- What a forest of tokens shows. -/
def Forest.shape : Forest Token → Forest Sign
  | .nil => .nil
  | .leaf t rest => .leaf (Sign.text t.length) rest.shape
  | .stray t rest =>
      .stray (Sign.stray t.ids t.length) rest.shape
  | .pair opening inside closing rest =>
      .pair opening.sign inside.shape
        (closing.map Token.sign) rest.shape

end Bracketry

------------------------------------------------------------
-- Shapes and Proper Trees
------------------------------------------------------------

namespace Bracketry

namespace Node

/- The sign of a bracket leaf; others count as text. -/
def sign : Node → Sign
  | .bracket leaf => Sign.bracket leaf
  | node => Sign.text node.length

mutual

/- What the leaves of a tree show. -/
def shape : Node → Forest Sign
  | .text _ length => .leaf (Sign.text length) .nil
  | .bracket leaf => .leaf (Sign.bracket leaf) .nil
  | .invalid _ ids length =>
      .stray (Sign.stray ids length) .nil
  | .pair _ _ _ opening child closing =>
      .pair opening.sign
        (match child with
          | some node => node.shape
          | none => .nil)
        (closing.map sign) .nil
  | .list _ _ _ _ items => shapeOfAll items

/- What the leaves of several trees show. -/
def shapeOfAll : List Node → Forest Sign
  | [] => .nil
  | node :: rest => node.shape ++ shapeOfAll rest

end

/- The shape of a part that may be absent. -/
def partShape : Option Node → Forest Sign
  | some node => node.shape
  | none => .nil

@[simp] theorem shape_pair
    (key : Option Nat)
    (length : Length)
    (missing : IdSet)
    (opening : Node)
    (child closing : Option Node) :
    (Node.pair key length missing opening child
      closing).shape =
      .pair opening.sign (partShape child)
        (closing.map sign) .nil := by
  cases child <;> rfl

/- The node is a bracket leaf. -/
def IsBracket
    (node : Node) :
    Prop :=
  ∃ leaf, node = .bracket leaf

/- A closing part that is a bracket if it is there. -/
theorem exists_closer
    {closing : Option Node}
    (h : ∀ node, closing = some node → node.IsBracket) :
    ∃ closer : Option Bracket,
      closing = closer.map .bracket := by
  cases closing with
  | none => exact ⟨none, rfl⟩
  | some node =>
      rcases h node rfl with ⟨leaf, rfl⟩
      exact ⟨some leaf, rfl⟩

/- The length of a part that may be absent. -/
def partLength : Option Node → Length
  | some node => node.length
  | none => 0

/- The ids that were not found in such a part. -/
def partMissing : Option Node → IdSet
  | some node => node.missing
  | none => IdSet.empty

mutual

/-
  Lists have two or three items of the height below, and all
  that a node keeps is right for its parts.
-/
def IsProper : Node → Prop
  | .pair _ length missing opening child closing =>
      opening.IsBracket ∧
        (∀ node, closing = some node → node.IsBracket) ∧
        length =
          opening.length +
            (partLength child + partLength closing) ∧
        missing = partMissing child ∧
        (match child with
          | some node => node.IsProper
          | none => True)
  | .list _ height length missing items =>
      (items.length = 2 ∨ items.length = 3) ∧
        length = (items.map Node.length).sum ∧
        missing = allMissing items ∧
        AllProper height items
  | _ => True

/- The items are proper, and of the height below. -/
def AllProper
    (height : Nat) :
    List Node → Prop
  | [] => True
  | item :: rest =>
      item.height + 1 = height ∧ item.IsProper ∧
        AllProper height rest

end

theorem isProper_pair
    {key : Option Nat}
    {length : Length}
    {missing : IdSet}
    {opening : Node}
    {child closing : Option Node} :
    (Node.pair key length missing opening child
      closing).IsProper ↔
      opening.IsBracket ∧
        (∀ node, closing = some node → node.IsBracket) ∧
        length =
          opening.length +
            (partLength child + partLength closing) ∧
        missing = partMissing child ∧
        (∀ node, child = some node → node.IsProper) := by
  cases child <;> simp [IsProper]

end Node

end Bracketry

------------------------------------------------------------
-- Induction over Trees
------------------------------------------------------------

namespace Bracketry

namespace Node

mutual

/-
  What holds of leaves, of pairs with their inside and of
  lists with their items holds of all trees.
-/
theorem induction
    {P : Node → Prop}
    (text : ∀ key length, P (.text key length))
    (bracket : ∀ leaf, P (.bracket leaf))
    (invalid :
      ∀ key ids length, P (.invalid key ids length))
    (pair :
      ∀ key length missing opening child closing,
        (∀ node, child = some node → P node) →
        P (.pair key length missing opening child closing))
    (list :
      ∀ key height length missing items,
        (∀ item ∈ items, P item) →
        P (.list key height length missing items)) :
    (node : Node) → P node
  | .text key length => text key length
  | .bracket leaf => bracket leaf
  | .invalid key ids length => invalid key ids length
  | .pair key length missing opening none closing =>
      pair key length missing opening none closing
        (by simp)
  | .pair key length missing opening (some child)
      closing => by
      have hChild :=
        induction text bracket invalid pair list child
      exact pair key length missing opening (some child)
        closing (by rintro _ ⟨⟩; exact hChild)
  | .list key height length missing items =>
      list key height length missing items
        (inductionOfAll text bracket invalid pair list
          items)

/- All of several trees have the property. -/
theorem inductionOfAll
    {P : Node → Prop}
    (text : ∀ key length, P (.text key length))
    (bracket : ∀ leaf, P (.bracket leaf))
    (invalid :
      ∀ key ids length, P (.invalid key ids length))
    (pair :
      ∀ key length missing opening child closing,
        (∀ node, child = some node → P node) →
        P (.pair key length missing opening child closing))
    (list :
      ∀ key height length missing items,
        (∀ item ∈ items, P item) →
        P (.list key height length missing items)) :
    (items : List Node) → ∀ item ∈ items, P item
  | [] => by simp
  | first :: rest => by
      have hFirst :=
        induction text bracket invalid pair list first
      have hRest :=
        inductionOfAll text bracket invalid pair list rest
      rw [List.forall_mem_cons]
      exact ⟨hFirst, hRest⟩

end

theorem allProper_iff
    {height : Nat}
    {items : List Node} :
    AllProper height items ↔
      ∀ item ∈ items,
        item.height + 1 = height ∧ item.IsProper := by
  induction items with
  | nil => simp [AllProper]
  | cons item rest ih =>
      rw [List.forall_mem_cons, AllProper, ih, and_assoc]

end Node

end Bracketry

------------------------------------------------------------
-- Shapes of Forests
------------------------------------------------------------

namespace Bracketry

namespace Forest

@[simp] theorem shape_append
    (a b : Forest Token) :
    (a ++ b).shape = a.shape ++ b.shape := by
  induction a <;> simp_all [shape]

/- The parts of a shape are shapes of parts. -/
theorem exists_of_shape_append
    {forest : Forest Token}
    {a b : Forest Sign}
    (h : forest.shape = a ++ b) :
    ∃ first second,
      forest = first ++ second ∧
        first.shape = a ∧ second.shape = b := by
  induction a generalizing forest with
  | nil => exact ⟨.nil, forest, rfl, rfl, h⟩
  | leaf sign rest ih =>
      cases forest with
      | leaf t others =>
          injection h with hSign hRest
          rcases ih hRest with ⟨first, second, rfl, rfl, rfl⟩
          exact ⟨.leaf t first, second, rfl,
            by rw [shape, hSign], rfl⟩
      | nil => cases h
      | stray t others => cases h
      | pair o i c others => cases h
  | stray sign rest ih =>
      cases forest with
      | stray t others =>
          injection h with hSign hRest
          rcases ih hRest with ⟨first, second, rfl, rfl, rfl⟩
          exact ⟨.stray t first, second, rfl,
            by rw [shape, hSign], rfl⟩
      | nil => cases h
      | leaf t others => cases h
      | pair o i c others => cases h
  | pair opening inside closing rest _ ih =>
      cases forest with
      | pair o i c others =>
          injection h with hOpening hInside hClosing hRest
          rcases ih hRest with ⟨first, second, rfl, rfl, rfl⟩
          exact ⟨.pair o i c first, second, rfl,
            by rw [shape, hOpening, hInside, hClosing], rfl⟩
      | nil => cases h
      | leaf t others => cases h
      | stray t others => cases h

theorem shape_eq_nil
    {forest : Forest Token} :
    forest.shape = .nil ↔ forest = .nil := by
  cases forest <;> simp [shape]

theorem exists_of_shape_eq_leaf
    {forest : Forest Token}
    {sign : Sign}
    (h : forest.shape = .leaf sign .nil) :
    ∃ t,
      forest = .leaf t .nil ∧
        Sign.text t.length = sign := by
  cases forest with
  | leaf t rest =>
      injection h with hSign hRest
      exact ⟨t, by rw [shape_eq_nil.1 hRest], hSign⟩
  | nil => cases h
  | stray t rest => cases h
  | pair o i c rest => cases h

theorem exists_of_shape_eq_stray
    {forest : Forest Token}
    {sign : Sign}
    (h : forest.shape = .stray sign .nil) :
    ∃ t,
      forest = .stray t .nil ∧
        Sign.stray t.ids t.length = sign := by
  cases forest with
  | stray t rest =>
      injection h with hSign hRest
      exact ⟨t, by rw [shape_eq_nil.1 hRest], hSign⟩
  | nil => cases h
  | leaf t rest => cases h
  | pair o i c rest => cases h

theorem exists_of_shape_eq_pair
    {forest : Forest Token}
    {first : Sign}
    {middle : Forest Sign}
    {last : Option Sign}
    (h : forest.shape = .pair first middle last .nil) :
    ∃ opening inside closing,
      forest = .pair opening inside closing .nil ∧
        opening.sign = first ∧ inside.shape = middle ∧
        closing.map Token.sign = last := by
  cases forest with
  | pair o i c rest =>
      injection h with hOpening hInside hClosing hRest
      exact ⟨o, i, c, by rw [shape_eq_nil.1 hRest],
        hOpening, hInside, hClosing⟩
  | nil => cases h
  | leaf t rest => cases h
  | stray t rest => cases h

theorem isClosed_shape
    {forest : Forest Token} :
    forest.shape.IsClosed ↔ forest.IsClosed := by
  induction forest with
  | nil => rfl
  | leaf t rest ih => exact ih
  | stray t rest ih => exact ih
  | pair opening inside closing rest _ ih =>
      simp [shape, IsClosed, ih]

/- Shapes keep the length of every token. -/
theorem lengths_shape
    (forest : Forest Token) :
    forest.shape.leaves.map Sign.length =
      forest.leaves.map Token.length := by
  induction forest with
  | nil => rfl
  | leaf t rest ih => simp [shape, leaves, ih, Sign.text]
  | stray t rest ih => simp [shape, leaves, ih, Sign.stray]
  | pair opening inside closing rest ihInside ih =>
      cases closing <;> simp [shape, leaves, ihInside, ih]

end Forest

end Bracketry

------------------------------------------------------------
-- Items of a Tree
------------------------------------------------------------

namespace Bracketry

namespace Node

@[simp] theorem shapeOfAll_append
    (a b : List Node) :
    shapeOfAll (a ++ b) = shapeOfAll a ++ shapeOfAll b := by
  induction a with
  | nil => rfl
  | cons item rest ih =>
      simp [shapeOfAll, ih, Forest.append_assoc]

/- Lists do not show. -/
theorem shapeOfAll_items
    (node : Node) :
    shapeOfAll node.items = node.shape := by
  have hAll :
      ∀ nodes : List Node,
        (∀ item ∈ nodes,
          shapeOfAll item.items = item.shape) →
        shapeOfAll (itemsOfAll nodes) =
          shapeOfAll nodes := by
    intro nodes hNodes
    induction nodes with
    | nil => rfl
    | cons item rest ih =>
        rw [List.forall_mem_cons] at hNodes
        rw [itemsOfAll, shapeOfAll_append, hNodes.1,
          ih hNodes.2, shapeOfAll]
  induction node using Node.induction with
  | text key length => simp [items, shapeOfAll]
  | bracket leaf => simp [items, shapeOfAll]
  | invalid key ids length => simp [items, shapeOfAll]
  | pair key length missing opening child closing ih =>
      simp [items, shapeOfAll]
  | list key height length missing nodes ih =>
      rw [items, shape]
      exact hAll nodes ih

theorem shapeOfAll_itemsOfAll
    (nodes : List Node) :
    shapeOfAll (itemsOfAll nodes) = shapeOfAll nodes := by
  induction nodes with
  | nil => rfl
  | cons item rest ih =>
      rw [itemsOfAll, shapeOfAll_append, shapeOfAll_items,
        ih, shapeOfAll]

end Node

end Bracketry

------------------------------------------------------------
-- Summaries of Proper Trees
------------------------------------------------------------

namespace Bracketry

namespace Node

theorem length_sign_of_isBracket
    {node : Node}
    (h : node.IsBracket) :
    node.sign.length = node.length := by
  rcases h with ⟨leaf, rfl⟩
  rfl

/- A proper tree is as long as all that it shows. -/
theorem length_eq_sum
    {node : Node}
    (h : node.IsProper) :
    node.length =
      (node.shape.leaves.map Sign.length).sum := by
  induction node using Node.induction with
  | text key length =>
      simp [Node.length, shape, Forest.leaves, Sign.text]
  | bracket leaf =>
      simp [Node.length, shape, Forest.leaves, Sign.bracket]
  | invalid key ids length =>
      simp [Node.length, shape, Forest.leaves, Sign.stray]
  | pair key length missing opening child closing ih =>
      rw [isProper_pair] at h
      rcases h with ⟨hOpening, hClosing, hLength, _, hChild⟩
      have hInside :
          partLength child =
            ((partShape child).leaves.map
              Sign.length).sum := by
        cases child with
        | none => rfl
        | some node => exact ih node rfl (hChild node rfl)
      have hLast :
          partLength closing =
            ((closing.map sign).toList.map
              Sign.length).sum := by
        cases closing with
        | none => rfl
        | some node =>
            simp [partLength,
              length_sign_of_isBracket (hClosing node rfl)]
      rw [Node.length, shape_pair, Forest.leaves,
        List.map_cons, List.sum_cons, List.map_append,
        List.sum_append, List.map_append, List.sum_append,
        ← hInside, ← hLast,
        length_sign_of_isBracket hOpening, hLength]
      simp [Forest.leaves]
  | list key height length missing items ih =>
      have hItems := (allProper_iff.1 h.2.2.2)
      rw [Node.length, h.2.1, shape]
      clear h
      induction items with
      | nil => rfl
      | cons item rest ihRest =>
          rw [List.forall_mem_cons] at ih hItems
          rw [shapeOfAll, Forest.leaves_append,
            List.map_append, List.sum_append, List.map_cons,
            List.sum_cons, ih.1 hItems.1.2,
            ihRest ih.2 hItems.2]

/- A tree with the shape of tokens is as long as they are. -/
theorem length_eq_total
    {node : Node}
    {forest : Forest Token}
    (h : node.IsProper)
    (hShape : node.shape = forest.shape) :
    node.length = forest.total := by
  rw [length_eq_sum h, hShape, Forest.lengths_shape]
  rfl

theorem isProper_item
    {key : Option Nat}
    {height : Nat}
    {length : Length}
    {missing : IdSet}
    {items : List Node}
    (h :
      (Node.list key height length missing
        items).IsProper) :
    ∀ item ∈ items,
      item.height + 1 = height ∧ item.IsProper :=
  allProper_iff.1 h.2.2.2

theorem mem_allMissing
    {items : List Node}
    {id : Nat} :
    id ∈ (allMissing items).toList ↔
      ∃ item ∈ items, id ∈ item.missing.toList := by
  have hFold :
      ∀ (items : List Node) (set : IdSet),
        id ∈ (items.foldl
            (fun ids item => ids.union item.missing)
            set).toList ↔
          id ∈ set.toList ∨
            ∃ item ∈ items, id ∈ item.missing.toList := by
    intro items
    induction items with
    | nil => simp
    | cons item rest ih =>
        intro set
        rw [List.foldl_cons, ih, IdSet.mem_toList_union,
          List.exists_mem_cons_iff, or_assoc]
  rw [allMissing, hFold]
  simp [IdSet.toList_empty]

theorem intersects_allMissing
    {ids : IdSet}
    {items : List Node} :
    ids.intersects (allMissing items) = false ↔
      ∀ item ∈ items, ids.intersects item.missing = false
    := by
  simp only [IdSet.intersects_eq_false_iff, mem_allMissing]
  constructor
  · intro h item hItem key hKey hMissing
    exact h key hKey ⟨item, hItem, hMissing⟩
  · rintro h key hKey ⟨item, hItem, hMissing⟩
    exact h item hItem key hKey hMissing

/-
  The ids that a proper tree did not find are those of its
  stray brackets.
-/
theorem avoids_iff
    {ids : IdSet}
    {node : Node}
    {forest : Forest Token}
    (h : node.IsProper)
    (hShape : forest.shape = node.shape) :
    forest.Avoids ids ↔
      ids.intersects node.missing = false := by
  induction node using Node.induction
    generalizing forest with
  | text key length =>
      rcases Forest.exists_of_shape_eq_leaf hShape with
        ⟨t, rfl, _⟩
      simp [Forest.Avoids, missing]
  | bracket leaf =>
      rcases Forest.exists_of_shape_eq_leaf hShape with
        ⟨t, rfl, _⟩
      simp [Forest.Avoids, missing]
  | invalid key idsOf length =>
      rcases Forest.exists_of_shape_eq_stray hShape with
        ⟨t, rfl, hSign⟩
      have hIds : t.ids = idsOf := congrArg Sign.ids hSign
      simp [Forest.Avoids, missing, hIds]
  | pair key length missing opening child closing ih =>
      rw [isProper_pair] at h
      rw [shape_pair] at hShape
      rcases Forest.exists_of_shape_eq_pair hShape with
        ⟨o, inside, c, rfl, _, hInside, _⟩
      rw [Node.missing, h.2.2.2.1]
      cases child with
      | none =>
          rcases Forest.shape_eq_nil.1 hInside with rfl
          simp [Forest.Avoids, partMissing]
      | some node =>
          simpa [Forest.Avoids, partMissing] using
            ih node rfl (h.2.2.2.2 node rfl) hInside
  | list key height length missing items ih =>
      have hItems := isProper_item h
      rw [Node.missing, h.2.2.1, intersects_allMissing]
      rw [shape] at hShape
      clear h
      induction items generalizing forest with
      | nil =>
          rcases Forest.shape_eq_nil.1 hShape with rfl
          simp [Forest.Avoids]
      | cons item rest ihRest =>
          rw [List.forall_mem_cons] at ih hItems
          rcases Forest.exists_of_shape_append hShape with
            ⟨first, others, rfl, hFirst, hOthers⟩
          rw [Forest.avoids_append, List.forall_mem_cons]
          exact and_congr (ih.1 hItems.1.2 hFirst)
            (ihRest ih.2 hOthers hItems.2)

/- Every item shows a leaf. -/
theorem length_le_leaves
    (nodes : List Node) :
    (itemsOfAll nodes).length ≤
      (shapeOfAll nodes).leaves.length := by
  have hAll :
      ∀ nodes : List Node,
        (∀ node ∈ nodes,
          node.items.length ≤ node.shape.leaves.length) →
        (itemsOfAll nodes).length ≤
          (shapeOfAll nodes).leaves.length := by
    intro nodes hNodes
    induction nodes with
    | nil => simp [itemsOfAll]
    | cons first rest ih =>
        rw [List.forall_mem_cons] at hNodes
        have hRest := ih hNodes.2
        rw [itemsOfAll, shapeOfAll, Forest.leaves_append,
          List.length_append, List.length_append]
        omega
  refine hAll nodes fun node hNode => ?_
  clear hNode
  induction node using Node.induction with
  | text key length => simp [items, shape, Forest.leaves]
  | bracket leaf => simp [items, shape, Forest.leaves]
  | invalid key ids length =>
      simp [items, shape, Forest.leaves]
  | pair key length missing opening child closing _ =>
      simp [items, Forest.leaves]
  | list key height length missing nodes ih =>
      rw [items, shape]
      exact hAll nodes ih

end Node

end Bracketry

------------------------------------------------------------
-- Leaves
------------------------------------------------------------

namespace Bracketry

namespace Node

mutual

/- The leaves of a tree, from left to right. -/
def leaves : Node → List Node
  | .pair _ _ _ opening child closing =>
      opening ::
        ((match child with
          | some node => node.leaves
          | none => []) ++ closing.toList)
  | .list _ _ _ _ items => leavesOfAll items
  | node => [node]

/- The leaves of several trees. -/
def leavesOfAll : List Node → List Node
  | [] => []
  | node :: rest => node.leaves ++ leavesOfAll rest

end

theorem leavesOfAll_append
    (a b : List Node) :
    leavesOfAll (a ++ b) = leavesOfAll a ++ leavesOfAll b := by
  induction a with
  | nil => rfl
  | cons node rest ih =>
      rw [List.cons_append, leavesOfAll, leavesOfAll, ih,
        List.append_assoc]

/- The leaves of a proper tree are what its shape shows. -/
theorem lengths_leaves
    {node : Node}
    (h : node.IsProper) :
    node.leaves.map length =
      node.shape.leaves.map Sign.length := by
  induction node using Node.induction with
  | text key length => rfl
  | bracket leaf => rfl
  | invalid key ids length => rfl
  | pair key length missing opening child closing ih =>
      rcases isProper_pair.1 h with
        ⟨hOpening, hClosing, _, _, hChild⟩
      have hLast :
          closing.toList.map Node.length =
            (closing.map sign).toList.map Sign.length := by
        cases closing with
        | none => rfl
        | some node =>
            simp [length_sign_of_isBracket
              (hClosing node rfl)]
      have hFirst := length_sign_of_isBracket hOpening
      cases child with
      | none =>
          simp [leaves, Forest.leaves, partShape, hLast,
            hFirst]
      | some node =>
          simp [leaves, Forest.leaves, partShape, hLast,
            hFirst, ih node rfl (hChild node rfl)]
  | list key height length missing nodes ih =>
      have hNodes := isProper_item h
      rw [leaves, shape]
      clear h
      induction nodes with
      | nil => rfl
      | cons first rest ihRest =>
          rw [List.forall_mem_cons] at ih hNodes
          rw [leavesOfAll, shapeOfAll, Forest.leaves_append,
            List.map_append, List.map_append,
            ih.1 hNodes.1.2, ihRest ih.2 hNodes.2]

/- There is one for each token of a forest with its shape. -/
theorem length_leaves
    {node : Node}
    {forest : Forest Token}
    (hProper : node.IsProper)
    (hShape : forest.shape = node.shape) :
    forest.leaves.length = node.leaves.length := by
  have hLengths := congrArg List.length (lengths_leaves hProper)
  rw [← hShape, Forest.lengths_shape] at hLengths
  simpa using hLengths.symm

end Node

end Bracketry

------------------------------------------------------------
-- The Reuse Test
------------------------------------------------------------

namespace Bracketry

namespace Node

/- The last of some items is the last item of the last. -/
theorem lastOfAll_append
    (before : List Node)
    (last : Node) :
    lastOfAll (before ++ [last]) = last.lastItem := by
  induction before with
  | nil => rfl
  | cons first rest ih =>
      cases rest with
      | nil => simp [lastOfAll]
      | cons second others => exact ih

/-
  The last item of a proper tree is found, and its shape is
  the end of that of the tree.
-/
theorem exists_lastItem
    {node : Node}
    (h : node.IsProper) :
    ∃ last before,
      node.lastItem = .ok last ∧ last.isList = false ∧
        last.IsProper ∧
        node.shape = before ++ last.shape := by
  induction node using Node.induction with
  | text key length =>
      exact ⟨_, .nil, rfl, rfl, trivial, rfl⟩
  | bracket leaf =>
      exact ⟨_, .nil, rfl, rfl, trivial, rfl⟩
  | invalid key ids length =>
      exact ⟨_, .nil, rfl, rfl, trivial, rfl⟩
  | pair key length missing opening child closing _ =>
      exact ⟨_, .nil, by rw [lastItem]; simp, rfl, h, rfl⟩
  | list key height length missing nodes ih =>
      have hItems := isProper_item h
      rcases List.eq_nil_or_concat' nodes with
        rfl | ⟨before, last, rfl⟩
      · simp [IsProper] at h
      · have hLast : last ∈ before ++ [last] := by simp
        rcases ih last hLast (hItems last hLast).2 with
          ⟨item, front, hFound, hList, hProper, hShape⟩
        refine ⟨item, shapeOfAll before ++ front, ?_, hList,
          hProper, ?_⟩
        · rw [lastItem, lastOfAll_append, hFound]
        · rw [shape, shapeOfAll_append, shapeOfAll,
            shapeOfAll, hShape, Forest.append_nil,
            Forest.append_assoc]

/- The reuse test is not refused. -/
theorem exists_canBeReused
    {node : Node}
    (opened : IdSet)
    (h : node.IsProper) :
    ∃ answer, node.canBeReused opened = .ok answer := by
  unfold canBeReused
  split
  · split_ifs
    · exact ⟨_, rfl⟩
    · rcases exists_lastItem h with ⟨last, _, hLast, _⟩
      rw [hLast]
      exact ⟨_, rfl⟩
  · exact ⟨_, rfl⟩

/- What the test says of a node and its last item. -/
theorem lastItem_of_canBeReused
    {node : Node}
    {opened : IdSet}
    (h : node.canBeReused opened = .ok true) :
    opened.intersects node.missing = false ∧
      ∃ last,
        node.lastItem = .ok last ∧
          itemCanBeReused opened last = true := by
  cases node with
  | text key length => exact ⟨by simp [missing], _, rfl, rfl⟩
  | bracket leaf => cases h
  | invalid key ids length =>
      have hTest := Except.ok.inj h
      refine ⟨?_, _, rfl, hTest⟩
      simpa [itemCanBeReused, Node.missing] using hTest
  | pair key length missing opening child closing =>
      have hTest := Except.ok.inj h
      refine ⟨?_, _, by rw [lastItem]; simp, hTest⟩
      rw [itemCanBeReused, Bool.and_eq_true] at hTest
      simpa [Node.missing] using hTest.2
  | list key height length missing items =>
      simp only [canBeReused] at h
      split_ifs at h with hRefused
      · cases h
      rw [Bool.or_eq_true, not_or] at hRefused
      refine ⟨by simpa [Node.missing] using hRefused.1, ?_⟩
      cases hLast :
          lastItem (.list key height length missing items)
        with
      | error fault =>
          rw [hLast] at h
          cases h
      | ok last =>
          rw [hLast] at h
          exact ⟨last, rfl, Except.ok.inj h⟩

theorem isClosed_of_itemCanBeReused
    {last : Node}
    {opened : IdSet}
    (h : itemCanBeReused opened last = true) :
    last.shape.IsClosed ∧ last.shape ≠ .nil := by
  cases last with
  | text key length => exact ⟨trivial, by simp [shape]⟩
  | bracket leaf => cases h
  | invalid key ids length => exact ⟨trivial, by simp [shape]⟩
  | pair key length missing opening child closing =>
      rw [itemCanBeReused, Bool.and_eq_true] at h
      exact ⟨by simpa [Forest.IsClosed] using h.1, by simp⟩
  | list key height length missing items => cases h

/-
  A node that passes the test closes what it opens, and none
  of its stray brackets closes an open id.
-/
theorem isClosed_of_canBeReused
    {node : Node}
    {opened : IdSet}
    {forest : Forest Token}
    (h : node.IsProper)
    (hShape : forest.shape = node.shape)
    (hMatched : forest.IsMatched)
    (hTest : node.canBeReused opened = .ok true) :
    forest.IsClosed ∧ forest.Avoids opened := by
  rcases lastItem_of_canBeReused hTest with
    ⟨hMissing, last, hLast, hItem⟩
  refine ⟨?_, (avoids_iff h hShape).2 hMissing⟩
  rcases exists_lastItem h with
    ⟨found, before, hFound, _, _, hEnd⟩
  rw [hLast] at hFound
  rcases Except.ok.inj hFound with rfl
  rcases isClosed_of_itemCanBeReused hItem with ⟨hClosed, hSome⟩
  rcases Forest.exists_of_shape_append (hShape.trans hEnd) with
    ⟨front, back, rfl, _, hBack⟩
  rw [← hBack] at hClosed hSome
  rw [Forest.isClosed_append]
  refine ⟨?_, Forest.isClosed_shape.1 hClosed⟩
  apply Forest.isClosed_of_append hMatched
  rintro rfl
  exact hSome rfl

end Node

end Bracketry
