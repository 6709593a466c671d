import Bracketry.Proofs.Contracts
import Bracketry.Proofs.Weaving
import Bracketry.Query.Brackets
import Bracketry.Query.Nearest
import Bracketry.Query.Pairs

/-
  Walks through a tree only overflow.

  A walk adds up the lengths of the nodes in front of a
  place.  Where the tree is proper, each pair is opened by a
  bracket, so a sum that is too large is the only fault that
  a walk can end with.

  Main declarations:
    * `Node.indentationAt_onlyOverflows`
    * `Node.lastBefore_onlyOverflows`
    * `Node.firstAfter_onlyOverflows`
    * `Node.walkPairs_onlyOverflows`
    * `Node.visitBrackets_onlyOverflows`
-/

------------------------------------------------------------
-- Sums of a Walk
------------------------------------------------------------

namespace Bracketry

open Checked

namespace Checked

theorem checkedSum_onlyOverflows
    (a b : Nat) :
    OnlyOverflows (checkedSum a b) := by
  unfold checkedSum
  split
  · exact .ok _
  · rintro fault ⟨⟩
    rfl

end Checked

open Length (plus_onlyOverflows)

theorem visibleFrom_onlyOverflows
    (tabSize column : Nat)
    (line : List Char) :
    OnlyOverflows (visibleFrom tabSize column line) := by
  induction line generalizing column with
  | nil => exact .ok _
  | cons c rest ih =>
      unfold visibleFrom
      split_ifs
      · exact .bind (checkedSum_onlyOverflows _ _) ih
      · exact .bind (checkedSum_onlyOverflows _ _) ih
      · exact .ok _

namespace Node

theorem linesIndentation_onlyOverflows
    (tabSize : Nat)
    (lines : List Line) :
    OnlyOverflows (linesIndentation tabSize lines) := by
  induction lines with
  | nil => exact .ok _
  | cons line rest ih =>
      exact .bind (visibleFrom_onlyOverflows _ _ _)
        fun column => .bind ih fun _ => .ok _

theorem textIndentation_onlyOverflows
    (content : Content)
    (offset : Position)
    (length : Length) :
    OnlyOverflows (textIndentation content offset length) := by
  unfold textIndentation
  dsimp only
  split_ifs
  · exact .bind (.ok _) fun first =>
      .bind (plus_onlyOverflows _ _) fun stop =>
        linesIndentation_onlyOverflows _ _
  · exact .bind (checkedSum_onlyOverflows _ _) fun first =>
      .bind (plus_onlyOverflows _ _) fun stop =>
        linesIndentation_onlyOverflows _ _

/- The indentation of each node, and of nodes in a row. -/
theorem indentationAt_onlyOverflows
    (content : Content)
    (node : Node)
    (offset : Position)
    (depth : Nat)
    (cache : IndentationCache) :
    OnlyOverflows
      (indentationAt content offset depth cache node) := by
  induction node using Node.induction generalizing offset
    depth cache with
  | text key length =>
      exact .bind (textIndentation_onlyOverflows _ _ _)
        fun _ => .ok _
  | bracket leaf => exact .ok _
  | invalid key ids length => exact .ok _
  | pair key length missing opening child closing ih =>
      unfold indentationAt
      split_ifs
      · exact .ok _
      · cases child with
        | none => exact .ok _
        | some node =>
            exact .bind (plus_onlyOverflows _ _)
              fun start => ih node rfl _ _ _
  | list key height length missing items ih =>
      have hItems :
          OnlyOverflows
            (indentationOfAll content offset depth cache
              items) := by
        induction items generalizing offset cache with
        | nil => exact .ok _
        | cons first rest ihRest =>
            rw [List.forall_mem_cons] at ih
            exact .bind (ih.1 _ _ _) fun found =>
              .bind (plus_onlyOverflows _ _) fun next =>
                .bind (ihRest ih.2 _ _) fun _ => .ok _
      unfold indentationAt
      split
      · exact .ok _
      · refine .bind hItems fun found => ?_
        dsimp only
        split_ifs
        · exact .ok _
        · exact .ok _

end Node

end Bracketry

------------------------------------------------------------
-- Walks for Brackets
------------------------------------------------------------

namespace Bracketry

open Checked
open Length (plus_onlyOverflows)

namespace Node

/- A pair of a tree has brackets, and a tree between them. -/
theorem isRoot_pair
    {key : Option Nat}
    {length : Length}
    {missing : IdSet}
    {opening : Node}
    {child closing : Option Node}
    (h :
      (Node.pair key length missing opening child
        closing).IsRoot) :
    opening.IsBracket ∧
      (∀ node, closing = some node → node.IsBracket) ∧
      ∀ node, child = some node → node.IsRoot := by
  rcases h with hProper | ⟨_, ⟨⟩⟩
  rcases isProper_pair.1 hProper with
    ⟨hOpening, hClosing, _, _, hChild⟩
  exact ⟨hOpening, hClosing,
    fun node hNode => .inl (hChild node hNode)⟩

theorem isRoot_item
    {key : Option Nat}
    {height : Nat}
    {length : Length}
    {missing : IdSet}
    {items : List Node}
    (h :
      (Node.list key height length missing items).IsRoot) :
    ∀ item ∈ items, item.IsRoot :=
  fun _ hItem => .inl (h.isProper_child hItem)

theorem lastBefore_onlyOverflows
    {node : Node}
    (h : node.IsRoot)
    (position start stop : Position)
    (depth : Nat) :
    OnlyOverflows
      (lastBefore? position start stop depth node) := by
  induction node using Node.induction generalizing start stop
    depth with
  | text key length => exact .ok _
  | bracket leaf => exact .ok _
  | invalid key ids length => exact .ok _
  | pair key length missing opening child closing ih =>
      rcases isRoot_pair h with ⟨hOpening, hClosing, hChild⟩
      have hBracket :
          ∀ {node : Node}, node.IsBracket →
            ∀ start stop depth,
              OnlyOverflows
                (lastBefore? position start stop depth
                  node) := by
        rintro _ ⟨leaf, rfl⟩ start stop depth
        exact .ok _
      have hInside := fun node h => ih node h (hChild node h)
      unfold lastBefore?
      -- A step is a sum or a walk into one of the parts.
      repeat' first
        | with_reducible exact plus_onlyOverflows _ _
        | with_reducible exact hBracket hOpening _ _ _
        | with_reducible exact hBracket (hClosing _ rfl) _ _ _
        | with_reducible exact hInside _ rfl _ _ _
        | refine .bind ?_ fun _ => ?_
        | dsimp only
        | split
        | exact .ok _
  | list key height length missing items ih =>
      have hItems := isRoot_item h
      have hAll :
          OnlyOverflows
            (lastOfAllBefore? position start depth items) := by
        clear h
        induction items generalizing start with
        | nil => exact .ok _
        | cons first rest ihRest =>
            rw [List.forall_mem_cons] at ih hItems
            refine .bind (plus_onlyOverflows _ _)
              fun stop => .bind (ihRest ih.2 _ hItems.2)
                fun found => ?_
            split
            · exact .ok _
            · split_ifs
              · exact ih.1 hItems.1 _ _ _
              · exact .ok _
      unfold lastBefore?
      split_ifs
      · exact .ok _
      · exact hAll

theorem firstAfter_onlyOverflows
    {node : Node}
    (h : node.IsRoot)
    (position start stop : Position)
    (depth : Nat) :
    OnlyOverflows
      (firstAfter? position start stop depth node) := by
  induction node using Node.induction generalizing start stop
    depth with
  | text key length => exact .ok _
  | bracket leaf => exact .ok _
  | invalid key ids length => exact .ok _
  | pair key length missing opening child closing ih =>
      rcases isRoot_pair h with ⟨hOpening, hClosing, hChild⟩
      have hBracket :
          ∀ {node : Node}, node.IsBracket →
            ∀ start stop depth,
              OnlyOverflows
                (firstAfter? position start stop depth
                  node) := by
        rintro _ ⟨leaf, rfl⟩ start stop depth
        exact .ok _
      have hInside := fun node h => ih node h (hChild node h)
      unfold firstAfter?
      -- A step is a sum or a walk into one of the parts.
      repeat' first
        | with_reducible exact plus_onlyOverflows _ _
        | with_reducible exact hBracket hOpening _ _ _
        | with_reducible exact hBracket (hClosing _ rfl) _ _ _
        | with_reducible exact hInside _ rfl _ _ _
        | refine .bind ?_ fun _ => ?_
        | dsimp only
        | split
        | exact .ok _
  | list key height length missing items ih =>
      have hItems := isRoot_item h
      have hAll :
          OnlyOverflows
            (firstOfAllAfter? position start depth items) := by
        clear h
        induction items generalizing start with
        | nil => exact .ok _
        | cons first rest ihRest =>
            rw [List.forall_mem_cons] at ih hItems
            have hFirst := fun stop =>
              ih.1 hItems.1 start stop depth
            have hRest := fun stop =>
              ihRest ih.2 stop hItems.2
            refine .bind (plus_onlyOverflows _ _)
              fun stop => ?_
            dsimp only
            split_ifs
            · refine .bind (hFirst stop) fun found => ?_
              split
              · exact .ok _
              · exact hRest stop
            · exact hRest stop
      unfold firstAfter?
      split_ifs
      · exact .ok _
      · exact hAll

theorem insideIndentation_onlyOverflows
    (content : Option Content)
    (start : Position)
    (cache : IndentationCache)
    (pair : Node) :
    OnlyOverflows
      (insideIndentation content start cache pair) := by
  cases content with
  | none => exact .ok _
  | some content =>
      exact .bind
        (.bind (indentationAt_onlyOverflows _ _ _ _ _)
          fun _ => .ok _) fun _ => .ok _

theorem andThen_onlyOverflows
    {σ : Type}
    {next : σ → Checked (Flow σ)}
    (flow : Flow σ)
    (h : ∀ state, OnlyOverflows (next state)) :
    OnlyOverflows (flow.andThen next) := by
  unfold Flow.andThen
  split
  · exact h _
  · exact .ok _

theorem walkPairs_onlyOverflows
    {σ : Type}
    {node : Node}
    (h : node.IsRoot)
    (query : PairQuery)
    (visit : Visitor PairInfo σ)
    (start stop : Position)
    (around : List (List Char))
    (walk : PairWalk σ) :
    OnlyOverflows
      (walkPairs query visit start stop around walk node) := by
  induction node using Node.induction generalizing start stop
    around walk with
  | text key length => exact .ok _
  | bracket leaf => exact .ok _
  | invalid key ids length => exact .ok _
  | pair key length missing opening child closing ih =>
      rcases isRoot_pair h with ⟨⟨leaf, rfl⟩, _, hChild⟩
      have hInside := fun node h => ih node h (hChild node h)
      unfold walkPairs
      -- The opening bracket is one, and the rest are sums.
      repeat' first
        | with_reducible exact plus_onlyOverflows _ _
        | with_reducible exact
            insideIndentation_onlyOverflows _ _ _ _
        | with_reducible exact hInside _ rfl _ _ _ _
        | refine .bind ?_ fun _ => ?_
        | refine andThen_onlyOverflows _ fun _ => ?_
        | dsimp only
        | split
        | exact .ok _
  | list key height length missing items ih =>
      have hItems := isRoot_item h
      have hAll :
          OnlyOverflows
            (walkPairItems query visit start around walk
              items) := by
        clear h
        induction items generalizing start walk with
        | nil => exact .ok _
        | cons first rest ihRest =>
            rw [List.forall_mem_cons] at ih hItems
            have hFirst := ih.1 hItems.1
            have hRest := fun stop walk =>
              ihRest ih.2 stop walk hItems.2
            refine .bind (plus_onlyOverflows _ _)
              fun stop => ?_
            dsimp only
            split_ifs
            · exact .bind (hFirst _ _ _ _) fun flow =>
                andThen_onlyOverflows flow (hRest _)
            · exact .bind (.ok _) fun flow =>
                andThen_onlyOverflows flow (hRest _)
      unfold walkPairs
      split_ifs
      · exact .ok _
      · exact hAll

variable {σ : Type}

theorem into_onlyOverflows
    {go : Checked (Flow (BracketWalk σ))}
    (query : BracketQuery)
    (start stop : Position)
    (counts : Bool)
    (part : Node)
    (walk : BracketWalk σ)
    (h : OnlyOverflows go) :
    OnlyOverflows
      (query.into start stop counts part walk go) := by
  unfold BracketQuery.into
  split_ifs
  · exact h
  · exact .ok _

theorem walkPart_onlyOverflows
    {query : BracketQuery}
    {visit : Visitor BracketInfo σ}
    {part : Option Node}
    (start : Position)
    (place : BracketPlace)
    (counts : Bool)
    (walk : BracketWalk σ)
    (h :
      ∀ node, part = some node →
        ∀ start stop place walk,
          OnlyOverflows
            (walkBrackets query visit start stop place walk
              node)) :
    OnlyOverflows
      (walkPart query visit start place counts walk
        part) := by
  cases part with
  | none => exact .ok _
  | some node =>
      rw [walkPart]
      exact .bind (plus_onlyOverflows _ _) fun stop =>
        .bind (into_onlyOverflows _ _ _ _ _ _ (h node rfl _ _ _
          _)) fun flow => .ok _

theorem walkBrackets_onlyOverflows
    {node : Node}
    (h : node.IsRoot)
    (query : BracketQuery)
    (visit : Visitor BracketInfo σ)
    (start stop : Position)
    (place : BracketPlace)
    (walk : BracketWalk σ) :
    OnlyOverflows
      (walkBrackets query visit start stop place walk
        node) := by
  have hBracket :
      ∀ {node : Node}, node.IsBracket →
        ∀ start stop place walk,
          OnlyOverflows
            (walkBrackets query visit start stop place walk
              node) := by
    rintro _ ⟨leaf, rfl⟩ start stop place walk
    rw [walkBrackets]
    split_ifs
    · exact .ok _
    · exact .ok _
  induction node using Node.induction generalizing start stop
    place walk with
  | text key length => exact .ok _
  | bracket leaf => exact hBracket ⟨leaf, rfl⟩ _ _ _ _
  | invalid key ids length =>
      rw [walkBrackets]
      split_ifs
      · exact .ok _
      · exact .ok _
  | pair key length missing opening child closing ih =>
      rcases isRoot_pair h with
        ⟨⟨opener, rfl⟩, hClosing, hChild⟩
      have hInside := fun node hNode =>
        ih node hNode (hChild node hNode)
      have hLast := fun node hNode =>
        hBracket (hClosing node hNode)
      rw [walkBrackets]
      split_ifs
      · exact .ok _
      refine .bind (.ok opener) fun opener =>
        .bind (plus_onlyOverflows _ _) fun middle =>
          .bind (into_onlyOverflows _ _ _ _ _ _
            (hBracket ⟨_, rfl⟩ _ _ _ _)) fun flow =>
              andThen_onlyOverflows flow fun walk =>
                .bind (walkPart_onlyOverflows _ _ _ _ hInside)
                  fun inside => ?_
      dsimp only
      split_ifs
      · exact .ok _
      exact andThen_onlyOverflows _ fun walk =>
        .bind (walkPart_onlyOverflows _ _ _ _ hLast)
          fun last => andThen_onlyOverflows _ fun _ => .ok _
  | list key height length missing items ih =>
      have hItems := isRoot_item h
      have hAll :
          OnlyOverflows
            (walkItems query visit start place walk
              items) := by
        clear h
        induction items generalizing start walk with
        | nil => exact .ok _
        | cons first rest ihRest =>
            rw [List.forall_mem_cons] at ih hItems
            have hFirst := ih.1 hItems.1
            have hRest := fun stop walk =>
              ihRest ih.2 stop walk hItems.2
            refine .bind (plus_onlyOverflows _ _)
              fun stop => ?_
            dsimp only
            split_ifs
            · exact hFirst _ _ _ _
            · exact .bind (hFirst _ _ _ _) fun flow =>
                andThen_onlyOverflows flow (hRest _)
            · exact hRest _ _
      rw [walkBrackets]
      split_ifs
      · exact .ok _
      · exact hAll

theorem visitBrackets_onlyOverflows
    {root : Node}
    (h : root.IsRoot)
    (query : BracketQuery)
    (visit : Visitor BracketInfo σ)
    (state : σ) :
    OnlyOverflows (root.visitBrackets query visit state) :=
  .bind (walkBrackets_onlyOverflows h _ _ _ _ _ _)
    fun _ => .ok _

end Node

end Bracketry
