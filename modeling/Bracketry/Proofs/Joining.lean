import Bracketry.Proofs.Concat

/-
  Joining trees of any height.

  Nodes that are balanced, and whose lists sum up what they
  hold, are joined to one tree of that kind.  Its items are
  those of the nodes, in their order; its length and the ids
  it did not find are theirs; and it is as low as two items
  in every list make it.  There is no such tree of no nodes
  only, and one node is its own tree.

  A list without items counts as balanced wherever it
  stands, so a tree that holds some is higher than its items
  alone would make it.

  Key definitions include:
    * `Node.isSummed`
    * `Node.IsJoinOf`, `Node.JoinsTo`

  Main declarations:
    * `Node.joinsOrOverflows_concat`
-/

------------------------------------------------------------
-- Lists That Sum Up
------------------------------------------------------------

namespace Bracketry

namespace Node

mutual

/-
  The lists keep the length and the ids of their items, as
  lists do when they are made.  Pairs are not looked into.
-/
def isSummed : Node → Bool
  | .list _ _ length missing items =>
      length = (items.map Node.length).sum &&
        missing = allMissing items && allSummed items
  | _ => true

/- The lists of several trees sum up their items. -/
def allSummed : List Node → Bool
  | [] => true
  | item :: rest => item.isSummed && allSummed rest

end

/- What the items of a list satisfy makes up the list. -/
theorem allJoined_iff_of_forall
    (height : Nat)
    {nodes : List Node}
    (h :
      ∀ node ∈ nodes,
        node.IsJoined ∧
            (∀ unit ∈ node.units, unit.isBalanced) ↔
          node.isBalanced ∧ node.isSummed) :
    AllJoined height nodes ∧
        (∀ unit ∈ unitsOfAll nodes, unit.isBalanced) ↔
      allBalanced height nodes ∧ allSummed nodes := by
  induction nodes with
  | nil =>
      simp [AllJoined, unitsOfAll, allBalanced, allSummed]
  | cons first rest ih =>
      rw [List.forall_mem_cons] at h
      have hRest := ih h.2
      simp only [AllJoined, unitsOfAll, allBalanced,
        allSummed, List.forall_mem_append,
        Bool.and_eq_true, decide_eq_true_eq]
      constructor
      · rintro ⟨⟨hHeight, hJoined, hRestJoined⟩,
          hUnits, hRestUnits⟩
        rcases h.1.1 ⟨hJoined, hUnits⟩ with ⟨hBalanced, hSummed⟩
        rcases hRest.1 ⟨hRestJoined, hRestUnits⟩ with
          ⟨hRestBalanced, hRestSummed⟩
        exact ⟨⟨⟨hHeight, hBalanced⟩, hRestBalanced⟩,
          hSummed, hRestSummed⟩
      · rintro ⟨⟨⟨hHeight, hBalanced⟩, hRestBalanced⟩,
          hSummed, hRestSummed⟩
        rcases h.1.2 ⟨hBalanced, hSummed⟩ with ⟨hJoined, hUnits⟩
        rcases hRest.2 ⟨hRestBalanced, hRestSummed⟩ with
          ⟨hRestJoined, hRestUnits⟩
        exact ⟨⟨hHeight, hJoined, hRestJoined⟩,
          hUnits, hRestUnits⟩

/-
  A balanced tree of lists that sum up is joined of balanced
  units, and the other way round.
-/
theorem isJoined_iff
    {node : Node} :
    node.IsJoined ∧ (∀ unit ∈ node.units, unit.isBalanced) ↔
      node.isBalanced ∧ node.isSummed := by
  induction node using Node.induction with
  | text key length => simp [IsJoined, units, isSummed]
  | bracket leaf => simp [IsJoined, units, isSummed]
  | invalid key ids length =>
      simp [IsJoined, units, isSummed]
  | pair key length missing opening child closing _ =>
      simp [IsJoined, units, isSummed]
  | list key height length missing nodes ih =>
      by_cases hSome : nodes = []
      · subst hSome
        simp only [IsJoined, AllJoined, units, isBalanced,
          isSummed, allSummed, List.forall_mem_singleton,
          List.isEmpty_nil, if_true, decide_eq_true_eq,
          Bool.and_eq_true]
        tauto
      · have hItems := allJoined_iff_of_forall height ih
        have hEmpty : nodes.isEmpty = false := by
          simpa using hSome
        rw [IsJoined, units_list hSome, isBalanced, isSummed,
          hEmpty]
        simp only [Bool.and_eq_true, Bool.or_eq_true,
          decide_eq_true_eq, Bool.false_eq_true, if_false]
        tauto

end Node

end Bracketry

------------------------------------------------------------
-- Joined Trees
------------------------------------------------------------

namespace Bracketry

namespace Node

/- The tree that nodes are joined to. -/
structure IsJoinOf
    (nodes : List Node)
    (root : Node) :
    Prop where
  balanced : root.isBalanced
  summed : root.isSummed
  items_eq : root.items = itemsOfAll nodes
  length_eq : root.length = (nodes.map length).sum
  mem_missing :
    ∀ id,
      id ∈ root.missing.toList ↔
        ∃ node ∈ nodes, id ∈ node.missing.toList
  two_pow_le_units :
    2 ^ root.height ≤ (unitsOfAll nodes).length
  two_pow_le_items :
    (∀ unit ∈ unitsOfAll nodes, unit.isEmptyList = false) →
      2 ^ root.height ≤ root.items.length

/-
  No nodes make no tree, one node is its own tree, and all
  others have one.
-/
inductive JoinsTo
    (nodes : List Node) :
    Checked (Option Node) → Prop where
  | nothing :
      nodes = [] → JoinsTo nodes (.ok none)
  | root (root : Node) :
      nodes ≠ [] →
        (∀ node, nodes = [node] → root = node) →
        IsJoinOf nodes root →
        JoinsTo nodes (.ok (some root))

/- A joined tree of the units of balanced nodes. -/
theorem IsTreeWith.isJoinOf
    {nodes : List Node}
    {root : Node}
    (hBalanced : ∀ node ∈ nodes, node.isBalanced)
    (hSummed : ∀ node ∈ nodes, node.isSummed)
    (h : IsTreeWith (unitsOfAll nodes) root) :
    IsJoinOf nodes root := by
  rcases h with ⟨hJoined, hUnits⟩
  have hNodes :
      ∀ node ∈ nodes,
        node.IsJoined ∧
          ∀ unit ∈ node.units, unit.isBalanced :=
    fun node hNode =>
      isJoined_iff.2 ⟨hBalanced node hNode,
        hSummed node hNode⟩
  have hUnitsBalanced :
      ∀ unit ∈ root.units, unit.isBalanced := by
    intro unit hUnit
    rw [hUnits] at hUnit
    rcases mem_unitsOfAll.1 hUnit with ⟨node, hNode, hUnit⟩
    exact (hNodes node hNode).2 unit hUnit
  rcases isJoined_iff.1 ⟨hJoined, hUnitsBalanced⟩ with
    ⟨hRootBalanced, hRootSummed⟩
  have hLow := two_pow_height_le_units hJoined
  rw [hUnits] at hLow
  refine ⟨hRootBalanced, hRootSummed, ?_, ?_, ?_, hLow,
    fun hNone => ?_⟩
  · rw [items_eq_filter, hUnits, itemsOfAll_eq_filter]
  · rw [length_eq_sum_units hJoined, hUnits]
    exact (sum_lengths fun node hNode =>
      (hNodes node hNode).1).symm
  · intro id
    rw [mem_missing_iff_units hJoined, hUnits]
    constructor
    · rintro ⟨unit, hUnit, hId⟩
      rcases mem_unitsOfAll.1 hUnit with ⟨node, hNode, hUnit⟩
      exact ⟨node, hNode,
        (mem_missing_iff_units (hNodes node hNode).1).2
          ⟨unit, hUnit, hId⟩⟩
    · rintro ⟨node, hNode, hId⟩
      rcases (mem_missing_iff_units (hNodes node hNode).1).1
          hId with
        ⟨unit, hUnit, hId⟩
      exact ⟨unit, mem_unitsOfAll.2 ⟨node, hNode, hUnit⟩,
        hId⟩
  · have hAll : root.items = unitsOfAll nodes := by
      rw [items_eq_filter, hUnits, List.filter_eq_self]
      intro unit hUnit
      rw [hNone unit hUnit]
      rfl
    rwa [hAll]

end Node

end Bracketry

------------------------------------------------------------
-- Trees of Any Height and of One
------------------------------------------------------------

namespace Bracketry

namespace Node

theorem concatEven_singleton
    (node : Node) :
    concatEven [node] = .ok (some node) :=
  rfl

theorem concatAll_singleton
    (node : Node) :
    concatAll [node] = .ok (some node) :=
  rfl

/-
  The nodes are joined, or refused as too long where some
  stretch of what they hold does not fit.
-/
def JoinsOrOverflows
    (nodes : List Node)
    (result : Checked (Option Node)) :
    Prop :=
  JoinsTo nodes result ∨
    result = .error .overflow ∧ ¬ AllFit (unitsOfAll nodes)

/- The fault of nodes that do not fit together. -/
def IsTooLong
    (nodes : List Node)
    (fault : Fault) :
    Prop :=
  fault = .overflow ∧ ¬ AllFit (unitsOfAll nodes)

theorem mayJoin_isTooLong
    (nodes : List Node) :
    MayJoin (IsTooLong nodes) (unitsOfAll nodes) :=
  (em (AllFit (unitsOfAll nodes))).imp_right
    fun hNot => ⟨rfl, hNot⟩

/- What makes a joined tree of nodes joins them. -/
theorem joinsOrOverflows_of_ends
    {nodes : List Node}
    {result : Checked (Option Node)}
    (hSome : nodes ≠ [])
    (hBalanced : ∀ node ∈ nodes, node.isBalanced)
    (hSummed : ∀ node ∈ nodes, node.isSummed)
    (hOne :
      ∀ node, nodes = [node] → result = .ok (some node))
    (h :
      Checked.Ends (IsTooLong nodes)
        (fun tree =>
          ∃ root,
            tree = some root ∧
              IsTreeWith (unitsOfAll nodes) root)
        result) :
    JoinsOrOverflows nodes result := by
  cases hResult : result with
  | error fault =>
      rcases h.of_error hResult with ⟨rfl, hNot⟩
      exact .inr ⟨rfl, hNot⟩
  | ok tree =>
      rcases h.of_ok hResult with ⟨root, rfl, hRoot⟩
      refine .inl (.root root hSome (fun node hNode => ?_)
        (hRoot.isJoinOf hBalanced hSummed))
      rw [hOne node hNode] at hResult
      exact (Option.some.inj (Except.ok.inj hResult)).symm

/-
  Balanced nodes whose lists sum up are joined, as long as
  every stretch of what they hold has a length that fits.
  Nodes of one height may also be raised level by level.
-/
theorem joinsOrOverflows_concat
    {nodes : List Node}
    (hBalanced : ∀ node ∈ nodes, node.isBalanced)
    (hSummed : ∀ node ∈ nodes, node.isSummed) :
    JoinsOrOverflows nodes (concatAll nodes) ∧
      ((∀ first ∈ nodes, ∀ second ∈ nodes,
          first.height = second.height) →
        JoinsOrOverflows nodes (concatEven nodes)) := by
  have hJoined : ∀ node ∈ nodes, node.IsJoined :=
    fun node hNode =>
      (isJoined_iff.2 ⟨hBalanced node hNode,
        hSummed node hNode⟩).1
  rcases List.eq_nil_or_concat nodes with
    rfl | ⟨others, last, hLast⟩
  · exact ⟨.inl (.nothing rfl), fun _ => .inl (.nothing rfl)⟩
  have hSome : nodes ≠ [] := by
    rw [hLast]
    simp
  have hFit := mayJoin_isTooLong nodes
  constructor
  · refine joinsOrOverflows_of_ends hSome hBalanced hSummed
      ?_ (ends_concatAll hSome hJoined hFit)
    rintro node rfl
    exact concatAll_singleton node
  · intro hEven
    have hHeight :
        ∀ node ∈ nodes,
          node.height = last.height ∧ node.IsJoined :=
      fun node hNode =>
        ⟨hEven node hNode last (by simp [hLast]),
          hJoined node hNode⟩
    refine joinsOrOverflows_of_ends hSome hBalanced hSummed
      ?_ (ends_concatEven hSome hHeight hFit)
    rintro node rfl
    exact concatEven_singleton node

/-
  A closing bracket, a list of height two and a text become
  one list of height two, and lists of one height a higher
  one.
-/
theorem joinsOrOverflows_concat_texts :
    let text := textOf ⟨0, 1⟩
    let stray := invalidOf (IdSet.single 3) ⟨0, 1⟩
    let low : Node :=
      .list none 1 ⟨0, 2⟩ IdSet.empty [text, text]
    let high : Node :=
      .list none 2 ⟨0, 4⟩ IdSet.empty [low, low]
    let mixed := [stray, high, text]
    let even := [low, low]
    let first : Node :=
      .list none 1 ⟨0, 3⟩ (IdSet.single 3)
        [stray, text, text]
    let second : Node :=
      .list none 1 ⟨0, 3⟩ IdSet.empty [text, text, text]
    (∀ node ∈ mixed, node.isBalanced) ∧
      (∀ node ∈ mixed, node.isSummed) ∧
      JoinsOrOverflows mixed (concatAll mixed) ∧
      concatAll mixed =
        .ok (some (.list none 2 ⟨0, 6⟩ (IdSet.single 3)
          [first, second])) ∧
      (∀ first ∈ even, ∀ second ∈ even,
        first.height = second.height) ∧
      JoinsOrOverflows even (concatEven even) ∧
      concatEven even = .ok (some high) := by
  intro text stray low high mixed even first second
  have hBalanced : ∀ node ∈ mixed, node.isBalanced := by
    decide
  have hSummed : ∀ node ∈ mixed, node.isSummed := by
    decide
  have hEven :
      ∀ first ∈ even, ∀ second ∈ even,
        first.height = second.height := by
    decide
  exact ⟨hBalanced, hSummed,
    (joinsOrOverflows_concat hBalanced hSummed).1, by cbv,
    hEven,
    (joinsOrOverflows_concat (by decide) (by decide)).2
      hEven,
    by cbv⟩

/-
  Lists without items inside others make a tree higher than
  its items do.  Three texts may be short together while the
  first two are too long.
-/
theorem concat_of_hollow_and_wide :
    let hollow : Node :=
      .list none 1 ⟨0, 1⟩ IdSet.empty
        [textOf ⟨0, 1⟩, emptyList]
    let hollows := [hollow, hollow]
    let wide :=
      [textOf ⟨0, maxCount⟩, textOf ⟨0, 1⟩, textOf ⟨1, 0⟩]
    (∀ node ∈ hollows,
        node.isBalanced ∧ node.isSummed ∧
          node.isEmptyList = false) ∧
      (∃ root,
        concatAll hollows = .ok (some root) ∧
          root.items.length < 2 ^ root.height) ∧
      (∀ node ∈ wide,
        node.isBalanced ∧ node.isSummed ∧
          node.isEmptyList = false) ∧
      (wide.map length).sum = ⟨1, 0⟩ ∧
      concatAll wide = .error .overflow ∧
      concatEven wide = .error .overflow := by
  intro hollow hollows wide
  refine ⟨by decide, ⟨_, rfl, ?_⟩, by decide, rfl, rfl, rfl⟩
  decide

end Node

end Bracketry
