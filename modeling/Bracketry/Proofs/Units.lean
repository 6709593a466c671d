import Bracketry.Proofs.Shape

/-
  What the lists of a tree hold.

  Joining trees rebuilds lists and leaves all else as it is.
  The units of a tree are what its lists hold together, from
  left to right: leaves, pairs and lists without items.  The
  lists of a tree are joined when each that has items has
  two or three of the height below, and keeps the length and
  the ids of its items.  Then the tree sums up its units,
  and its height is at most the logarithm of their number.

  Key definitions include:
    * `Node.units`, `Node.unitsOfAll`
    * `Node.IsJoined`

  Main declarations:
    * `Node.items_eq_filter`
    * `Node.isProper_iff_units`
    * `Node.length_eq_sum_units`
    * `Node.mem_missing_iff_units`
    * `Node.two_pow_height_le_units`
-/

------------------------------------------------------------
-- Units
------------------------------------------------------------

namespace Bracketry

namespace Node

mutual

/- What the lists hold; a list without items is a unit. -/
def units : Node → List Node
  | .list key height length missing [] =>
      [.list key height length missing []]
  | .list _ _ _ _ (first :: rest) =>
      first.units ++ unitsOfAll rest
  | node => [node]

/- The units of several trees. -/
def unitsOfAll : List Node → List Node
  | [] => []
  | node :: rest => node.units ++ unitsOfAll rest

end

theorem units_list
    {key : Option Nat}
    {height : Nat}
    {length : Length}
    {missing : IdSet}
    {items : List Node}
    (h : items ≠ []) :
    (Node.list key height length missing items).units =
      unitsOfAll items := by
  cases items with
  | nil => exact absurd rfl h
  | cons first rest => rw [units, unitsOfAll]

@[simp] theorem unitsOfAll_append
    (a b : List Node) :
    unitsOfAll (a ++ b) = unitsOfAll a ++ unitsOfAll b := by
  induction a with
  | nil => rfl
  | cons node rest ih => simp [unitsOfAll, ih]

theorem mem_unitsOfAll
    {nodes : List Node}
    {unit : Node} :
    unit ∈ unitsOfAll nodes ↔
      ∃ node ∈ nodes, unit ∈ node.units := by
  induction nodes with
  | nil => simp [unitsOfAll]
  | cons first rest ih =>
      rw [unitsOfAll, List.mem_append, ih,
        List.exists_mem_cons_iff]

/- The items are the units that are no lists. -/
theorem items_eq_filter
    (node : Node) :
    node.items =
      node.units.filter fun unit => !unit.isEmptyList := by
  induction node using Node.induction with
  | text key length => rfl
  | bracket leaf => rfl
  | invalid key ids length => rfl
  | pair key length missing opening child closing _ => rfl
  | list key height length missing nodes ih =>
      by_cases hSome : nodes = []
      · subst hSome
        rfl
      · rw [items, units_list hSome]
        clear hSome
        induction nodes with
        | nil => rfl
        | cons first rest ihRest =>
            rw [List.forall_mem_cons] at ih
            rw [itemsOfAll, unitsOfAll, List.filter_append,
              ih.1, ihRest ih.2]

theorem itemsOfAll_eq_filter
    (nodes : List Node) :
    itemsOfAll nodes =
      (unitsOfAll nodes).filter fun unit =>
        !unit.isEmptyList := by
  induction nodes with
  | nil => rfl
  | cons first rest ih =>
      rw [itemsOfAll, unitsOfAll, List.filter_append,
        items_eq_filter, ih]

end Node

end Bracketry

------------------------------------------------------------
-- Joined Lists
------------------------------------------------------------

namespace Bracketry

namespace Node

mutual

/-
  A list that has items has two or three of them, of the
  height below; its length and ids are those of its items.
  Of what lies inside pairs nothing is said.
-/
def IsJoined : Node → Prop
  | .list _ height length missing items =>
      (items = [] → height = 0) ∧
        (items ≠ [] → items.length = 2 ∨ items.length = 3) ∧
        length = (items.map Node.length).sum ∧
        missing = allMissing items ∧
        AllJoined height items
  | _ => True

/- The items are joined, and of the height below. -/
def AllJoined
    (height : Nat) :
    List Node → Prop
  | [] => True
  | item :: rest =>
      item.height + 1 = height ∧ item.IsJoined ∧
        AllJoined height rest

end

theorem allJoined_iff
    {height : Nat}
    {items : List Node} :
    AllJoined height items ↔
      ∀ item ∈ items,
        item.height + 1 = height ∧ item.IsJoined := by
  induction items with
  | nil => simp [AllJoined]
  | cons item rest ih =>
      rw [List.forall_mem_cons, AllJoined, ih, and_assoc]

/- A list above the leaves has two or three items. -/
theorem IsJoined.length_items
    {key : Option Nat}
    {height : Nat}
    {length : Length}
    {missing : IdSet}
    {items : List Node}
    (h :
      (Node.list key height length missing items).IsJoined)
    (hHeight : 0 < height) :
    items.length = 2 ∨ items.length = 3 := by
  apply h.2.1
  rintro rfl
  have := h.1 rfl
  omega

theorem IsJoined.item
    {key : Option Nat}
    {height : Nat}
    {length : Length}
    {missing : IdSet}
    {items : List Node}
    (h :
      (Node.list key height length missing
        items).IsJoined) :
    ∀ item ∈ items,
      item.height + 1 = height ∧ item.IsJoined :=
  allJoined_iff.1 h.2.2.2.2

/- A tree is proper when it is joined of proper units. -/
theorem isProper_iff_units
    {node : Node} :
    node.IsProper ↔
      node.IsJoined ∧ ∀ unit ∈ node.units, unit.IsProper := by
  induction node using Node.induction with
  | text key length => simp [IsProper, IsJoined, units]
  | bracket leaf => simp [IsProper, IsJoined, units]
  | invalid key ids length =>
      simp [IsProper, IsJoined, units]
  | pair key length missing opening child closing _ =>
      simp [IsJoined, units]
  | list key height length missing nodes ih =>
      by_cases hSome : nodes = []
      · subst hSome
        simp [IsProper, units]
      · have hItems :
            AllProper height nodes ↔
              AllJoined height nodes ∧
                ∀ unit ∈ unitsOfAll nodes,
                  unit.IsProper := by
          clear hSome
          induction nodes with
          | nil => simp [AllProper, AllJoined, unitsOfAll]
          | cons first rest ihRest =>
              rw [List.forall_mem_cons] at ih
              rw [AllProper, AllJoined, unitsOfAll,
                List.forall_mem_append, ih.1, ihRest ih.2]
              tauto
        rw [IsProper, IsJoined, units_list hSome, hItems]
        tauto

/- A proper tree holds no list without items. -/
theorem units_eq_items
    {node : Node}
    (h : node.IsProper) :
    node.units = node.items := by
  rcases isProper_iff_units.1 h with ⟨_, hUnits⟩
  rw [items_eq_filter, eq_comm, List.filter_eq_self]
  intro unit hUnit
  have hProper := hUnits unit hUnit
  cases unit with
  | list key height length missing items =>
      cases items with
      | nil => simp [IsProper] at hProper
      | cons first rest => rfl
  | _ => rfl

theorem unitsOfAll_eq_itemsOfAll
    {nodes : List Node}
    (h : ∀ node ∈ nodes, node.IsProper) :
    unitsOfAll nodes = itemsOfAll nodes := by
  induction nodes with
  | nil => rfl
  | cons first rest ih =>
      rw [List.forall_mem_cons] at h
      rw [unitsOfAll, itemsOfAll, units_eq_items h.1,
        ih h.2]

end Node

end Bracketry

------------------------------------------------------------
-- Summaries of Joined Lists
------------------------------------------------------------

namespace Bracketry

namespace Node

/- What holds of each tree and its units holds of several. -/
theorem sum_lengths_of
    {nodes : List Node}
    (h :
      ∀ node ∈ nodes,
        node.length = (node.units.map length).sum) :
    (nodes.map length).sum =
      ((unitsOfAll nodes).map length).sum := by
  induction nodes with
  | nil => rfl
  | cons first rest ih =>
      rw [List.forall_mem_cons] at h
      rw [unitsOfAll, List.map_append, List.sum_append,
        List.map_cons, List.sum_cons, h.1, ih h.2]

/- A tree is as long as its units. -/
theorem length_eq_sum_units
    {node : Node}
    (h : node.IsJoined) :
    node.length = (node.units.map length).sum := by
  have hLeaf :
      ∀ node : Node,
        node.length = (([node] : List Node).map length).sum :=
    by simp
  induction node using Node.induction with
  | text key length => exact hLeaf _
  | bracket leaf => exact hLeaf _
  | invalid key ids length => exact hLeaf _
  | pair key length missing opening child closing _ =>
      exact hLeaf _
  | list key height length missing nodes ih =>
      by_cases hSome : nodes = []
      · subst hSome
        exact hLeaf _
      · rw [Node.length, h.2.2.1, units_list hSome]
        exact sum_lengths_of fun node hNode =>
          ih node hNode (h.item node hNode).2

theorem sum_lengths
    {nodes : List Node}
    (h : ∀ node ∈ nodes, node.IsJoined) :
    (nodes.map length).sum =
      ((unitsOfAll nodes).map length).sum :=
  sum_lengths_of fun node hNode =>
    length_eq_sum_units (h node hNode)

/- The ids that a tree did not find are those of its units. -/
theorem mem_missing_iff_units
    {node : Node}
    {id : Nat}
    (h : node.IsJoined) :
    id ∈ node.missing.toList ↔
      ∃ unit ∈ node.units, id ∈ unit.missing.toList := by
  induction node using Node.induction with
  | text key length => simp [units]
  | bracket leaf => simp [units]
  | invalid key ids length => simp [units]
  | pair key length missing opening child closing _ =>
      simp [units]
  | list key height length missing nodes ih =>
      by_cases hSome : nodes = []
      · subst hSome
        simp [units]
      · have hBelow :
            ∀ node ∈ nodes,
              (id ∈ node.missing.toList ↔
                ∃ unit ∈ node.units,
                  id ∈ unit.missing.toList) :=
          fun node hNode =>
            ih node hNode (h.item node hNode).2
        rw [Node.missing, h.2.2.2.1, mem_allMissing,
          units_list hSome]
        constructor
        · rintro ⟨node, hNode, hId⟩
          rcases (hBelow node hNode).1 hId with
            ⟨unit, hUnit, hId⟩
          exact ⟨unit,
            mem_unitsOfAll.2 ⟨node, hNode, hUnit⟩, hId⟩
        · rintro ⟨unit, hUnit, hId⟩
          rcases mem_unitsOfAll.1 hUnit with
            ⟨node, hNode, hUnit⟩
          exact ⟨node, hNode,
            (hBelow node hNode).2 ⟨unit, hUnit, hId⟩⟩

/- Several trees have at least as many units as one each. -/
theorem length_mul_le_unitsOfAll
    {least : Nat}
    {nodes : List Node}
    (h : ∀ node ∈ nodes, least ≤ node.units.length) :
    nodes.length * least ≤ (unitsOfAll nodes).length := by
  induction nodes with
  | nil => simp
  | cons first rest ih =>
      rw [List.forall_mem_cons] at h
      have hRest := ih h.2
      rw [unitsOfAll, List.length_append, List.length_cons,
        Nat.succ_mul]
      omega

/- There are at least so many units below a height. -/
theorem two_pow_height_le_units
    {node : Node}
    (h : node.IsJoined) :
    2 ^ node.height ≤ node.units.length := by
  induction node using Node.induction with
  | text key length => simp [height, units]
  | bracket leaf => simp [height, units]
  | invalid key ids length => simp [height, units]
  | pair key length missing opening child closing _ =>
      simp [height, units]
  | list key height length missing nodes ih =>
      have hItems := h.item
      cases height with
      | zero =>
          -- An item would have no height below.
          have hNil : nodes = [] := by
            rw [List.eq_nil_iff_forall_not_mem]
            intro node hNode
            have := (hItems node hNode).1
            omega
          subst hNil
          simp [Node.height, units]
      | succ below =>
          have hCount := h.length_items (Nat.succ_pos below)
          have hSome : nodes ≠ [] := by
            rintro rfl
            simp at hCount
          have hBelow :
              nodes.length * 2 ^ below ≤
                (unitsOfAll nodes).length := by
            apply length_mul_le_unitsOfAll
            intro node hNode
            rcases hItems node hNode with ⟨hHeight, hJoined⟩
            have hSame : node.height = below := by omega
            subst hSame
            exact ih node hNode hJoined
          have hTwo :
              2 * 2 ^ below ≤ nodes.length * 2 ^ below :=
            Nat.mul_le_mul_right _ (by omega)
          rw [Node.height, units_list hSome, Nat.pow_succ]
          omega

theorem two_pow_height_le
    {node : Node}
    (h : node.IsProper) :
    2 ^ node.height ≤ node.items.length := by
  rw [← units_eq_items h]
  exact two_pow_height_le_units (isProper_iff_units.1 h).1

end Node

end Bracketry
