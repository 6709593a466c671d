import Bracketry.Parse
import Bracketry.Proofs.Faults
import Bracketry.Proofs.Units
import Mathlib.Data.Nat.Log

/-
  Concatenation keeps the units.

  Trees are joined by rebuilding the lists along one side of
  the higher one.  The lists of the result are joined again,
  and its units are those of the trees that were joined, in
  their order.  Nothing is refused but a sum that does not
  fit, and none is as long as every stretch of the units has
  a length that fits.

  Key definitions include:
    * `Node.AllFit`, `Node.MayJoin`
    * `Node.IsTree`

  Main declarations:
    * `Node.ends_concat`
    * `Node.ends_concatEven`
    * `Node.ends_concatAll`
    * `Parser.ends_joinItems`
-/

------------------------------------------------------------
-- Sums of Lengths
------------------------------------------------------------

namespace Bracketry

open Checked

namespace Length

variable {MayFail : Fault → Prop}

theorem ends_plus
    (hSum : MayFail .overflow)
    (a b : Length) :
    Ends MayFail (· = a + b) (a.plus b) := by
  unfold plus
  split
  · rfl
  · exact hSum

theorem ends_total
    (hSum : MayFail .overflow)
    (items : List Length) :
    Ends MayFail (· = items.sum) (total items) := by
  have hFold :
      ∀ start,
        Ends MayFail (· = start + items.sum)
          (items.foldlM plus start) := by
    induction items with
    | nil =>
        intro start
        exact (add_zero start).symm
    | cons item rest ih =>
        intro start
        rw [List.foldlM_cons, List.sum_cons, ← add_assoc]
        refine (ends_plus hSum start item).bind ?_
        rintro _ rfl
        exact ih _
  have hAll := hFold 0
  rwa [zero_add] at hAll

end Length

end Bracketry

------------------------------------------------------------
-- Items that Fit
------------------------------------------------------------

namespace Bracketry

open Checked

namespace Node

/-
  No tree of so many units is too high for a count of 32
  bits, and each stretch of them has a length that fits.
-/
def AllFit
    (units : List Node) :
    Prop :=
  Nat.log 2 units.length + 1 < countLimit ∧
    ∀ before middle behind,
      units = before ++ middle ++ behind →
        ((middle.map length).sum).Fits

/- Nodes whose number has 64 bits are few enough. -/
theorem allFit_of_length_lt
    {units : List Node}
    (hCount : units.length < 2 ^ 64)
    (hSums :
      ∀ before middle behind,
        units = before ++ middle ++ behind →
          ((middle.map length).sum).Fits) :
    AllFit units := by
  refine ⟨?_, hSums⟩
  have hLog : Nat.log 2 units.length < 64 :=
    Nat.log_lt_of_lt_pow' (by decide) hCount
  rw [countLimit]
  omega

/- A stretch of units that fit is one. -/
theorem AllFit.part
    (before behind : List Node)
    {middle : List Node}
    (h : AllFit (before ++ middle ++ behind)) :
    AllFit middle := by
  rcases h with ⟨hCount, hSums⟩
  refine ⟨?_, ?_⟩
  · have hLess :
        Nat.log 2 middle.length ≤
          Nat.log 2 (before ++ middle ++ behind).length :=
      Nat.log_mono_right (by simp; omega)
    omega
  · rintro first part last rfl
    apply hSums (before ++ first) part (last ++ behind)
    simp

theorem AllFit.left
    {first second : List Node}
    (h : AllFit (first ++ second)) :
    AllFit first :=
  AllFit.part [] second h

theorem AllFit.right
    {first second : List Node}
    (h : AllFit (first ++ second)) :
    AllFit second := by
  apply AllFit.part first []
  rwa [List.append_nil]

/- The units fit, or a sum that does not may be refused. -/
def MayJoin
    (MayFail : Fault → Prop)
    (units : List Node) :
    Prop :=
  AllFit units ∨ MayFail .overflow

variable {MayFail : Fault → Prop}

theorem MayJoin.left
    {first second : List Node}
    (h : MayJoin MayFail (first ++ second)) :
    MayJoin MayFail first :=
  h.imp_left AllFit.left

theorem MayJoin.right
    {first second : List Node}
    (h : MayJoin MayFail (first ++ second)) :
    MayJoin MayFail second :=
  h.imp_left AllFit.right

/- A joined tree of some height with given units. -/
def IsTree
    (height : Nat)
    (flat : List Node)
    (node : Node) :
    Prop :=
  node.IsJoined ∧ node.height = height ∧ node.units = flat

/- There is a height above that of a tree. -/
theorem ends_above
    {node : Node}
    (h : node.IsJoined)
    (hFit : MayJoin MayFail node.units) :
    Ends MayFail (· = node.height + 1)
      (checkedSum node.height 1) := by
  rcases hFit with hFit | hSum
  · have hHeight :
        node.height ≤ Nat.log 2 node.units.length :=
      Nat.le_log_of_pow_le (by decide)
        (two_pow_height_le_units h)
    have hAbove :
        checkedSum node.height 1 = .ok (node.height + 1) :=
      checkedSum_eq_ok_iff.2 ⟨by have := hFit.1; omega, rfl⟩
    rw [hAbove]
    rfl
  · exact ends_checkedSum hSum _ _

/- The length of nodes is the sum of theirs. -/
theorem ends_totalLength
    {nodes : List Node}
    (hProper : ∀ node ∈ nodes, node.IsJoined)
    (hFit : MayJoin MayFail (unitsOfAll nodes)) :
    Ends MayFail (· = (nodes.map length).sum)
      (totalLength nodes) := by
  rcases hFit with hFit | hSum
  · have hTotal :
        totalLength nodes =
          .ok (nodes.map length).sum := by
      apply Length.total_eq_ok
      intro before behind hSplit
      rcases List.map_eq_append_iff.1 hSplit with
        ⟨first, second, rfl, rfl, rfl⟩
      rw [sum_lengths fun node hNode =>
        hProper node (List.mem_append_left _ hNode)]
      rw [unitsOfAll_append] at hFit
      exact hFit.left.2 [] _ [] (by simp)
    rw [hTotal]
    rfl
  · exact Length.ends_total hSum _

/- A list of two or three trees of one height. -/
theorem isTree_list
    {height : Nat}
    {nodes : List Node}
    (hCount : nodes.length = 2 ∨ nodes.length = 3)
    (h :
      ∀ node ∈ nodes,
        node.height + 1 = height ∧ node.IsJoined) :
    IsTree height (unitsOfAll nodes)
      (.list none height (nodes.map length).sum
        (allMissing nodes) nodes) := by
  have hSome : nodes ≠ [] := by
    rintro rfl
    simp at hCount
  exact ⟨⟨fun hNone => absurd hNone hSome, fun _ => hCount,
    rfl, rfl, allJoined_iff.2 h⟩, rfl, units_list hSome⟩

/- Such a list is made. -/
theorem ends_listOf
    {height : Nat}
    {nodes : List Node}
    (hCount : nodes.length = 2 ∨ nodes.length = 3)
    (h :
      ∀ node ∈ nodes,
        node.height + 1 = height ∧ node.IsJoined)
    (hFit : MayJoin MayFail (unitsOfAll nodes)) :
    Ends MayFail (IsTree height (unitsOfAll nodes))
      (listOf height nodes) := by
  refine (ends_totalLength
    (fun node hNode => (h node hNode).2) hFit).bind ?_
  rintro _ rfl
  exact isTree_list hCount h

/- Two or three trees of one height under one parent. -/
theorem ends_list23
    {first : Node}
    (second : Node)
    (third : Option Node)
    (hFirst : first.IsJoined)
    (hOthers :
      ∀ node ∈ second :: third.toList,
        node.height = first.height ∧ node.IsJoined)
    (hFit :
      MayJoin MayFail
        (unitsOfAll (first :: second :: third.toList))) :
    Ends MayFail
      (IsTree (first.height + 1)
        (unitsOfAll (first :: second :: third.toList)))
      (list23 first second third) := by
  have hEven :
      allOfHeight first.height (second :: third.toList) =
        true := by
    rw [allOfHeight, List.all_eq_true]
    intro node hNode
    exact decide_eq_true (hOthers node hNode).1
  have hAll :
      ∀ node ∈ first :: second :: third.toList,
        node.height + 1 = first.height + 1 ∧
          node.IsJoined := by
    rw [List.forall_mem_cons]
    refine ⟨⟨rfl, hFirst⟩, fun node hNode => ?_⟩
    rcases hOthers node hNode with ⟨hHeight, hProper⟩
    exact ⟨by rw [hHeight], hProper⟩
  rw [list23, hEven]
  refine (ends_above hFirst hFit.left).bind ?_
  rintro _ rfl
  exact ends_listOf (by cases third <;> simp) hAll hFit

end Node

end Bracketry

------------------------------------------------------------
-- Growing at the Right
------------------------------------------------------------

namespace Bracketry

open Checked

namespace Node

variable {MayFail : Fault → Prop}

/-
  What grows at the right keeps its height; what is left
  over for the parent is as high and comes behind it.
-/
def IsGrownRight
    (height : Nat)
    (flat : List Node)
    (node : Node)
    (extra : Option Node) :
    Prop :=
  node.IsJoined ∧ node.height = height ∧
    (∀ other, extra = some other →
      other.IsJoined ∧ other.height = height) ∧
    node.units ++ unitsOfAll extra.toList = flat

/- A list that is not too long takes in all of them. -/
theorem IsTree.isGrownRight
    {height : Nat}
    {flat : List Node}
    {node : Node}
    (h : IsTree height flat node) :
    IsGrownRight height flat node none := by
  rcases h with ⟨hProper, hHeight, hItems⟩
  refine ⟨hProper, hHeight, by simp, ?_⟩
  rw [hItems]
  simp [unitsOfAll]

theorem ends_placeRight
    {height : Nat}
    {nodes : List Node}
    {item : Node}
    (hCount : nodes.length = 2 ∨ nodes.length = 3)
    (hNodes :
      ∀ node ∈ nodes,
        node.height + 1 = height ∧ node.IsJoined)
    (hItem : item.height + 1 = height ∧ item.IsJoined)
    (hFit :
      MayJoin MayFail (unitsOfAll nodes ++ item.units)) :
    Ends MayFail
      (fun grown =>
        IsGrownRight height
          (unitsOfAll nodes ++ item.units) grown.1 grown.2)
      (placeRight height nodes item) := by
  have hAll :
      ∀ node ∈ nodes ++ [item],
        node.height + 1 = height ∧ node.IsJoined := by
    rw [List.forall_mem_append, List.forall_mem_singleton]
    exact ⟨hNodes, hItem⟩
  have hFlat :
      unitsOfAll nodes ++ item.units =
        unitsOfAll (nodes ++ [item]) := by
    simp [unitsOfAll]
  rw [hFlat] at hFit ⊢
  rcases hCount with hTwo | hThree
  · rcases List.length_eq_two.1 hTwo with ⟨a, b, rfl⟩
    exact (ends_listOf (.inr rfl) hAll hFit).bind
      fun node hNode => hNode.isGrownRight
  · rcases List.length_eq_three.1 hThree with ⟨a, b, c, rfl⟩
    have hSplit :
        unitsOfAll ([a, b, c] ++ [item]) =
          unitsOfAll [a, b] ++ unitsOfAll [c, item] := by
      simp [unitsOfAll]
    rw [hSplit] at hFit ⊢
    have hEnd := hAll c (by simp)
    refine (ends_list23 item none hEnd.2 ?_ hFit.right).bind
      ?_
    · intro node hNode
      rcases List.mem_singleton.1 hNode with rfl
      exact ⟨by omega, hItem.2⟩
    rintro extra ⟨hExtra, hExtraHeight, hExtraItems⟩
    refine (ends_listOf (.inl rfl) ?_ hFit.left).bind ?_
    · exact fun node hNode =>
        hAll node (by simp at hNode ⊢; tauto)
    rintro node ⟨hProper, hHeight, hItems⟩
    refine ⟨hProper, hHeight, ?_, ?_⟩
    · rintro other ⟨⟩
      exact ⟨hExtra, by rw [hExtraHeight, hEnd.1]⟩
    · rw [hItems]
      simp [unitsOfAll, hExtraItems]

/- What is left over from below is taken in. -/
theorem ends_settleRight
    {height : Nat}
    {nodes : List Node}
    {extra : Option Node}
    (hCount : nodes.length = 2 ∨ nodes.length = 3)
    (hNodes :
      ∀ node ∈ nodes ++ extra.toList,
        node.height + 1 = height ∧ node.IsJoined)
    (hFit :
      MayJoin MayFail
        (unitsOfAll (nodes ++ extra.toList))) :
    Ends MayFail
      (fun grown =>
        IsGrownRight height
          (unitsOfAll (nodes ++ extra.toList)) grown.1
          grown.2)
      (settle placeRight height nodes extra) := by
  rw [List.forall_mem_append] at hNodes
  cases extra with
  | none =>
      rw [Option.toList_none, List.append_nil] at hFit ⊢
      exact (ends_listOf hCount hNodes.1 hFit).bind
        fun node hNode => hNode.isGrownRight
  | some item =>
      have hOne : unitsOfAll [item] = item.units := by
        simp [unitsOfAll]
      rw [Option.toList_some, unitsOfAll_append, hOne]
        at hFit ⊢
      exact ends_placeRight hCount hNodes.1
        (hNodes.2 item (by simp)) hFit

/- Growing the last of some nodes, as each of them grows. -/
theorem ends_growLast
    {height : Nat}
    {nodes : List Node}
    {item : Node}
    (hSome : nodes ≠ [])
    (hNodes :
      ∀ node ∈ nodes,
        node.height + 1 = height ∧ node.IsJoined)
    (hFit :
      MayJoin MayFail (unitsOfAll nodes ++ item.units))
    (hGrow :
      ∀ node ∈ nodes,
        MayJoin MayFail (node.units ++ item.units) →
          Ends MayFail
            (fun grown =>
              IsGrownRight node.height
                (node.units ++ item.units) grown.1 grown.2)
            (growRight item node)) :
    Ends MayFail
      (fun grown =>
        grown.1.length = nodes.length ∧
          (∀ node ∈ grown.1 ++ grown.2.toList,
            node.height + 1 = height ∧ node.IsJoined) ∧
          unitsOfAll (grown.1 ++ grown.2.toList) =
            unitsOfAll nodes ++ item.units)
      (growLast item nodes) := by
  induction nodes with
  | nil => exact absurd rfl hSome
  | cons first rest ih =>
      rw [List.forall_mem_cons] at hNodes hGrow
      cases rest with
      | nil =>
          have hOne : unitsOfAll [first] = first.units := by
            simp [unitsOfAll]
          rw [hOne] at hFit ⊢
          refine (hGrow.1 hFit).bind ?_
          rintro ⟨grown, extra⟩
            ⟨hProper, hHeight, hExtra, hItems⟩
          refine ⟨rfl, ?_, by simpa [unitsOfAll] using hItems⟩
          rw [List.forall_mem_append,
            List.forall_mem_singleton]
          refine ⟨⟨by rw [hHeight, hNodes.1.1], hProper⟩,
            fun other hOther => ?_⟩
          rw [Option.mem_toList] at hOther
          rcases hExtra other hOther with
            ⟨hOtherProper, hOtherHeight⟩
          exact ⟨by rw [hOtherHeight, hNodes.1.1],
            hOtherProper⟩
      | cons second others =>
          rw [unitsOfAll, List.append_assoc] at hFit
          refine (ih (by simp) hNodes.2 hFit.right
            hGrow.2).bind ?_
          rintro ⟨grown, extra⟩ ⟨hLength, hAll, hItems⟩
          refine ⟨by simp [hLength], ?_, ?_⟩
          · rw [List.cons_append, List.forall_mem_cons]
            exact ⟨hNodes.1, hAll⟩
          · rw [List.cons_append, unitsOfAll, hItems]
            simp [unitsOfAll]

/- A higher tree grows at the right. -/
theorem ends_growRight
    {node item : Node}
    (hNode : node.IsJoined)
    (hItem : item.IsJoined)
    (hLower : item.height < node.height)
    (hFit : MayJoin MayFail (node.units ++ item.units)) :
    Ends MayFail
      (fun grown =>
        IsGrownRight node.height
          (node.units ++ item.units) grown.1 grown.2)
      (growRight item node) := by
  induction node using Node.induction with
  | text key length => simp [height] at hLower
  | bracket leaf => simp [height] at hLower
  | invalid key ids length => simp [height] at hLower
  | pair key length missing opening child closing _ =>
      simp [height] at hLower
  | list key height length missing nodes ih =>
      have hNodes := hNode.item
      have hCount := hNode.length_items (by
        rw [Node.height] at hLower
        omega)
      have hSome : nodes ≠ [] := by
        rintro rfl
        simp at hCount
      rw [Node.height] at hLower ⊢
      rw [units_list hSome] at hFit ⊢
      rw [growRight]
      refine (ends_above hItem hFit.right).bind ?_
      rintro _ rfl
      split_ifs with hAbove
      · exact ends_placeRight hCount hNodes ⟨hAbove, hItem⟩
          hFit
      · refine (ends_growLast hSome hNodes hFit
          fun node hMem hNodeFit => ?_).bind ?_
        · rcases hNodes node hMem with ⟨hBelow, hProper⟩
          exact ih node hMem hProper (by omega) hNodeFit
        rintro ⟨grown, extra⟩ ⟨hLength, hAll, hItems⟩
        rw [← hItems] at hFit ⊢
        exact ends_settleRight (by rwa [hLength]) hAll hFit

end Node

end Bracketry

------------------------------------------------------------
-- Growing at the Left
------------------------------------------------------------

namespace Bracketry

open Checked

namespace Node

variable {MayFail : Fault → Prop}

/-
  What grows at the left keeps its height; what is left over
  for the parent is as high and comes before it.
-/
def IsGrownLeft
    (height : Nat)
    (flat : List Node)
    (node : Node)
    (extra : Option Node) :
    Prop :=
  node.IsJoined ∧ node.height = height ∧
    (∀ other, extra = some other →
      other.IsJoined ∧ other.height = height) ∧
    unitsOfAll extra.toList ++ node.units = flat

/- A list that is not too long takes in all of them. -/
theorem IsTree.isGrownLeft
    {height : Nat}
    {flat : List Node}
    {node : Node}
    (h : IsTree height flat node) :
    IsGrownLeft height flat node none :=
  ⟨h.1, h.2.1, by simp, h.2.2⟩

theorem ends_placeLeft
    {height : Nat}
    {nodes : List Node}
    {item : Node}
    (hCount : nodes.length = 2 ∨ nodes.length = 3)
    (hNodes :
      ∀ node ∈ nodes,
        node.height + 1 = height ∧ node.IsJoined)
    (hItem : item.height + 1 = height ∧ item.IsJoined)
    (hFit :
      MayJoin MayFail (item.units ++ unitsOfAll nodes)) :
    Ends MayFail
      (fun grown =>
        IsGrownLeft height
          (item.units ++ unitsOfAll nodes) grown.1 grown.2)
      (placeLeft height nodes item) := by
  have hAll :
      ∀ node ∈ item :: nodes,
        node.height + 1 = height ∧ node.IsJoined := by
    rw [List.forall_mem_cons]
    exact ⟨hItem, hNodes⟩
  rw [← unitsOfAll] at hFit ⊢
  rcases hCount with hTwo | hThree
  · rcases List.length_eq_two.1 hTwo with ⟨a, b, rfl⟩
    exact (ends_listOf (.inr rfl) hAll hFit).bind
      fun node hNode => hNode.isGrownLeft
  · rcases List.length_eq_three.1 hThree with ⟨a, b, c, rfl⟩
    have hSplit :
        unitsOfAll [item, a, b, c] =
          unitsOfAll [item, a] ++ unitsOfAll [b, c] := by
      simp [unitsOfAll]
    rw [hSplit] at hFit ⊢
    have hFirst := hAll a (by simp)
    refine (ends_list23 a none hItem.2 ?_ hFit.left).bind ?_
    · intro node hNode
      rcases List.mem_singleton.1 hNode with rfl
      exact ⟨by omega, hFirst.2⟩
    rintro extra ⟨hExtra, hExtraHeight, hExtraItems⟩
    refine (ends_listOf (.inl rfl) ?_ hFit.right).bind ?_
    · exact fun node hNode =>
        hAll node (by simp at hNode ⊢; tauto)
    rintro node ⟨hProper, hHeight, hItems⟩
    refine ⟨hProper, hHeight, ?_, ?_⟩
    · rintro other ⟨⟩
      exact ⟨hExtra, by rw [hExtraHeight, hItem.1]⟩
    · rw [hItems]
      simp [unitsOfAll, hExtraItems]

/- What is left over from below is taken in. -/
theorem ends_settleLeft
    {height : Nat}
    {nodes : List Node}
    {extra : Option Node}
    (hCount : nodes.length = 2 ∨ nodes.length = 3)
    (hNodes :
      ∀ node ∈ extra.toList ++ nodes,
        node.height + 1 = height ∧ node.IsJoined)
    (hFit :
      MayJoin MayFail
        (unitsOfAll (extra.toList ++ nodes))) :
    Ends MayFail
      (fun grown =>
        IsGrownLeft height
          (unitsOfAll (extra.toList ++ nodes)) grown.1
          grown.2)
      (settle placeLeft height nodes extra) := by
  rw [List.forall_mem_append] at hNodes
  cases extra with
  | none =>
      rw [Option.toList_none, List.nil_append] at hFit ⊢
      exact (ends_listOf hCount hNodes.2 hFit).bind
        fun node hNode => hNode.isGrownLeft
  | some item =>
      have hOne : unitsOfAll [item] = item.units := by
        simp [unitsOfAll]
      rw [Option.toList_some, unitsOfAll_append, hOne]
        at hFit ⊢
      exact ends_placeLeft hCount hNodes.2
        (hNodes.1 item (by simp)) hFit

/- A higher tree grows at the left. -/
theorem ends_growLeft
    {node item : Node}
    (hNode : node.IsJoined)
    (hItem : item.IsJoined)
    (hLower : item.height < node.height)
    (hFit : MayJoin MayFail (item.units ++ node.units)) :
    Ends MayFail
      (fun grown =>
        IsGrownLeft node.height
          (item.units ++ node.units) grown.1 grown.2)
      (growLeft item node) := by
  induction node using Node.induction with
  | text key length => simp [height] at hLower
  | bracket leaf => simp [height] at hLower
  | invalid key ids length => simp [height] at hLower
  | pair key length missing opening child closing _ =>
      simp [height] at hLower
  | list key height length missing nodes ih =>
      have hNodes := hNode.item
      have hCount := hNode.length_items (by
        rw [Node.height] at hLower
        omega)
      have hSome : nodes ≠ [] := by
        rintro rfl
        simp at hCount
      rw [Node.height] at hLower ⊢
      rw [units_list hSome] at hFit ⊢
      rw [growLeft]
      refine (ends_above hItem hFit.left).bind ?_
      rintro _ rfl
      split_ifs with hAbove
      · exact ends_placeLeft hCount hNodes ⟨hAbove, hItem⟩
          hFit
      · cases nodes with
        | nil => exact absurd rfl hSome
        | cons first rest =>
            rw [unitsOfAll, ← List.append_assoc] at hFit ⊢
            rw [List.forall_mem_cons] at hNodes ih
            rw [growFirst, bind_assoc]
            refine (ih.1 hNodes.1.2 (by omega)
              hFit.left).bind ?_
            rintro ⟨grown, extra⟩
              ⟨hProper, hHeight, hExtra, hItems⟩
            have hFlat :
                unitsOfAll (extra.toList ++ grown :: rest) =
                  item.units ++ first.units ++
                    unitsOfAll rest := by
              rw [unitsOfAll_append, unitsOfAll,
                ← List.append_assoc, hItems]
            rw [← hFlat] at hFit ⊢
            refine ends_settleLeft hCount ?_ hFit
            rw [List.forall_mem_append, List.forall_mem_cons]
            refine ⟨fun other hOther => ?_,
              ⟨by rw [hHeight, hNodes.1.1], hProper⟩,
              hNodes.2⟩
            rw [Option.mem_toList] at hOther
            rcases hExtra other hOther with
              ⟨hOtherProper, hOtherHeight⟩
            exact ⟨by rw [hOtherHeight, hNodes.1.1],
              hOtherProper⟩

end Node

end Bracketry

------------------------------------------------------------
-- Two Trees
------------------------------------------------------------

namespace Bracketry

open Checked

namespace Node

variable {MayFail : Fault → Prop}

/- A joined tree with given units, of whatever height. -/
def IsTreeWith
    (flat : List Node)
    (root : Node) :
    Prop :=
  root.IsJoined ∧ root.units = flat

theorem IsTree.isTreeWith
    {height : Nat}
    {flat : List Node}
    {root : Node}
    (h : IsTree height flat root) :
    IsTreeWith flat root :=
  ⟨h.1, h.2.2⟩

/- Two trees of one height make a higher one. -/
theorem ends_list2
    {left right : Node}
    (hLeft : left.IsJoined)
    (hRight : right.IsJoined)
    (hEven : left.height = right.height)
    (hFit : MayJoin MayFail (left.units ++ right.units)) :
    Ends MayFail (IsTreeWith (left.units ++ right.units))
      (list23 left right none) := by
  have hBoth :
      unitsOfAll [left, right] = left.units ++ right.units :=
    by simp [unitsOfAll]
  rw [← hBoth] at hFit ⊢
  refine (ends_list23 right none hLeft ?_ hFit).mono
    fun root hRoot => hRoot.isTreeWith
  intro node hNode
  rcases List.mem_singleton.1 hNode with rfl
  exact ⟨hEven.symm, hRight⟩

theorem ends_append
    {list item : Node}
    (hList : list.IsJoined)
    (hItem : item.IsJoined)
    (hLower : item.height < list.height)
    (hFit : MayJoin MayFail (list.units ++ item.units)) :
    Ends MayFail (IsTreeWith (list.units ++ item.units))
      (list.append item) := by
  refine (ends_growRight hList hItem hLower hFit).bind ?_
  rintro ⟨grown, extra⟩ ⟨hProper, hHeight, hExtra, hItems⟩
  rw [← hItems] at hFit ⊢
  cases extra with
  | none => exact ⟨hProper, by simp [unitsOfAll]⟩
  | some other =>
      rcases hExtra other rfl with ⟨hOther, hOtherHeight⟩
      rw [Option.toList_some, unitsOfAll, unitsOfAll,
        List.append_nil] at hFit ⊢
      exact ends_list2 hProper hOther
        (by rw [hHeight, hOtherHeight]) hFit

theorem ends_prepend
    {list item : Node}
    (hList : list.IsJoined)
    (hItem : item.IsJoined)
    (hLower : item.height < list.height)
    (hFit : MayJoin MayFail (item.units ++ list.units)) :
    Ends MayFail (IsTreeWith (item.units ++ list.units))
      (list.prepend item) := by
  refine (ends_growLeft hList hItem hLower hFit).bind ?_
  rintro ⟨grown, extra⟩ ⟨hProper, hHeight, hExtra, hItems⟩
  rw [← hItems] at hFit ⊢
  cases extra with
  | none => exact ⟨hProper, by simp [unitsOfAll]⟩
  | some other =>
      rcases hExtra other rfl with ⟨hOther, hOtherHeight⟩
      rw [Option.toList_some, unitsOfAll, unitsOfAll,
        List.append_nil] at hFit ⊢
      exact ends_list2 hOther hProper
        (by rw [hHeight, hOtherHeight]) hFit

/- Two trees are joined to one with the units of both. -/
theorem ends_concat
    {left right : Node}
    (hLeft : left.IsJoined)
    (hRight : right.IsJoined)
    (hFit : MayJoin MayFail (left.units ++ right.units)) :
    Ends MayFail (IsTreeWith (left.units ++ right.units))
      (left.concat right) := by
  unfold concat
  split_ifs with hEven hHigher
  · exact ends_list2 hLeft hRight hEven hFit
  · exact ends_append hLeft hRight hHigher hFit
  · exact ends_prepend hRight hLeft (by omega) hFit

end Node

end Bracketry

------------------------------------------------------------
-- Trees of One Height
------------------------------------------------------------

namespace Bracketry

open Checked

namespace Node

variable {MayFail : Fault → Prop}

/-
  Parents of neighbours have their units.  There is one for
  every two or three of them.
-/
theorem ends_pairUp
    {height : Nat}
    {nodes : List Node}
    (hCount : nodes.length ≠ 1)
    (hNodes :
      ∀ node ∈ nodes,
        node.height = height ∧ node.IsJoined)
    (hFit : MayJoin MayFail (unitsOfAll nodes)) :
    Ends MayFail
      (fun parents =>
        2 * parents.length ≤ nodes.length ∧
          nodes.length ≤ 3 * parents.length ∧
          (∀ node ∈ parents,
            node.height = height + 1 ∧ node.IsJoined) ∧
          unitsOfAll parents = unitsOfAll nodes)
      (pairUp nodes) := by
  fun_induction pairUp nodes with
  | case1 a b c =>
      simp only [List.forall_mem_cons] at hNodes
      rcases hNodes with ⟨ha, hb, hc, _⟩
      refine (ends_list23 b (some c) ha.2 ?_ hFit).bind ?_
      · rw [Option.toList_some, List.forall_mem_cons,
          List.forall_mem_singleton, ha.1]
        exact ⟨hb, hc⟩
      rintro parent ⟨hProper, hHeight, hItems⟩
      refine ⟨by simp, by simp, ?_, ?_⟩
      · rw [List.forall_mem_singleton, hHeight, ha.1]
        exact ⟨rfl, hProper⟩
      · rw [unitsOfAll, unitsOfAll, List.append_nil, hItems]
        rfl
  | case2 a b rest hRest ih =>
      simp only [List.forall_mem_cons] at hNodes
      rcases hNodes with ⟨ha, hb, hOthers⟩
      have hSplit :
          unitsOfAll (a :: b :: rest) =
            unitsOfAll [a, b] ++ unitsOfAll rest := by
        simp [unitsOfAll]
      rw [hSplit] at hFit ⊢
      have hRestCount : rest.length ≠ 1 := by
        intro hOne
        rcases List.length_eq_one_iff.1 hOne with ⟨c, rfl⟩
        exact hRest c rfl
      refine (ends_list23 b none ha.2 ?_ hFit.left).bind ?_
      · rw [Option.toList_none, List.forall_mem_singleton,
          ha.1]
        exact hb
      rintro parent ⟨hProper, hHeight, hParentItems⟩
      refine (ih hRestCount hOthers hFit.right).bind ?_
      rintro parents ⟨hFew, hMany, hAll, hItems⟩
      refine ⟨?_, ?_, ?_, ?_⟩
      · simp only [List.length_cons]
        omega
      · simp only [List.length_cons]
        omega
      · rw [List.forall_mem_cons, hHeight, ha.1]
        exact ⟨⟨rfl, hProper⟩, hAll⟩
      · rw [unitsOfAll, hItems, hParentItems]
        rfl
  | case3 nodes hThree hTwo =>
      cases nodes with
      | nil => exact ⟨by simp, by simp, by simp, rfl⟩
      | cons first rest =>
          cases rest with
          | nil => simp at hCount
          | cons second others =>
              exact absurd rfl (hTwo first second others)

/- The tree of one to three nodes. -/
theorem ends_crown
    {height : Nat}
    {nodes : List Node}
    (hSome : nodes ≠ [])
    (hCount : nodes.length ≤ 3)
    (hNodes :
      ∀ node ∈ nodes,
        node.height = height ∧ node.IsJoined)
    (hFit : MayJoin MayFail (unitsOfAll nodes)) :
    Ends MayFail
      (fun result =>
        ∃ root,
          result = some root ∧
            IsTreeWith (unitsOfAll nodes) root)
      (crown nodes) := by
  rcases List.exists_cons_of_ne_nil hSome with ⟨a, others, rfl⟩
  cases others with
  | nil =>
      rw [List.forall_mem_singleton] at hNodes
      exact ⟨a, rfl, hNodes.2, by simp [unitsOfAll]⟩
  | cons b rest =>
      simp only [List.forall_mem_cons] at hNodes
      rcases hNodes with ⟨ha, hb, hRest⟩
      have hFew : rest.head?.toList = rest := by
        cases rest with
        | nil => rfl
        | cons c more =>
            cases more with
            | nil => rfl
            | cons d last =>
                simp only [List.length_cons] at hCount
                omega
      have hOthers :
          ∀ node ∈ b :: rest.head?.toList,
            node.height = a.height ∧ node.IsJoined := by
        rw [hFew, List.forall_mem_cons, ha.1]
        exact ⟨hb, hRest⟩
      rw [← hFew] at hFit
      refine (ends_list23 b rest.head? ha.2 hOthers
        hFit).bind ?_
      intro root hRoot
      rw [hFew] at hRoot
      exact ⟨root, rfl, hRoot.isTreeWith⟩

/- Raising level by level keeps the units. -/
theorem ends_raise
    {levels height : Nat}
    {nodes : List Node}
    (hSome : nodes ≠ [])
    (hLevels : nodes.length ≤ levels)
    (hNodes :
      ∀ node ∈ nodes,
        node.height = height ∧ node.IsJoined)
    (hFit : MayJoin MayFail (unitsOfAll nodes)) :
    Ends MayFail
      (fun result =>
        ∃ root,
          result = some root ∧
            IsTreeWith (unitsOfAll nodes) root)
      (raise levels nodes) := by
  induction levels generalizing height nodes with
  | zero =>
      exact absurd (List.length_eq_zero_iff.1 (by omega))
        hSome
  | succ levels ih =>
      unfold raise
      split_ifs with hFew
      · exact ends_crown hSome hFew hNodes hFit
      · refine (ends_pairUp (by omega) hNodes hFit).bind ?_
        rintro parents ⟨hTwo, hThree, hAll, hItems⟩
        have hParents : parents ≠ [] := by
          rintro rfl
          simp only [List.length_nil] at hThree
          omega
        rw [← hItems] at hFit ⊢
        exact ih hParents (by omega) hAll hFit

/- Nodes of one height make one tree. -/
theorem ends_concatEven
    {height : Nat}
    {nodes : List Node}
    (hSome : nodes ≠ [])
    (hNodes :
      ∀ node ∈ nodes,
        node.height = height ∧ node.IsJoined)
    (hFit : MayJoin MayFail (unitsOfAll nodes)) :
    Ends MayFail
      (fun result =>
        ∃ root,
          result = some root ∧
            IsTreeWith (unitsOfAll nodes) root)
      (concatEven nodes) :=
  ends_raise hSome (Nat.le_refl _) hNodes hFit

end Node

end Bracketry

------------------------------------------------------------
-- Trees of Any Height
------------------------------------------------------------

namespace Bracketry

open Checked

namespace Node

variable {MayFail : Fault → Prop}

/- Some nodes, all of one height. -/
def IsRun
    (run : List Node) :
    Prop :=
  run ≠ [] ∧ ∃ height, ∀ node ∈ run, node.height = height

theorem flatten_joinRun
    (item : Node)
    (runs : List (List Node)) :
    (joinRun item runs).flatten = item :: runs.flatten := by
  unfold joinRun
  split
  · split_ifs <;> simp
  · simp

theorem isRun_joinRun
    {item : Node}
    {runs : List (List Node)}
    (h : ∀ run ∈ runs, IsRun run) :
    ∀ run ∈ joinRun item runs, IsRun run := by
  have hOne : IsRun [item] :=
    ⟨by simp, item.height, by simp⟩
  unfold joinRun
  split
  · rename_i first run rest
    rw [List.forall_mem_cons] at h
    split_ifs with hEven
    · rw [List.forall_mem_cons]
      refine ⟨?_, h.2⟩
      rcases h.1 with ⟨_, height, hHeight⟩
      refine ⟨by simp, height, ?_⟩
      rw [List.forall_mem_cons]
      exact ⟨hEven.trans (hHeight first (by simp)), hHeight⟩
    · simp only [List.forall_mem_cons]
      exact ⟨hOne, h⟩
  · rw [List.forall_mem_cons]
    exact ⟨hOne, h⟩

/- The runs of nodes are parts of them, in their order. -/
theorem runs_spec
    (nodes : List Node) :
    (runs nodes).flatten = nodes ∧
      ∀ run ∈ runs nodes, IsRun run := by
  induction nodes with
  | nil => simp [runs]
  | cons item rest ih =>
      rw [runs, flatten_joinRun, ih.1]
      exact ⟨rfl, isRun_joinRun ih.2⟩

/- A run makes one tree. -/
theorem ends_concatRun
    {run : List Node}
    (hRun : IsRun run)
    (hProper : ∀ node ∈ run, node.IsJoined)
    (hFit : MayJoin MayFail (unitsOfAll run)) :
    Ends MayFail (IsTreeWith (unitsOfAll run))
      (concatRun run) := by
  rcases hRun with ⟨hSome, height, hHeight⟩
  refine (ends_concatEven hSome (fun node hNode =>
    ⟨hHeight node hNode, hProper node hNode⟩) hFit).bind ?_
  rintro _ ⟨root, rfl, hRoot⟩
  exact hRoot

/- Runs are joined to two trees, in whatever order. -/
theorem ends_joinRuns
    {first second : Node}
    {rest : List (List Node)}
    (hFirst : first.IsJoined)
    (hSecond : second.IsJoined)
    (hRuns : ∀ run ∈ rest, IsRun run)
    (hProper : ∀ run ∈ rest, ∀ node ∈ run, node.IsJoined)
    (hFit :
      MayJoin MayFail
        (first.units ++
          (second.units ++ unitsOfAll rest.flatten))) :
    Ends MayFail
      (IsTreeWith
        (first.units ++
          (second.units ++ unitsOfAll rest.flatten)))
      (joinRuns first second rest) := by
  induction rest generalizing first second with
  | nil =>
      simp only [List.flatten_nil, unitsOfAll,
        List.append_nil] at hFit ⊢
      exact ends_concat hFirst hSecond hFit
  | cons run rest ih =>
      rw [List.forall_mem_cons] at hRuns hProper
      rw [List.flatten_cons, unitsOfAll_append] at hFit ⊢
      refine (ends_concatRun hRuns.1 hProper.1
        hFit.right.right.left).bind ?_
      rintro third ⟨hThird, hItems⟩
      rw [← hItems] at hFit ⊢
      split_ifs
      · rw [← List.append_assoc] at hFit ⊢
        refine (ends_concat hFirst hSecond hFit.left).bind ?_
        rintro joined ⟨hJoined, hJoinedItems⟩
        rw [← hJoinedItems] at hFit ⊢
        exact ih hJoined hThird hRuns.2 hProper.2 hFit
      · rw [← List.append_assoc second.units] at hFit ⊢
        refine (ends_concat hSecond hThird
          hFit.right.left).bind ?_
        rintro joined ⟨hJoined, hJoinedItems⟩
        rw [← hJoinedItems] at hFit ⊢
        exact ih hFirst hJoined hRuns.2 hProper.2 hFit

/- Nodes of any height make one tree. -/
theorem ends_concatAll
    {nodes : List Node}
    (hSome : nodes ≠ [])
    (hProper : ∀ node ∈ nodes, node.IsJoined)
    (hFit : MayJoin MayFail (unitsOfAll nodes)) :
    Ends MayFail
      (fun result =>
        ∃ root,
          result = some root ∧
            IsTreeWith (unitsOfAll nodes) root)
      (concatAll nodes) := by
  rcases runs_spec nodes with ⟨hFlatten, hRuns⟩
  have hAll :
      ∀ run ∈ runs nodes, ∀ node ∈ run, node.IsJoined := by
    intro run hRun node hNode
    apply hProper
    rw [← hFlatten]
    exact List.mem_flatten.2 ⟨run, hRun, hNode⟩
  unfold concatAll
  rw [← hFlatten] at hFit hSome
  generalize runs nodes = parts at hFlatten hRuns hAll hFit
  subst hFlatten
  match parts with
  | [] => exact absurd rfl hSome
  | [run] =>
      rw [List.forall_mem_singleton] at hRuns hAll
      rw [List.flatten_singleton] at hFit ⊢
      rcases hRuns with ⟨hRunSome, height, hHeight⟩
      exact ends_concatEven hRunSome
        (fun node hNode => ⟨hHeight node hNode,
          hAll node hNode⟩) hFit
  | first :: second :: rest =>
      simp only [List.forall_mem_cons] at hRuns hAll
      rw [List.flatten_cons, List.flatten_cons,
        unitsOfAll_append, unitsOfAll_append] at hFit ⊢
      refine (ends_concatRun hRuns.1 hAll.1 hFit.left).bind ?_
      rintro left ⟨hLeft, hLeftItems⟩
      refine (ends_concatRun hRuns.2.1 hAll.2.1
        hFit.right.left).bind ?_
      rintro right ⟨hRight, hRightItems⟩
      rw [← hLeftItems, ← hRightItems] at hFit ⊢
      exact (ends_joinRuns hLeft hRight hRuns.2.2 hAll.2.2
        hFit).bind fun root hRoot => ⟨root, rfl, hRoot⟩

end Node

end Bracketry

------------------------------------------------------------
-- Items of a Parse
------------------------------------------------------------

namespace Bracketry

open Checked

namespace Parser

variable {MayFail : Fault → Prop}

@[simp] theorem joinItems_nil
    (parser : Parser) :
    parser.joinItems [] = .ok none := by
  unfold joinItems
  split <;> rfl

/-
  The items of a level make one proper tree.  Without an old
  tree, all of them are leaves or pairs.
-/
theorem ends_joinItems
    {parser : Parser}
    {items : List Node}
    (hSome : items ≠ [])
    (hProper : ∀ item ∈ items, item.IsProper)
    (hFlat :
      parser.old.isSome = false →
        ∀ item ∈ items, item.height = 0)
    (hFit : Node.MayJoin MayFail (Node.itemsOfAll items)) :
    Ends MayFail
      (fun result =>
        ∃ root,
          result = some root ∧ root.IsProper ∧
            root.items = Node.itemsOfAll items)
      (parser.joinItems items) := by
  have hUnits := Node.unitsOfAll_eq_itemsOfAll hProper
  have hJoined : ∀ item ∈ items, item.IsJoined :=
    fun item hItem =>
      (Node.isProper_iff_units.1 (hProper item hItem)).1
  have hMade :
      ∀ result,
        (∃ root,
          result = some root ∧
            Node.IsTreeWith (Node.unitsOfAll items) root) →
        ∃ root,
          result = some root ∧ root.IsProper ∧
            root.items = Node.itemsOfAll items := by
    rintro _ ⟨root, rfl, hRoot, hRootUnits⟩
    have hRootProper : root.IsProper := by
      refine Node.isProper_iff_units.2 ⟨hRoot, ?_⟩
      intro unit hUnit
      rw [hRootUnits] at hUnit
      rcases Node.mem_unitsOfAll.1 hUnit with
        ⟨item, hItem, hUnit⟩
      exact (Node.isProper_iff_units.1
        (hProper item hItem)).2 unit hUnit
    refine ⟨root, rfl, hRootProper, ?_⟩
    rw [← Node.units_eq_items hRootProper, hRootUnits,
      hUnits]
  rw [← hUnits] at hFit
  unfold joinItems
  split_ifs with hOld
  · exact (Node.ends_concatAll hSome hJoined hFit).mono hMade
  · rw [Bool.not_eq_true] at hOld
    exact (Node.ends_concatEven hSome
      (fun item hItem =>
        ⟨hFlat hOld item hItem, hJoined item hItem⟩)
      hFit).mono hMade

end Parser

end Bracketry
