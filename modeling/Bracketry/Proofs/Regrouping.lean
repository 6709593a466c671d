import Bracketry.Proofs.Concat

/-
  Joining trees regroups them.

  Concatenation opens lists and puts neighbours into new
  lists.  It does nothing else to the nodes that it joins,
  whatever their heights and lengths are.  So what opening a
  list and making one of neighbours cannot lose, no tree
  that was joined has lost.

  Key definitions include:
    * `Node.Regroups`

  Main declarations:
    * `Node.regroups_growRight`, `Node.regroups_growLeft`
    * `Node.regroups_concatEven`
    * `Node.regroups_concatAll`
-/

------------------------------------------------------------
-- Regrouping
------------------------------------------------------------

namespace Bracketry

namespace Node

/-
  One row of nodes becomes another by opening lists and by
  making new lists of neighbours.
-/
inductive Regroups : List Node → List Node → Prop where
  | refl (nodes : List Node) : Regroups nodes nodes
  | opened
    (key : Option Nat)
    (height : Nat)
    (length : Length)
    (missing : IdSet)
    (items : List Node) :
    Regroups [.list key height length missing items] items
  | grouped
    {length : Length}
    {items : List Node}
    (height : Nat)
    (missing : IdSet)
    (hLength : totalLength items = .ok length) :
    Regroups items [.list none height length missing items]
  | append
    {a b c d : List Node}
    (hLeft : Regroups a b)
    (hRight : Regroups c d) :
    Regroups (a ++ c) (b ++ d)
  | trans
    {a b c : List Node}
    (hFirst : Regroups a b)
    (hNext : Regroups b c) :
    Regroups a c

namespace Regroups

variable {a b : List Node}

theorem behind
    (before : List Node)
    (h : Regroups a b) :
    Regroups (before ++ a) (before ++ b) :=
  append (refl before) h

theorem ahead
    (after : List Node)
    (h : Regroups a b) :
    Regroups (a ++ after) (b ++ after) :=
  append h (refl after)

end Regroups

end Node

end Bracketry

------------------------------------------------------------
-- New Lists
------------------------------------------------------------

namespace Bracketry

namespace Node

variable {height : Nat} {items : List Node}
variable {item node : Node} {extra rest : Option Node}

theorem regroups_listOf
    (h : listOf height items = .ok node) :
    Regroups items [node] := by
  rw [listOf, Checked.bind_eq_ok_iff] at h
  rcases h with ⟨length, hLength, h⟩
  rcases Checked.pure_eq_ok_iff.1 h with rfl
  exact .grouped height _ hLength

theorem regroups_list23
    {first second : Node}
    {third : Option Node}
    (h : list23 first second third = .ok node) :
    Regroups (first :: second :: third.toList) [node] := by
  rw [list23] at h
  split_ifs at h
  rcases Checked.bind_eq_ok_iff.1 h with ⟨above, _, h⟩
  exact regroups_listOf h

theorem regroups_placeRight
    (h : placeRight height items item = .ok (node, extra)) :
    Regroups (items ++ [item]) (node :: extra.toList) := by
  rw [placeRight] at h
  split at h
  · rename_i last hLast
    rcases List.getLast?_eq_some_iff.1 hLast with ⟨front, rfl⟩
    split_ifs at h
    · rcases Checked.bind_eq_ok_iff.1 h with ⟨other, hOther, h⟩
      rcases Checked.bind_eq_ok_iff.1 h with ⟨list, hList, h⟩
      cases h
      rw [List.dropLast_concat] at hList
      rw [List.append_assoc]
      exact .append (regroups_listOf hList)
        (regroups_list23 hOther)
    · rcases Checked.bind_eq_ok_iff.1 h with ⟨list, hList, h⟩
      cases h
      exact regroups_listOf hList
  · rename_i hNone
    rcases List.getLast?_eq_none_iff.1 hNone with rfl
    rcases Checked.bind_eq_ok_iff.1 h with ⟨list, hList, h⟩
    cases h
    exact regroups_listOf hList

theorem regroups_placeLeft
    (h : placeLeft height items item = .ok (node, extra)) :
    Regroups (item :: items) (extra.toList ++ [node]) := by
  unfold placeLeft at h
  split at h
  · rename_i first others
    split_ifs at h
    · rcases Checked.bind_eq_ok_iff.1 h with ⟨other, hOther, h⟩
      rcases Checked.bind_eq_ok_iff.1 h with ⟨list, hList, h⟩
      cases h
      have hPair := regroups_list23 hOther
      exact .append hPair (regroups_listOf hList)
    · rcases Checked.bind_eq_ok_iff.1 h with ⟨list, hList, h⟩
      cases h
      exact regroups_listOf hList
  · rcases Checked.bind_eq_ok_iff.1 h with ⟨list, hList, h⟩
    cases h
    exact regroups_listOf hList

theorem regroups_settleRight
    (h :
      settle placeRight height items rest =
        .ok (node, extra)) :
    Regroups (items ++ rest.toList)
      (node :: extra.toList) := by
  cases rest with
  | some item => exact regroups_placeRight h
  | none =>
      rcases Checked.bind_eq_ok_iff.1 h with ⟨list, hList, h⟩
      cases h
      simpa using regroups_listOf hList

theorem regroups_settleLeft
    (h :
      settle placeLeft height items rest =
        .ok (node, extra)) :
    Regroups (rest.toList ++ items)
      (extra.toList ++ [node]) := by
  cases rest with
  | some item => exact regroups_placeLeft h
  | none =>
      rcases Checked.bind_eq_ok_iff.1 h with ⟨list, hList, h⟩
      cases h
      exact regroups_listOf hList

end Node

end Bracketry

------------------------------------------------------------
-- Growing at One Side
------------------------------------------------------------

namespace Bracketry

namespace Node

mutual

theorem regroups_growRight
    {item grown : Node}
    {extra : Option Node} :
    (node : Node) →
      growRight item node = .ok (grown, extra) →
        Regroups [node, item] (grown :: extra.toList)
  | .text _ _, h => by cases h
  | .bracket _, h => by cases h
  | .invalid _ _ _, h => by cases h
  | .pair _ _ _ _ _ _, h => by cases h
  | .list key height length missing items, h => by
      have hOpened :=
        (Regroups.opened key height length missing items).ahead
          [item]
      rw [growRight] at h
      rcases Checked.bind_eq_ok_iff.1 h with ⟨above, _, h⟩
      split_ifs at h
      · exact hOpened.trans (regroups_placeRight h)
      · rcases Checked.bind_eq_ok_iff.1 h with
          ⟨⟨others, rest⟩, hLast, h⟩
        exact hOpened.trans
          ((regroups_growLast items hLast).trans
            (regroups_settleRight h))

theorem regroups_growLast
    {item : Node}
    {grown : List Node}
    {extra : Option Node} :
    (items : List Node) →
      growLast item items = .ok (grown, extra) →
        Regroups (items ++ [item]) (grown ++ extra.toList)
  | [], h => by cases h
  | [last], h => by
      rcases Checked.bind_eq_ok_iff.1 h with
        ⟨⟨node, rest⟩, hLast, h⟩
      cases h
      exact regroups_growRight last hLast
  | first :: second :: others, h => by
      rcases Checked.bind_eq_ok_iff.1 h with
        ⟨⟨nodes, rest⟩, hOthers, h⟩
      cases h
      exact (regroups_growLast (second :: others)
        hOthers).behind [first]

end

mutual

theorem regroups_growLeft
    {item grown : Node}
    {extra : Option Node} :
    (node : Node) →
      growLeft item node = .ok (grown, extra) →
        Regroups [item, node] (extra.toList ++ [grown])
  | .text _ _, h => by cases h
  | .bracket _, h => by cases h
  | .invalid _ _ _, h => by cases h
  | .pair _ _ _ _ _ _, h => by cases h
  | .list key height length missing items, h => by
      have hOpened :=
        (Regroups.opened key height length missing
          items).behind [item]
      rw [growLeft] at h
      rcases Checked.bind_eq_ok_iff.1 h with ⟨above, _, h⟩
      split_ifs at h
      · exact hOpened.trans (regroups_placeLeft h)
      · rcases Checked.bind_eq_ok_iff.1 h with
          ⟨⟨others, rest⟩, hFirst, h⟩
        exact hOpened.trans
          ((regroups_growFirst items hFirst).trans
            (regroups_settleLeft h))

theorem regroups_growFirst
    {item : Node}
    {grown : List Node}
    {extra : Option Node} :
    (items : List Node) →
      growFirst item items = .ok (grown, extra) →
        Regroups (item :: items) (extra.toList ++ grown)
  | [], h => by cases h
  | first :: others, h => by
      rcases Checked.bind_eq_ok_iff.1 h with
        ⟨⟨node, rest⟩, hFirst, h⟩
      cases h
      have hGrown :=
        (regroups_growLeft first hFirst).ahead others
      rwa [List.append_assoc] at hGrown

end

theorem regroups_append
    {list item node : Node}
    (h : list.append item = .ok node) :
    Regroups [list, item] [node] := by
  rw [append] at h
  rcases Checked.bind_eq_ok_iff.1 h with
    ⟨⟨grown, extra⟩, hGrown, h⟩
  have hGrown := regroups_growRight list hGrown
  cases extra with
  | none =>
      cases h
      exact hGrown
  | some other => exact hGrown.trans (regroups_list23 h)

theorem regroups_prepend
    {list item node : Node}
    (h : list.prepend item = .ok node) :
    Regroups [item, list] [node] := by
  rw [prepend] at h
  rcases Checked.bind_eq_ok_iff.1 h with
    ⟨⟨grown, extra⟩, hGrown, h⟩
  have hGrown := regroups_growLeft list hGrown
  cases extra with
  | none =>
      cases h
      exact hGrown
  | some other => exact hGrown.trans (regroups_list23 h)

/- Two trees are joined by regrouping them. -/
theorem regroups_concat
    {left right node : Node}
    (h : left.concat right = .ok node) :
    Regroups [left, right] [node] := by
  rw [concat] at h
  split_ifs at h
  · exact regroups_list23 h
  · exact regroups_append h
  · exact regroups_prepend h

end Node

end Bracketry

------------------------------------------------------------
-- Many Trees
------------------------------------------------------------

namespace Bracketry

namespace Node

theorem regroups_pairUp
    {items parents : List Node}
    (h : pairUp items = .ok parents) :
    Regroups items parents := by
  induction items using pairUp.induct generalizing parents with
  | case1 a b c =>
      rcases Checked.bind_eq_ok_iff.1 h with
        ⟨parent, hParent, h⟩
      cases h
      exact regroups_list23 hParent
  | case2 a b rest hRest ih =>
      rw [pairUp.eq_2 _ _ _ hRest] at h
      rcases Checked.bind_eq_ok_iff.1 h with
        ⟨parent, hParent, h⟩
      rcases Checked.bind_eq_ok_iff.1 h with
        ⟨others, hOthers, h⟩
      cases h
      exact .append (regroups_list23 hParent) (ih hOthers)
  | case3 items hThree hTwo =>
      rw [pairUp.eq_3 _ hThree hTwo] at h
      cases h
      exact .refl items

/- Each parent but the last has two of the items. -/
theorem length_pairUp
    {items parents : List Node}
    (h : pairUp items = .ok parents) :
    2 * parents.length ≤ items.length + 1 := by
  induction items using pairUp.induct generalizing parents with
  | case1 a b c =>
      rcases Checked.bind_eq_ok_iff.1 h with ⟨parent, _, h⟩
      cases h
      simp
  | case2 a b rest hRest ih =>
      rw [pairUp.eq_2 _ _ _ hRest] at h
      rcases Checked.bind_eq_ok_iff.1 h with ⟨parent, _, h⟩
      rcases Checked.bind_eq_ok_iff.1 h with
        ⟨others, hOthers, h⟩
      cases h
      have hLength := ih hOthers
      simp only [List.length_cons]
      omega
  | case3 items hThree hTwo =>
      rw [pairUp.eq_3 _ hThree hTwo] at h
      cases h
      rcases items with _ | ⟨a, _ | ⟨b, rest⟩⟩
      · decide
      · simp
      · exact absurd rfl (hTwo a b rest)

theorem regroups_crown
    {items : List Node}
    {root : Option Node}
    (hFew : items.length ≤ 3)
    (h : crown items = .ok root) :
    Regroups items root.toList := by
  rcases items with _ | ⟨a, _ | ⟨b, rest⟩⟩
  · cases h
    exact .refl []
  · cases h
    exact .refl [a]
  · rcases Checked.bind_eq_ok_iff.1 h with ⟨parent, hParent, h⟩
    cases h
    have hRest : rest.head?.toList = rest := by
      rcases rest with _ | ⟨c, _ | ⟨d, more⟩⟩
      · rfl
      · rfl
      · simp only [List.length_cons] at hFew
        omega
    rw [← hRest]
    exact regroups_list23 hParent

theorem regroups_raise
    {levels : Nat}
    {items : List Node}
    {root : Option Node}
    (hFew : items.length ≤ levels + 3)
    (h : raise levels items = .ok root) :
    Regroups items root.toList := by
  induction levels generalizing items with
  | zero => exact regroups_crown hFew h
  | succ levels ih =>
      rw [raise] at h
      split_ifs at h with hCrown
      · exact regroups_crown hCrown h
      · rcases Checked.bind_eq_ok_iff.1 h with
          ⟨parents, hParents, h⟩
        have hLength := length_pairUp hParents
        exact (regroups_pairUp hParents).trans
          (ih (by omega) h)

/- The tree of nodes of one height regroups them. -/
theorem regroups_concatEven
    {items : List Node}
    {root : Option Node}
    (h : concatEven items = .ok root) :
    Regroups items root.toList :=
  regroups_raise (Nat.le_add_right _ 3) h

/- A part that may be absent, or the list without items. -/
theorem regroups_getD
    (root : Option Node) :
    Regroups root.toList [root.getD emptyList] := by
  cases root with
  | none => exact .grouped 0 IdSet.empty rfl
  | some node => exact .refl [node]

theorem regroups_concatRun
    {run : List Node}
    {node : Node}
    (h : concatRun run = .ok node) :
    Regroups run [node] := by
  rcases Checked.bind_eq_ok_iff.1 h with ⟨root, hRoot, h⟩
  cases h
  exact (regroups_concatEven hRoot).trans (regroups_getD root)

theorem regroups_joinRuns
    {first second node : Node}
    {others : List (List Node)}
    (h : joinRuns first second others = .ok node) :
    Regroups (first :: second :: others.flatten) [node] := by
  induction others generalizing first second with
  | nil => exact regroups_concat h
  | cons run others ih =>
      rcases Checked.bind_eq_ok_iff.1 h with ⟨third, hThird, h⟩
      have hStart :
          Regroups (first :: second :: (run :: others).flatten)
            (first :: second :: third :: others.flatten) := by
        have hRun := (regroups_concatRun hThird).ahead
          others.flatten
        exact hRun.behind [first, second]
      split_ifs at h
      · rcases Checked.bind_eq_ok_iff.1 h with
          ⟨joined, hJoined, h⟩
        have hLeft := (regroups_concat hJoined).ahead
          (third :: others.flatten)
        exact hStart.trans (hLeft.trans (ih h))
      · rcases Checked.bind_eq_ok_iff.1 h with
          ⟨joined, hJoined, h⟩
        have hRight := ((regroups_concat hJoined).ahead
          others.flatten).behind [first]
        exact hStart.trans (hRight.trans (ih h))

/- The tree of nodes of any heights regroups them. -/
theorem regroups_concatAll
    {items : List Node}
    {root : Option Node}
    (h : concatAll items = .ok root) :
    Regroups items root.toList := by
  have hRuns := (runs_spec items).1
  unfold concatAll at h
  split at h
  · rename_i hNone
    rw [hNone] at hRuns
    cases h
    rw [← hRuns]
    exact .refl []
  · rename_i run hOne
    rw [hOne, List.flatten_singleton] at hRuns
    rw [← hRuns]
    exact regroups_concatEven h
  · rename_i first second others hMany
    rw [hMany] at hRuns
    rcases Checked.bind_eq_ok_iff.1 h with ⟨left, hLeft, h⟩
    rcases Checked.bind_eq_ok_iff.1 h with ⟨right, hRight, h⟩
    rcases Checked.bind_eq_ok_iff.1 h with ⟨node, hNode, h⟩
    cases h
    rw [← hRuns]
    have hTwo := (regroups_concatRun hLeft).append
      ((regroups_concatRun hRight).ahead others.flatten)
    exact hTwo.trans (regroups_joinRuns hNode)

end Node

end Bracketry

namespace Bracketry

namespace Parser

/- The items of a list are regrouped to its tree. -/
theorem regroups_joinItems
    {parser : Parser}
    {items : List Node}
    {root : Option Node}
    (h : parser.joinItems items = .ok root) :
    Node.Regroups items root.toList := by
  rw [joinItems] at h
  split_ifs at h
  · exact Node.regroups_concatAll h
  · exact Node.regroups_concatEven h

end Parser

end Bracketry
