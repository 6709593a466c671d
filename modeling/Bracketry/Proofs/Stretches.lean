import Bracketry.Proofs.LineStarts
import Bracketry.Proofs.Recalling

/-
  Trees over stretches of a text.

  A row of nodes occupies a stretch of characters if each
  node is as long as its part of it, its own parts occupy
  that, and text is settled.  Then the indentation of every
  node is the same wherever the stretch stands: it must begin
  a line in both texts or in none, and one more character
  behind it must have been kept.

  Key definitions include:
    * `Node.Occupy`
    * `BreakChar.IsIn`, `BreakChar.SameStretch`
    * `Node.SameValues`

  Main declarations:
    * `Node.Occupy.regroup`, `Node.Occupy.giveKeys`
    * `Node.Occupy.transfer`
-/

------------------------------------------------------------
-- Rows of Nodes
------------------------------------------------------------

namespace Bracketry

open Measured

namespace Node

/- Text, a bracket, or a bracket that closes nothing. -/
def IsLeaf : Node → Prop
  | .text _ _ => True
  | .bracket _ => True
  | .invalid _ _ _ => True
  | _ => False

/-
  Nodes stand for the parts of a stretch, one behind the
  other, with more characters behind them.
-/
inductive Occupy :
    List BreakChar → List BreakChar → List Node → Prop where
  | nil
    (behind : List BreakChar) :
    Occupy [] behind []
  | leaf
    {first more behind : List BreakChar}
    {node : Node}
    {rest : List Node}
    (hLeaf : node.IsLeaf)
    (hSize : extent first = node.length)
    (hWhole : BreakChar.IsWhole first)
    (hText :
      ∀ key length, node = .text key length →
        BreakChar.Settles true (more ++ behind) first)
    (hRest : Occupy more behind rest) :
    Occupy (first ++ more) behind (node :: rest)
  | pair
    {first more behind : List BreakChar}
    {length : Length}
    {leaf : Bracket}
    {child closing : Option Node}
    {rest : List Node}
    (key : Option Nat)
    (missing : IdSet)
    (hSize : extent first = length)
    (hClosing : ∀ last, closing = some last → last.IsBracket)
    (hParts :
      Occupy first (more ++ behind)
        (.bracket leaf :: (child.toList ++ closing.toList)))
    (hRest : Occupy more behind rest) :
    Occupy (first ++ more) behind
      (.pair key length missing (.bracket leaf) child
        closing :: rest)
  | list
    {first more behind : List BreakChar}
    {length : Length}
    {items rest : List Node}
    (key : Option Nat)
    (height : Nat)
    (missing : IdSet)
    (hSize : extent first = length)
    (hItems : Occupy first (more ++ behind) items)
    (hRest : Occupy more behind rest) :
    Occupy (first ++ more) behind
      (.list key height length missing items :: rest)

namespace Occupy

variable {part behind : List BreakChar} {node : Node}
variable {nodes rest : List Node}

/- A row is a node and the rest of it. -/
theorem exists_cons
    (h : Occupy part behind (node :: rest)) :
    ∃ first more,
      part = first ++ more ∧ extent first = node.length ∧
        Occupy first (more ++ behind) [node] ∧
        Occupy more behind rest := by
  cases h with
  | @leaf first more _ _ _ hLeaf hSize hWhole hText hRest =>
      have hOne :
          Occupy (first ++ []) (more ++ behind) [node] :=
        leaf hLeaf hSize hWhole hText (.nil _)
      rw [List.append_nil] at hOne
      exact ⟨first, more, rfl, hSize, hOne, hRest⟩
  | @pair first more _ length leaf child closing _ key missing
      hSize hClosing hParts hRest =>
      have hOne :
          Occupy (first ++ []) (more ++ behind)
            [.pair key length missing (.bracket leaf) child
              closing] :=
        pair key missing hSize hClosing hParts (.nil _)
      rw [List.append_nil] at hOne
      exact ⟨first, more, rfl, hSize, hOne, hRest⟩
  | @list first more _ length items _ key height missing hSize
      hItems hRest =>
      have hOne :
          Occupy (first ++ []) (more ++ behind)
            [.list key height length missing items] :=
        list key height missing hSize hItems (.nil _)
      rw [List.append_nil] at hOne
      exact ⟨first, more, rfl, hSize, hOne, hRest⟩

/- A node and a row behind it are a row. -/
theorem cons
    {first more : List BreakChar}
    (hNode : Occupy first (more ++ behind) [node])
    (hRest : Occupy more behind rest) :
    Occupy (first ++ more) behind (node :: rest) := by
  generalize hRow : [node] = row at hNode
  generalize hNext : more ++ behind = next at hNode
  subst hNext
  cases hNode with
  | nil => cases hRow
  | leaf hLeaf hSize hWhole hText hNil =>
      rcases List.cons.inj hRow with ⟨rfl, rfl⟩
      cases hNil
      rw [List.append_nil]
      exact leaf hLeaf hSize hWhole hText hRest
  | pair key missing hSize hClosing hParts hNil =>
      rcases List.cons.inj hRow with ⟨rfl, rfl⟩
      cases hNil
      rw [List.append_nil]
      exact pair key missing hSize hClosing hParts hRest
  | list key height missing hSize hItems hNil =>
      rcases List.cons.inj hRow with ⟨rfl, rfl⟩
      cases hNil
      rw [List.append_nil]
      exact list key height missing hSize hItems hRest

/- Two rows one behind the other are a row. -/
theorem append_iff
    {others : List Node} :
    Occupy part behind (nodes ++ others) ↔
      ∃ first more,
        part = first ++ more ∧
          Occupy first (more ++ behind) nodes ∧
          Occupy more behind others := by
  induction nodes generalizing part with
  | nil =>
      constructor
      · exact fun h => ⟨[], part, rfl, .nil _, h⟩
      · rintro ⟨_, more, rfl, hNil, hMore⟩
        cases hNil
        exact hMore
  | cons node rest ih =>
      constructor
      · intro h
        rcases h.exists_cons with
          ⟨first, more, rfl, _, hNode, hRest⟩
        rcases ih.1 hRest with
          ⟨middle, last, rfl, hMiddle, hLast⟩
        refine ⟨first ++ middle, last, by simp, ?_, hLast⟩
        rw [List.append_assoc] at hNode
        exact cons hNode hMiddle
      · rintro ⟨_, last, rfl, hFirst, hLast⟩
        rcases hFirst.exists_cons with
          ⟨first, middle, rfl, _, hNode, hMiddle⟩
        rw [List.append_assoc]
        refine cons ?_ (ih.2 ⟨middle, last, rfl, hMiddle, hLast⟩)
        rwa [List.append_assoc]

/- A row is as long as its nodes. -/
theorem extent_eq
    (h : Occupy part behind nodes) :
    extent part = (nodes.map Node.length).sum := by
  induction nodes generalizing part with
  | nil =>
      cases h
      rfl
  | cons node rest ih =>
      rcases h.exists_cons with
        ⟨first, more, rfl, hSize, _, hRest⟩
      rw [extent_append, hSize, ih hRest, List.map_cons,
        List.sum_cons]

/- No node ends inside a line break. -/
theorem isWhole
    (h : Occupy part behind nodes) :
    BreakChar.IsWhole part := by
  induction h with
  | nil => exact BreakChar.isWhole_nil
  | leaf _ _ hWhole _ _ ih =>
      exact BreakChar.isWhole_append hWhole ih
  | pair _ _ _ _ _ _ ihParts ih =>
      exact BreakChar.isWhole_append ihParts ih
  | list _ _ _ _ _ _ ihItems ih =>
      exact BreakChar.isWhole_append ihItems ih

/- The parts of a node occupy what it occupies. -/
theorem children
    (h : Occupy part behind [node]) :
    node.children = [] ∨
      Occupy part behind node.children := by
  cases h with
  | leaf hLeaf _ _ _ _ =>
      left
      cases node <;> first | rfl | cases hLeaf
  | pair _ _ _ _ hParts hRest =>
      cases hRest
      rw [List.append_nil]
      exact .inr hParts
  | list _ _ _ _ hItems hRest =>
      cases hRest
      rw [List.append_nil]
      exact .inr hItems

end Occupy

end Node

end Bracketry

------------------------------------------------------------
-- Trees from Rows
------------------------------------------------------------

namespace Bracketry

open Measured

namespace Node

variable {content : Content} {base : IndentationCache}
variable {part behind : List BreakChar} {nodes : List Node}

theorem keyedValuesOfAll_append
    (start : Position)
    (a b : List Node) :
    keyedValuesOfAll content base start (a ++ b) =
      keyedValuesOfAll content base start a ++
        keyedValuesOfAll content base
          (start + (a.map Node.length).sum) b := by
  induction a generalizing start with
  | nil =>
      rw [List.map_nil, List.sum_nil, add_zero]
      rfl
  | cons node rest ih =>
      rw [List.cons_append, keyedValuesOfAll, ih,
        keyedValuesOfAll, List.append_assoc, List.map_cons,
        List.sum_cons, add_assoc]

/-
  A row that is regrouped occupies the same stretch, and the
  values of its lists are among those of the row.
-/
theorem Occupy.regroup
    {others : List Node}
    (hRegroups : Regroups nodes others)
    (h : Occupy part behind nodes) :
    Occupy part behind others ∧
      ∀ start,
        keyedValuesOfAll content base start others ⊆
          keyedValuesOfAll content base start nodes := by
  induction hRegroups generalizing part behind with
  | refl nodes => exact ⟨h, fun _ => List.Subset.refl _⟩
  | opened key height length missing items =>
      cases h with
      | leaf hLeaf _ _ _ _ => cases hLeaf
      | list _ _ _ _ hItems hRest =>
          cases hRest
          rw [List.append_nil]
          refine ⟨hItems, fun start => ?_⟩
          rw [keyedValuesOfAll, keyedValues]
          simp
  | grouped height missing hLength =>
      have hSize := h.extent_eq
      rw [← zero_add (List.sum _),
        ← Length.eq_of_foldlM hLength] at hSize
      have hOne : Occupy (part ++ []) behind [.list none _ _ _ _] :=
        .list none height missing hSize h (.nil behind)
      rw [List.append_nil] at hOne
      refine ⟨hOne, fun start => ?_⟩
      rw [keyedValuesOfAll, keyedValues]
      simp [keyedValuesOfAll]
  | append _ _ ihLeft ihRight =>
      rcases Occupy.append_iff.1 h with
        ⟨first, more, rfl, hFirst, hMore⟩
      rcases ihLeft hFirst with ⟨hLeft, hLeftKeys⟩
      rcases ihRight hMore with ⟨hRight, hRightKeys⟩
      refine ⟨Occupy.append_iff.2
        ⟨first, more, rfl, hLeft, hRight⟩, fun start => ?_⟩
      rw [keyedValuesOfAll_append, keyedValuesOfAll_append,
        ← hLeft.extent_eq, ← hFirst.extent_eq]
      intro entry hEntry
      rw [List.mem_append] at hEntry ⊢
      exact hEntry.imp (hLeftKeys _ ·) (hRightKeys _ ·)
  | trans _ _ ihFirst ihNext =>
      rcases ihFirst h with ⟨hMiddle, hKeys⟩
      rcases ihNext hMiddle with ⟨hLast, hMore⟩
      exact ⟨hLast, fun start =>
        List.Subset.trans (hMore start) (hKeys start)⟩

/- One node of a row is replaced by another. -/
theorem Occupy.replace
    (first : List Node)
    {node other : Node}
    {rest : List Node}
    (hNode :
      ∀ {part behind},
        Occupy part behind [node] → Occupy part behind [other])
    (h : Occupy part behind (first ++ node :: rest)) :
    Occupy part behind (first ++ other :: rest) := by
  rcases append_iff.1 h with
    ⟨before, ahead, rfl, hBefore, hAhead⟩
  rcases hAhead.exists_cons with
    ⟨middle, more, rfl, _, hMiddle, hMore⟩
  exact append_iff.2
    ⟨before, _, rfl, hBefore, (hNode hMiddle).cons hMore⟩

theorem Occupy.giveAllKeys
    (start : Nat)
    (hNodes :
      ∀ node ∈ nodes, ∀ next {part behind},
        Occupy part behind [node] →
          Occupy part behind [(Node.giveKeys next node).1])
    (h : Occupy part behind nodes) :
    Occupy part behind (Node.giveAllKeys start nodes).1 := by
  induction nodes generalizing part start with
  | nil => exact h
  | cons node rest ih =>
      rw [List.forall_mem_cons] at hNodes
      rcases h.exists_cons with
        ⟨first, more, rfl, _, hFirst, hMore⟩
      exact cons (hNodes.1 start hFirst)
        (ih _ hNodes.2 hMore)

/- Keys change nothing that a tree occupies. -/
theorem Occupy.giveKeys
    {node : Node}
    (next : Nat)
    (h : Occupy part behind [node]) :
    Occupy part behind [(Node.giveKeys next node).1] := by
  induction node using Node.induction
    generalizing part behind next with
  | text key length =>
      cases key with
      | some old => exact h
      | none =>
          cases h with
          | leaf _ hSize hWhole hText hRest =>
              refine .leaf trivial hSize hWhole ?_ hRest
              exact fun _ _ _ => hText none length rfl
  | bracket leaf => exact h
  | invalid key ids length =>
      cases key with
      | some old => exact h
      | none =>
          cases h with
          | leaf _ hSize hWhole hText hRest =>
              exact .leaf trivial hSize hWhole nofun hRest
  | pair key length missing opening child closing ih =>
      cases key with
      | some old => exact h
      | none =>
          cases h with
          | leaf hLeaf _ _ _ _ => cases hLeaf
          | pair _ _ hSize hClosing hParts hRest =>
              cases child with
              | none => exact .pair _ _ hSize hClosing hParts hRest
              | some node =>
                  refine .pair _ _ hSize hClosing ?_ hRest
                  exact hParts.replace [_] (ih node rfl _)
  | list key height length missing items ih =>
      cases key with
      | some old => exact h
      | none =>
          cases h with
          | leaf hLeaf _ _ _ _ => cases hLeaf
          | list _ _ _ hSize hItems hRest =>
              exact .list _ _ _ hSize
                (hItems.giveAllKeys _ fun item hItem _ _ _ =>
                  ih item hItem _) hRest

theorem mem_keyedValues_giveAllKeys
    {items : List Node}
    (start : Position)
    (first : Nat)
    (hItems :
      ∀ item ∈ items, ∀ next start,
        ∀ entry ∈
            keyedValues content base start
              (giveKeys next item).1,
          entry ∈ keyedValues content base start item ∨
            next ≤ entry.1) :
    ∀ entry ∈
        keyedValuesOfAll content base start
          (giveAllKeys first items).1,
      entry ∈ keyedValuesOfAll content base start items ∨
        first ≤ entry.1 := by
  induction items generalizing start first with
  | nil => nofun
  | cons item rest ih =>
      rw [List.forall_mem_cons] at hItems
      intro entry hEntry
      rw [giveAllKeys, keyedValuesOfAll,
        (isRekeyed_giveKeys item first).length,
        List.mem_append] at hEntry
      rw [keyedValuesOfAll, List.mem_append]
      rcases hEntry with hItem | hRest
      · exact (hItems.1 first start entry hItem).imp .inl id
      · exact (ih _ _ hItems.2 entry hRest).imp .inr
          (Nat.le_trans (le_giveKeys item first))

/-
  The values in a tree with keys are those of the tree, or of
  keys that were given.
-/
theorem mem_keyedValues_giveKeys
    (node : Node)
    (next : Nat)
    (start : Position) :
    ∀ entry ∈
        keyedValues content base start (giveKeys next node).1,
      entry ∈ keyedValues content base start node ∨
        next ≤ entry.1 := by
  induction node using Node.induction
    generalizing next start with
  | text key length => cases key <;> nofun
  | bracket leaf => nofun
  | invalid key ids length => cases key <;> nofun
  | pair key length missing opening child closing ih =>
      cases key with
      | some old => exact fun _ => .inl
      | none =>
          cases child with
          | none => nofun
          | some node =>
              intro entry hEntry
              exact (ih node rfl (next + 1) _ entry hEntry).imp
                id Nat.le_of_succ_le
  | list key height length missing items ih =>
      cases key with
      | some old => exact fun _ => .inl
      | none =>
          intro entry hEntry
          rw [giveKeys, keyedValues, List.mem_append] at hEntry
          rcases hEntry with hHere | hItems
          · rcases List.mem_map.1 hHere with ⟨_, hKey, rfl⟩
            rw [Option.mem_toList] at hKey
            exact .inr (Nat.le_of_eq (Option.some.inj hKey))
          · rw [keyedValues, List.mem_append]
            exact (mem_keyedValues_giveAllKeys start (next + 1)
              ih entry hItems).imp .inr Nat.le_of_succ_le

end Node

end Bracketry

------------------------------------------------------------
-- One Stretch in Two Texts
------------------------------------------------------------

namespace Bracketry

open Measured

namespace BreakChar

/- The stretch lies between two others in short content. -/
def IsIn
    (content : Content)
    (before part behind : List BreakChar) :
    Prop :=
  ∃ text rest,
    content.lines = Line.split text ∧ Text.IsShort text ∧
      ofText text = before ++ (part ++ rest) ∧
      behind = rest ++ pads

/- Behind two stretches the next character is kept. -/
def StaysBehind
    (old new : List BreakChar) :
    Prop :=
  ∃ next behind other others,
    old = next :: behind ∧ new = other :: others ∧
      Stays next other

theorem StaysBehind.append
    {old new : List BreakChar}
    (part : List BreakChar)
    (h : StaysBehind old new) :
    StaysBehind (part ++ old) (part ++ new) := by
  cases part with
  | nil => exact h
  | cons char rest =>
      exact ⟨char, _, char, _, rfl, rfl, .refl char⟩

/-
  A stretch has the same surroundings in two texts: it begins
  a line in both or in none, and the character behind it is
  kept.
-/
structure SameStretch
    (content other : Content)
    (before newBefore part behind newBehind : List BreakChar) :
    Prop where
  tabSize : other.tabSize = content.tabSize
  here : IsIn content before part behind
  there : IsIn other newBefore part newBehind
  begins : endsLine true newBefore = endsLine true before
  stays : StaysBehind behind newBehind

variable {content other : Content}
variable {before newBefore first more behind newBehind part :
  List BreakChar}

theorem IsIn.left
    (h : IsIn content before (first ++ more) behind) :
    IsIn content before first (more ++ behind) := by
  rcases h with ⟨text, rest, hLines, hShort, hText, rfl⟩
  exact ⟨text, more ++ rest, hLines, hShort, by simp [hText],
    by simp⟩

theorem IsIn.right
    (h : IsIn content before (first ++ more) behind) :
    IsIn content (before ++ first) more behind := by
  rcases h with ⟨text, rest, hLines, hShort, hText, rfl⟩
  exact ⟨text, rest, hLines, hShort, by simp [hText], rfl⟩

/- The places in a stretch fit. -/
theorem IsIn.fits
    (h : IsIn content before part behind) :
    (extent before + extent part).Fits := by
  rcases h with ⟨text, rest, _, hShort, hText, rfl⟩
  have hFits :=
    (isSmall_ofText hShort).fitsFrom (before ++ part)
      (rest ++ pads) (by simp [hText])
  rwa [zero_add, extent_append] at hFits

theorem SameStretch.left
    (h :
      SameStretch content other before newBefore
        (first ++ more) behind newBehind) :
    SameStretch content other before newBefore first
      (more ++ behind) (more ++ newBehind) :=
  ⟨h.tabSize, h.here.left, h.there.left, h.begins,
    h.stays.append more⟩

theorem SameStretch.right
    (h :
      SameStretch content other before newBefore
        (first ++ more) behind newBehind) :
    SameStretch content other (before ++ first)
      (newBefore ++ first) more behind newBehind where
  tabSize := h.tabSize
  here := h.here.right
  there := h.there.right
  begins := by rw [endsLine_append, endsLine_append, h.begins]
  stays := h.stays

/- Settled text has the same indentation in both. -/
theorem SameStretch.textIndentation_eq
    (h :
      SameStretch content other before newBefore part behind
        newBehind)
    (hSettles : Settles true behind part) :
    Node.textIndentation content (extent before)
        (extent part) =
      Node.textIndentation other (extent newBefore)
        (extent part) := by
  rcases h.here with ⟨text, rest, hLines, hShort, hText, rfl⟩
  rcases h.there with
    ⟨new, newRest, hNewLines, hNewShort, hNewText, rfl⟩
  rw [BreakChar.textIndentation_eq hLines hShort hText,
    BreakChar.textIndentation_eq hNewLines hNewShort hNewText,
    h.tabSize, h.begins]
  rcases h.stays with
    ⟨next, behind, other, others, hOld, hNew, hNext⟩
  rw [hOld] at hSettles ⊢
  rw [hNew]
  exact leastAt_starts_congr others hNext (hSettles.mono _)

end BreakChar

end Bracketry

------------------------------------------------------------
-- One Tree in Two Texts
------------------------------------------------------------

namespace Bracketry

open Measured

namespace Node

/- Each node of a row has the same values at two places. -/
def SameValues
    (content other : Content) :
    Position → Position → List Node → Prop
  | _, _, [] => True
  | start, place, node :: rest =>
      recalled content .empty start node =
          recalled other .empty place node ∧
        keyedValues content .empty start node =
          keyedValues other .empty place node ∧
        SameValues content other (start + node.length)
          (place + node.length) rest

variable {content other : Content}
variable {before newBefore part behind newBehind : List BreakChar}
variable {nodes : List Node}

/- So has the row. -/
theorem SameValues.all
    (hSame :
      BreakChar.SameStretch content other before newBefore part
        behind newBehind)
    (hOccupy : Occupy part behind nodes)
    (h :
      SameValues content other (extent before)
        (extent newBefore) nodes) :
    recalledOfAll content .empty (extent before) nodes =
        recalledOfAll other .empty (extent newBefore) nodes ∧
      keyedValuesOfAll content .empty (extent before) nodes =
        keyedValuesOfAll other .empty (extent newBefore)
          nodes := by
  induction nodes generalizing before newBefore part with
  | nil => exact ⟨rfl, rfl⟩
  | cons node rest ih =>
      rcases hOccupy.exists_cons with
        ⟨first, more, rfl, hSize, _, hMore⟩
      rcases h with ⟨hRecalled, hKeyed, hRest⟩
      rw [← hSize, ← extent_append, ← extent_append] at hRest
      rcases ih hSame.right hMore hRest with
        ⟨hRecalledRest, hKeyedRest⟩
      rw [extent_append, extent_append]
        at hRecalledRest hKeyedRest
      constructor
      · rw [recalledOfAll, recalledOfAll, hRecalled, ← hSize,
          Length.plus_eq_ok hSame.left.here.fits,
          Length.plus_eq_ok hSame.left.there.fits]
        simp only [bind, Except.bind, hRecalledRest]
      · rw [keyedValuesOfAll, keyedValuesOfAll, hKeyed, ← hSize,
          hKeyedRest]

theorem recalled_list
    (content : Content)
    (start : Position)
    (key : Option Nat)
    (height : Nat)
    (length : Length)
    (missing : IdSet)
    (items : List Node) :
    recalled content .empty start
        (.list key height length missing items) =
      recalledOfAll content .empty start items := by
  rw [recalled]
  cases key <;> rfl

/- A leaf has the same values. -/
theorem sameValues_leaf
    {node : Node}
    (hLeaf : node.IsLeaf)
    (hSize : extent part = node.length)
    (hText :
      ∀ key length, node = .text key length →
        BreakChar.Settles true behind part)
    (hSame :
      BreakChar.SameStretch content other before newBefore part
        behind newBehind) :
    recalled content .empty (extent before) node =
        recalled other .empty (extent newBefore) node ∧
      keyedValues content .empty (extent before) node =
        keyedValues other .empty (extent newBefore) node := by
  cases node with
  | text key length =>
      have hIndentation :=
        hSame.textIndentation_eq (hText key length rfl)
      rw [hSize] at hIndentation
      exact ⟨hIndentation, rfl⟩
  | bracket leaf => exact ⟨rfl, rfl⟩
  | invalid key ids length => exact ⟨rfl, rfl⟩
  | pair key length missing opening child closing =>
      cases hLeaf
  | list key height length missing items => cases hLeaf

/- A pair has the values of its inside. -/
theorem sameValues_pair
    {leaf : Bracket}
    {child closing : Option Node}
    (key : Option Nat)
    (length : Length)
    (missing : IdSet)
    (hFits :
      (extent before + leaf.length).Fits ∧
        (extent newBefore + leaf.length).Fits)
    (h :
      SameValues content other (extent before)
        (extent newBefore)
        (.bracket leaf ::
          (child.toList ++ closing.toList))) :
    recalled content .empty (extent before)
          (.pair key length missing (.bracket leaf) child
            closing) =
        recalled other .empty (extent newBefore)
          (.pair key length missing (.bracket leaf) child
            closing) ∧
      keyedValues content .empty (extent before)
          (.pair key length missing (.bracket leaf) child
            closing) =
        keyedValues other .empty (extent newBefore)
          (.pair key length missing (.bracket leaf) child
            closing) := by
  cases child with
  | none => exact ⟨rfl, rfl⟩
  | some node =>
      rcases h with ⟨_, _, hRecalled, hKeyed, _⟩
      refine ⟨?_, hKeyed⟩
      have hLength : (Node.bracket leaf).length = leaf.length :=
        rfl
      rw [recalled, recalled, hLength,
        Length.plus_eq_ok hFits.1, Length.plus_eq_ok hFits.2]
      exact hRecalled

/-
  A row that occupies a stretch in one text occupies it in
  the other, with the same values.  The induction is on the
  row: text is settled, and a list or a pair has the values
  of its parts.
-/
theorem Occupy.transfer
    (h : Occupy part behind nodes)
    (hSame :
      BreakChar.SameStretch content other before newBefore part
        behind newBehind) :
    Occupy part newBehind nodes ∧
      SameValues content other (extent before)
        (extent newBefore) nodes := by
  induction h generalizing before newBefore newBehind with
  | nil behind => exact ⟨.nil newBehind, trivial⟩
  | leaf hLeaf hSize hWhole hText hRest ih =>
      rcases ih hSame.right with ⟨hMore, hOthers⟩
      rcases sameValues_leaf hLeaf hSize hText hSame.left with
        ⟨hRecalled, hKeyed⟩
      refine ⟨.leaf hLeaf hSize hWhole ?_ hMore, hRecalled,
        hKeyed, ?_⟩
      · intro key length hNode
        have hSettles := hText key length hNode
        rcases hSame.left.stays with
          ⟨_, _, _, others, hOld, hNew, hNext⟩
        rw [hOld] at hSettles
        rw [hNew]
        exact hSettles.stays others hNext
      · rw [← hSize, ← extent_append, ← extent_append]
        exact hOthers
  | pair key missing hSize hClosing hParts hRest ihParts ih =>
      rcases ih hSame.right with ⟨hMore, hOthers⟩
      rcases ihParts hSame.left with ⟨hNewParts, hValues⟩
      rcases hParts.exists_cons with
        ⟨opening, inside, rfl, hOpening, _, _⟩
      have hFits :=
        And.intro hSame.left.left.here.fits
          hSame.left.left.there.fits
      rw [hOpening] at hFits
      rcases sameValues_pair key _ missing hFits hValues with
        ⟨hRecalled, hKeyed⟩
      refine ⟨.pair key missing hSize hClosing hNewParts hMore,
        hRecalled, hKeyed, ?_⟩
      rw [Node.length, ← hSize, ← extent_append, ← extent_append]
      exact hOthers
  | list key height missing hSize hItems hRest ihItems ih =>
      rcases ih hSame.right with ⟨hMore, hOthers⟩
      rcases ihItems hSame.left with ⟨hNewItems, hValues⟩
      rcases hValues.all hSame.left hItems with
        ⟨hRecalled, hKeyed⟩
      refine ⟨.list key height missing hSize hNewItems hMore,
        ?_, ?_, ?_⟩
      · rw [recalled_list, recalled_list, hRecalled]
      · rw [keyedValues, keyedValues, recalled_list,
          recalled_list, hRecalled, hKeyed]
      · rw [Node.length, ← hSize, ← extent_append,
          ← extent_append]
        exact hOthers

end Node

end Bracketry
