import Bracketry.Proofs.Walking
import Bracketry.Proofs.Parses

/-
  What a reader hands out.

  A tree is laid out when no node is empty, the parts of a
  node fill it, and every node ends within 32 bits.  Then a
  reader that is asked for ever later offsets, with a test
  of its own each time, hands out the outermost node that
  starts at the offset and passes the test, and nothing only
  if there is no such node.  What it was asked before does
  not matter.

  The reader faces a row of nodes, one behind the other.  It
  drops the first, or has the children come in its place,
  and never loses a node that starts at an offset it may
  still be asked for.

  Key definitions include:
    * `Node.HasPartAt`, `Node.IsLaidOut`
    * `Node.IsOutermost`
    * `NodeReader.Faces`, `NodeReader.IsAsked`

  Main declarations:
    * `NodeReader.Faces.walk_spec`
    * `NodeReader.IsAsked.stands`
    * `NodeReader.readLongestAt_of_isAsked`
-/

------------------------------------------------------------
-- Parts and Their Places
------------------------------------------------------------

namespace Bracketry

namespace Node

/-
  A node that starts at a place is, or holds somewhere
  inside, a part that starts at another.
-/
inductive HasPartAt :
    Position → Node → Position → Node → Prop where
  | self (start : Position) (node : Node) :
      HasPartAt start node start node
  | inside
      {start first place : Position}
      {node child part : Node}
      (hChild :
        (first, child) ∈ placed start node.children)
      (hPart : HasPartAt first child place part) :
      HasPartAt start node place part

/- One of the nodes that start at a place is or holds it. -/
def HavePartAt
    (start : Position)
    (nodes : List Node)
    (place : Position)
    (part : Node) :
    Prop :=
  ∃ row ∈ placed start nodes,
    HasPartAt row.1 row.2 place part

theorem hasPartAt_iff
    {start place : Position}
    {node part : Node} :
    HasPartAt start node place part ↔
      (place = start ∧ part = node) ∨
        HavePartAt start node.children place part := by
  constructor
  · intro h
    cases h with
    | self => exact .inl ⟨rfl, rfl⟩
    | inside hChild hPart => exact .inr ⟨_, hChild, hPart⟩
  · rintro (⟨rfl, rfl⟩ | ⟨row, hRow, hPart⟩)
    · exact .self _ _
    · exact .inside hRow hPart

@[simp] theorem havePartAt_nil
    {start place : Position}
    {part : Node} :
    ¬ HavePartAt start [] place part := by
  simp [HavePartAt, placed]

theorem havePartAt_cons
    {start place : Position}
    {node part : Node}
    {rest : List Node} :
    HavePartAt start (node :: rest) place part ↔
      HasPartAt start node place part ∨
        HavePartAt (start + node.length) rest place part := by
  simp [HavePartAt, placed]

theorem placed_append
    (start : Position)
    (a b : List Node) :
    placed start (a ++ b) =
      placed start a ++
        placed (start + (a.map length).sum) b := by
  induction a generalizing start with
  | nil => simp [placed]
  | cons node rest ih => simp [placed, ih, add_assoc]

theorem havePartAt_append
    {start place : Position}
    {a b : List Node}
    {part : Node} :
    HavePartAt start (a ++ b) place part ↔
      HavePartAt start a place part ∨
        HavePartAt (start + (a.map length).sum) b place
          part := by
  simp only [HavePartAt, placed_append, List.mem_append,
    or_and_right, exists_or]

theorem sizeAll_append
    (a b : List Node) :
    sizeAll (a ++ b) = sizeAll a + sizeAll b := by
  induction a with
  | nil => simp [sizeAll]
  | cons node rest ih => simp [sizeAll, ih, Nat.add_assoc]

/- Nodes in a row lie between the first and the last. -/
theorem le_of_mem_placed
    {start : Position}
    {nodes : List Node}
    {row : Position × Node}
    (h : row ∈ placed start nodes) :
    start ≤ row.1 ∧
      row.1 + row.2.length ≤
        start + (nodes.map length).sum := by
  induction nodes generalizing start with
  | nil => cases h
  | cons node rest ih =>
      rw [List.map_cons, List.sum_cons, ← add_assoc]
      rcases List.mem_cons.1 h with rfl | hRest
      · exact ⟨le_refl _, Length.le_add_right _ _⟩
      · rcases ih hRest with ⟨hStart, hStop⟩
        exact ⟨(Length.le_add_right _ _).trans hStart, hStop⟩

end Node

end Bracketry

------------------------------------------------------------
-- Trees That Are Laid Out
------------------------------------------------------------

namespace Bracketry

namespace Node

/-
  No part is empty, the parts of each fill it, and each ends
  at a place that fits.
-/
structure IsLaidOut
    (start : Position)
    (node : Node) :
    Prop where
  ne_zero :
    ∀ place part, HasPartAt start node place part →
      part.length ≠ 0
  sum_eq :
    ∀ place part, HasPartAt start node place part →
      part.children ≠ [] →
        (part.children.map length).sum = part.length
  fits :
    ∀ place part, HasPartAt start node place part →
      (place + part.length).Fits

/- All nodes in a row are laid out. -/
def AreLaidOut
    (start : Position)
    (nodes : List Node) :
    Prop :=
  ∀ row ∈ placed start nodes, IsLaidOut row.1 row.2

@[simp] theorem areLaidOut_nil
    (start : Position) :
    AreLaidOut start [] := by
  simp [AreLaidOut, placed]

theorem areLaidOut_cons
    {start : Position}
    {node : Node}
    {rest : List Node} :
    AreLaidOut start (node :: rest) ↔
      IsLaidOut start node ∧
        AreLaidOut (start + node.length) rest := by
  simp [AreLaidOut, placed]

theorem IsLaidOut.children
    {start : Position}
    {node : Node}
    (h : IsLaidOut start node) :
    AreLaidOut start node.children := by
  intro row hRow
  exact ⟨fun place part hPart =>
      h.ne_zero place part (.inside hRow hPart),
    fun place part hPart =>
      h.sum_eq place part (.inside hRow hPart),
    fun place part hPart =>
      h.fits place part (.inside hRow hPart)⟩

theorem isLaidOut_iff
    {start : Position}
    {node : Node} :
    IsLaidOut start node ↔
      node.length ≠ 0 ∧
        (node.children ≠ [] →
          (node.children.map length).sum = node.length) ∧
        (start + node.length).Fits ∧
        AreLaidOut start node.children := by
  constructor
  · intro h
    have hSelf := HasPartAt.self start node
    exact ⟨h.ne_zero _ _ hSelf, h.sum_eq _ _ hSelf,
      h.fits _ _ hSelf, h.children⟩
  · rintro ⟨hLength, hSum, hFits, hChildren⟩
    refine ⟨?_, ?_, ?_⟩
    · intro place part hPart
      rcases hasPartAt_iff.1 hPart with
        ⟨rfl, rfl⟩ | ⟨row, hRow, hInside⟩
      · exact hLength
      · exact (hChildren row hRow).ne_zero _ _ hInside
    · intro place part hPart
      rcases hasPartAt_iff.1 hPart with
        ⟨rfl, rfl⟩ | ⟨row, hRow, hInside⟩
      · exact hSum
      · exact (hChildren row hRow).sum_eq _ _ hInside
    · intro place part hPart
      rcases hasPartAt_iff.1 hPart with
        ⟨rfl, rfl⟩ | ⟨row, hRow, hInside⟩
      · exact hFits
      · exact (hChildren row hRow).fits _ _ hInside

/- The children of a node come in its place. -/
theorem AreLaidOut.enter
    {start : Position}
    {node : Node}
    {rest : List Node}
    (hSome : node.children ≠ [])
    (h : AreLaidOut start (node :: rest)) :
    AreLaidOut start (node.children ++ rest) := by
  rcases areLaidOut_cons.1 h with ⟨hNode, hRest⟩
  have hSum := hNode.sum_eq start node (.self _ _) hSome
  intro row hRow
  rw [placed_append, hSum] at hRow
  rcases List.mem_append.1 hRow with hChild | hRow
  · exact hNode.children row hChild
  · exact hRest row hRow

/- A part lies between the start and the end. -/
theorem HasPartAt.le
    {start place : Position}
    {node part : Node}
    (hNode : IsLaidOut start node)
    (h : HasPartAt start node place part) :
    start ≤ place ∧
      place + part.length ≤ start + node.length := by
  induction h with
  | self start node => exact ⟨le_refl _, le_refl _⟩
  | @inside start first place node child part hChild hPart
      ih =>
      rcases ih (hNode.children _ hChild) with ⟨hFirst, hLast⟩
      rcases le_of_mem_placed hChild with ⟨hStart, hStop⟩
      have hSome : node.children ≠ [] := by
        intro hNone
        rw [hNone] at hChild
        cases hChild
      rw [hNode.sum_eq start node (.self _ _) hSome] at hStop
      exact ⟨hStart.trans hFirst, hLast.trans hStop⟩

theorem HasPartAt.lt_stop
    {start place : Position}
    {node part : Node}
    (hNode : IsLaidOut start node)
    (h : HasPartAt start node place part) :
    place < start + node.length := by
  have hPart := hNode.ne_zero place part h
  exact (Length.lt_add_right hPart).trans_le (h.le hNode).2

/- No part of nodes in a row starts before the first. -/
theorem HavePartAt.le
    {start place : Position}
    {nodes : List Node}
    {part : Node}
    (hNodes : AreLaidOut start nodes)
    (h : HavePartAt start nodes place part) :
    start ≤ place := by
  rcases h with ⟨row, hRow, hPart⟩
  exact (le_of_mem_placed hRow).1.trans
    (hPart.le (hNodes row hRow)).1

/- Behind the first node, parts are those of the others. -/
theorem havePartAt_cons_of_le
    {start place : Position}
    {node part : Node}
    {rest : List Node}
    (hNodes : AreLaidOut start (node :: rest))
    (hPlace : start + node.length ≤ place) :
    HavePartAt start (node :: rest) place part ↔
      HavePartAt (start + node.length) rest place part := by
  rw [havePartAt_cons, or_iff_right]
  intro hPart
  have hNode := (areLaidOut_cons.1 hNodes).1
  exact absurd (hPart.lt_stop hNode) (not_lt.2 hPlace)

/- A leaf is the one part of itself. -/
theorem havePartAt_cons_of_leaf
    {start place : Position}
    {node part : Node}
    {rest : List Node}
    (hLeaf : node.children = [])
    (hOther : ¬ (place = start ∧ part = node)) :
    HavePartAt start (node :: rest) place part ↔
      HavePartAt (start + node.length) rest place part := by
  rw [havePartAt_cons, hasPartAt_iff, hLeaf, or_iff_right]
  rintro (hSelf | hNone)
  · exact hOther hSelf
  · exact havePartAt_nil hNone

/- All other parts of a node are parts of its children. -/
theorem havePartAt_enter
    {start place : Position}
    {node part : Node}
    {rest : List Node}
    (hNodes : AreLaidOut start (node :: rest))
    (hSome : node.children ≠ [])
    (hOther : ¬ (place = start ∧ part = node)) :
    HavePartAt start (node :: rest) place part ↔
      HavePartAt start (node.children ++ rest) place part
    := by
  have hNode := (areLaidOut_cons.1 hNodes).1
  rw [havePartAt_cons, havePartAt_append, hasPartAt_iff,
    hNode.sum_eq start node (.self _ _) hSome,
    or_iff_right hOther]

end Node

end Bracketry

------------------------------------------------------------
-- Rows That a Reader Faces
------------------------------------------------------------

namespace Bracketry

namespace NodeReader

open Node

/- What lies ahead are some nodes, one behind the other. -/
structure Faces
    (reader : NodeReader)
    (place : Position)
    (nodes : List Node) :
    Prop where
  ahead_eq : reader.ahead = placed place nodes
  laidOut : AreLaidOut place nodes

/- There is a next node wherever others come behind. -/
theorem exists_nextBehind
    {start stop : Position}
    {length : Length}
    {behind : List Siblings}
    {rest : List Node}
    (hStop : stop.Fits)
    (h : placedBehind (start + length) behind =
      placed stop rest) :
    ∃ current upper,
      nextBehind start length behind =
        .ok (current, upper) := by
  induction behind generalizing start length with
  | nil => exact ⟨none, [], rfl⟩
  | cons siblings above ih =>
      rcases siblings with ⟨nodes, parentStart, parentLength⟩
      cases nodes with
      | nil => exact ih h
      | cons node others =>
          cases rest with
          | nil => cases h
          | cons first last =>
              injection h with hFirst _
              injection hFirst with hPlace _
              rw [nextBehind, Length.plus_eq_ok
                (hPlace ▸ hStop)]
              exact ⟨_, _, rfl⟩

variable {reader : NodeReader}
variable {place : Position}
variable {node : Node}
variable {nodes rest : List Node}

theorem Faces.eq_nil
    (h : reader.Faces place nodes)
    (hCurrent : reader.current = none) :
    nodes = [] := by
  have hAhead := h.ahead_eq
  rw [ahead, hCurrent] at hAhead
  cases nodes with
  | nil => rfl
  | cons node rest => cases hAhead

/- The current node is the first that is faced. -/
theorem Faces.eq_cons
    {start : Position}
    (h : reader.Faces place nodes)
    (hCurrent : reader.current = some (node, start)) :
    start = place ∧
      ∃ rest,
        nodes = node :: rest ∧
          placedBehind (place + node.length) reader.behind =
            placed (place + node.length) rest := by
  have hAhead := h.ahead_eq
  rw [ahead, hCurrent] at hAhead
  cases nodes with
  | nil => cases hAhead
  | cons first rest =>
      injection hAhead with hFirst hRest
      injection hFirst with hPlace hNode
      subst hPlace hNode
      exact ⟨rfl, rest, rfl, hRest⟩

/- A node that is left gives way to those behind it. -/
theorem Faces.exists_leave
    (h : reader.Faces place (node :: rest))
    (hBehind :
      placedBehind (place + node.length) reader.behind =
        placed (place + node.length) rest) :
    ∃ next,
      reader.leave node place = .ok next ∧
        next.Faces (place + node.length) rest ∧
        next.steps = reader.steps ∧
        next.lastOffset = reader.lastOffset := by
  rcases areLaidOut_cons.1 h.laidOut with ⟨hNode, hRest⟩
  have hFits := hNode.fits place node (.self _ _)
  rcases exists_nextBehind hFits hBehind with
    ⟨current, upper, hNext⟩
  have hLeave :
      reader.leave node place =
        .ok { reader with
          current := current, behind := upper } := by
    rw [leave, hNext]
    rfl
  refine ⟨_, hLeave, ⟨?_, hRest⟩, rfl, rfl⟩
  rw [ahead_leave hLeave, hBehind]

/- A node that is entered gives way to its children. -/
theorem Faces.exists_enter
    (h : reader.Faces place (node :: rest))
    (hBehind :
      placedBehind (place + node.length) reader.behind =
        placed (place + node.length) rest)
    (hSome : node.children ≠ []) :
    ∃ next,
      reader.enter? node place = some next ∧
        next.Faces place (node.children ++ rest) ∧
        next.steps = reader.steps ∧
        next.lastOffset = reader.lastOffset := by
  rcases List.exists_cons_of_ne_nil hSome with
    ⟨child, others, hChildren⟩
  have hEnter :
      reader.enter? node place =
        some { reader with
          current := some (child, place)
          behind :=
            ⟨others, place, node.length⟩ ::
              reader.behind } := by
    rw [enter?, hChildren]
  have hNode := (areLaidOut_cons.1 h.laidOut).1
  refine ⟨_, hEnter, ⟨?_, h.laidOut.enter hSome⟩, rfl, rfl⟩
  rw [ahead_enter hEnter, hBehind, placed_append,
    hNode.sum_eq place node (.self _ _) hSome]

end NodeReader

end Bracketry

------------------------------------------------------------
-- Walks of a Reader
------------------------------------------------------------

namespace Bracketry

/-
  Of the parts that are held, the node is one that starts at
  the offset and passes, and it has all others inside.
-/
def Node.IsOutermost
    (held : Position → Node → Prop)
    (offset : Position)
    (passes : Node → Bool)
    (node : Node) :
    Prop :=
  held offset node ∧ passes node = true ∧
    ∀ other, held offset other → passes other = true →
      Node.HasPartAt offset node offset other

namespace NodeReader

open Node

/-
  What may be asked for next: a later offset, and none
  inside a node that was handed out.
-/
def IsLater
    (offset : Position)
    (found : Option Node)
    (next : Position) :
    Prop :=
  offset < next ∧
    ∀ node, found = some node → offset + node.length ≤ next

/- What a reader that faces nodes answers, and faces then. -/
structure Answers
    (offset : Position)
    (passes : Node → Bool)
    (reader : NodeReader)
    (place : Position)
    (nodes : List Node)
    (found : Option Node)
    (after : NodeReader) :
    Prop where
  steps : after.steps = reader.steps
  lastOffset : after.lastOffset = reader.lastOffset
  outermost :
    ∀ node, found = some node →
      IsOutermost (HavePartAt place nodes) offset passes node
  nothing :
    found = none →
      ∀ part, HavePartAt place nodes offset part →
        passes part = false
  left :
    ∃ newPlace newNodes,
      after.Faces newPlace newNodes ∧
        sizeAll newNodes ≤ sizeAll nodes ∧
        ∀ next part, IsLater offset found next →
          (HavePartAt newPlace newNodes next part ↔
            HavePartAt place nodes next part)

/-
  A step that keeps all parts that start at the offset or
  later, but for some at the offset that fail, keeps the
  answer.
-/
theorem Answers.ofStep
    {offset place newPlace : Position}
    {passes : Node → Bool}
    {reader next after : NodeReader}
    {nodes newNodes : List Node}
    {found : Option Node}
    (hSteps : next.steps = reader.steps)
    (hOffset : next.lastOffset = reader.lastOffset)
    (hSize : sizeAll newNodes ≤ sizeAll nodes)
    (hSame :
      ∀ later part, offset ≤ later →
        (later = offset → passes part = true) →
          (HavePartAt newPlace newNodes later part ↔
            HavePartAt place nodes later part))
    (h :
      Answers offset passes next newPlace newNodes found
        after) :
    Answers offset passes reader place nodes found after := by
  rcases h.left with
    ⟨lastPlace, lastNodes, hFaces, hLess, hLeft⟩
  refine ⟨h.steps.trans hSteps, h.lastOffset.trans hOffset,
    ?_, ?_, lastPlace, lastNodes, hFaces,
    hLess.trans hSize, ?_⟩
  · intro node hNode
    rcases h.outermost node hNode with ⟨hHeld, hPasses, hOthers⟩
    refine ⟨(hSame offset node (le_refl _) fun _ =>
      hPasses).1 hHeld, hPasses, ?_⟩
    intro other hOther hOtherPasses
    apply hOthers other _ hOtherPasses
    exact (hSame offset other (le_refl _) fun _ =>
      hOtherPasses).2 hOther
  · intro hNone part hPart
    by_contra hNot
    rw [Bool.not_eq_false] at hNot
    have hHeld :=
      (hSame offset part (le_refl _) fun _ => hNot).2 hPart
    have hFails := h.nothing hNone part hHeld
    rw [hFails] at hNot
    cases hNot
  · intro later part hLater
    rw [hLeft later part hLater]
    exact hSame later part hLater.1.le
      fun hEq => absurd hEq hLater.1.ne'

/- Nothing starts at an offset before all that is faced. -/
theorem Faces.answers_before
    {reader : NodeReader}
    {offset place : Position}
    {nodes : List Node}
    (passes : Node → Bool)
    (h : reader.Faces place nodes)
    (hBefore : nodes = [] ∨ offset < place) :
    Answers offset passes reader place nodes none reader := by
  refine ⟨rfl, rfl, by simp, ?_, place, nodes, h,
    le_refl _, fun _ _ _ => Iff.rfl⟩
  intro _ part hPart
  rcases hBefore with rfl | hBefore
  · exact absurd hPart havePartAt_nil
  · exact absurd (hPart.le h.laidOut) (not_le.2 hBefore)

/- The first node is handed out, or it fails as a leaf. -/
theorem answers_here
    {reader next : NodeReader}
    {offset : Position}
    {node : Node}
    {rest : List Node}
    (passes : Node → Bool)
    (hDecided : passes node = true ∨ node.children = [])
    (hSteps : next.steps = reader.steps)
    (hOffset : next.lastOffset = reader.lastOffset)
    (h : AreLaidOut offset (node :: rest))
    (hNext : next.Faces (offset + node.length) rest) :
    Answers offset passes reader offset (node :: rest)
      (if passes node then some node else none) next := by
  have hStop : offset < offset + node.length := by
    have hNode := (areLaidOut_cons.1 h).1
    exact Length.lt_add_right
      (hNode.ne_zero offset node (.self _ _))
  -- What starts here lies in the first node.
  have hHere :
      ∀ part, HavePartAt offset (node :: rest) offset part →
        HasPartAt offset node offset part := by
    intro part hPart
    rcases havePartAt_cons.1 hPart with hFirst | hRest
    · exact hFirst
    · exact absurd (hRest.le (areLaidOut_cons.1 h).2)
        (not_le.2 hStop)
  have hSize : sizeAll rest ≤ sizeAll (node :: rest) := by
    rw [sizeAll]
    omega
  refine ⟨hSteps, hOffset, ?_, ?_, _, _, hNext, hSize, ?_⟩
  · intro found hFound
    split_ifs at hFound with hPasses
    rcases Option.some.inj hFound with rfl
    refine ⟨havePartAt_cons.2 (.inl (.self _ _)), hPasses,
      fun other hOther _ => hHere other hOther⟩
  · intro hNone part hPart
    split_ifs at hNone with hPasses
    have hLeaf := hDecided.resolve_left hPasses
    rcases hasPartAt_iff.1 (hHere part hPart) with
      ⟨_, rfl⟩ | hChild
    · exact Bool.not_eq_true _ ▸ hPasses
    · rw [hLeaf] at hChild
      exact absurd hChild havePartAt_nil
  · intro later part hLater
    by_cases hPasses : passes node = true
    · rw [if_pos hPasses] at hLater
      exact (havePartAt_cons_of_le h
        (hLater.2 node rfl)).symm
    · have hLeaf := hDecided.resolve_left hPasses
      exact (havePartAt_cons_of_leaf hLeaf fun hEq =>
        hLater.1.ne' hEq.1).symm

/- A first node that ends early or spans as a leaf is dropped. -/
theorem Answers.ofLeave
    {offset start : Position}
    {passes : Node → Bool}
    {reader next after : NodeReader}
    {node : Node}
    {rest : List Node}
    {found : Option Node}
    (hSteps : next.steps = reader.steps)
    (hOffset : next.lastOffset = reader.lastOffset)
    (hNodes : AreLaidOut start (node :: rest))
    (hBehind : start < offset)
    (hDrop :
      start + node.length ≤ offset ∨ node.children = [])
    (h :
      Answers offset passes next (start + node.length) rest
        found after) :
    Answers offset passes reader start (node :: rest) found
      after := by
  have hSize : sizeAll rest ≤ sizeAll (node :: rest) := by
    rw [sizeAll]
    omega
  refine h.ofStep hSteps hOffset hSize ?_
  intro later part hLater _
  rcases hDrop with hStop | hLeaf
  · exact (havePartAt_cons_of_le hNodes
      (hStop.trans hLater)).symm
  · refine (havePartAt_cons_of_leaf hLeaf ?_).symm
    rintro ⟨rfl, _⟩
    exact absurd hBehind (not_lt.2 hLater)

/- A first node that does not pass gives way to its children. -/
theorem Answers.ofEnter
    {offset start : Position}
    {passes : Node → Bool}
    {reader next after : NodeReader}
    {node : Node}
    {rest : List Node}
    {found : Option Node}
    (hSteps : next.steps = reader.steps)
    (hOffset : next.lastOffset = reader.lastOffset)
    (hNodes : AreLaidOut start (node :: rest))
    (hSome : node.children ≠ [])
    (hStart : start ≤ offset)
    (hFails : start = offset → passes node = false)
    (h :
      Answers offset passes next start
        (node.children ++ rest) found after) :
    Answers offset passes reader start (node :: rest) found
      after := by
  have hSize :
      sizeAll (node.children ++ rest) ≤
        sizeAll (node :: rest) := by
    rw [sizeAll_append, sizeAll, size_eq node]
    omega
  refine h.ofStep hSteps hOffset hSize ?_
  intro later part hLater hPasses
  refine (havePartAt_enter hNodes hSome ?_).symm
  rintro ⟨rfl, rfl⟩
  have hHere := le_antisymm hStart hLater
  rw [hFails hHere] at hPasses
  exact absurd (hPasses hHere) (by simp)

/- A walk leaves a node that offers nothing behind it. -/
theorem walk_leave
    {reader next : NodeReader}
    {offset start : Position}
    {node : Node}
    {steps : Nat}
    (test : Node → Checked Bool)
    (hCurrent : reader.current = some (node, start))
    (hFits : (start + node.length).Fits)
    (hLeave : reader.leave node start = .ok next)
    (hBehind : start < offset)
    (hDrop :
      start + node.length ≤ offset ∨ node.children = []) :
    reader.walk offset test (steps + 1) =
      next.walk offset test steps := by
  rw [walk, hCurrent]
  simp only [if_neg (not_lt.2 hBehind.le), if_pos hBehind,
    Length.plus_eq_ok hFits]
  by_cases hStop : start + node.length ≤ offset
  · simp [hStop, hLeave, bind, Except.bind]
  · have hLeaf := hDrop.resolve_left hStop
    simp [hStop, enter?, hLeaf, hLeave, bind, Except.bind]

/- A walk enters a node that spans the offset or fails. -/
theorem walk_enter
    {reader next : NodeReader}
    {offset start : Position}
    {passes : Node → Bool}
    {node : Node}
    {steps : Nat}
    (hCurrent : reader.current = some (node, start))
    (hFits : (start + node.length).Fits)
    (hEnter : reader.enter? node start = some next)
    (hStart : start ≤ offset)
    (hSpan : start < offset → offset < start + node.length)
    (hFails : start = offset → passes node = false) :
    reader.walk offset (fun node => .ok (passes node))
        (steps + 1) =
      next.walk offset (fun node => .ok (passes node)) steps
    := by
  rw [walk, hCurrent]
  simp only [if_neg (not_lt.2 hStart),
    Length.plus_eq_ok hFits]
  rcases hStart.lt_or_eq with hBehind | hHere
  · have hStop := not_le.2 (hSpan hBehind)
    simp [hBehind, hStop, hEnter, bind, Except.bind]
  · have hNot : ¬ start < offset := not_lt.2 hHere.ge
    simp [hNot, hFails hHere, hEnter, bind, Except.bind]

/- A walk ends at a node that passes, or fails as a leaf. -/
theorem walk_here
    {reader next : NodeReader}
    {offset : Position}
    {node : Node}
    {steps : Nat}
    (passes : Node → Bool)
    (hCurrent : reader.current = some (node, offset))
    (hLeave : reader.leave node offset = .ok next)
    (hDecided : passes node = true ∨ node.children = []) :
    reader.walk offset (fun node => .ok (passes node))
        (steps + 1) =
      .ok (if passes node then some node else none, next) := by
  rw [walk, hCurrent]
  simp only [if_neg (lt_irrefl offset)]
  by_cases hPasses : passes node = true
  · simp [hPasses, hLeave, bind, Except.bind, pure,
      Except.pure]
  · have hLeaf := hDecided.resolve_left hPasses
    simp [hPasses, enter?, hLeaf, hLeave, bind, Except.bind,
      pure, Except.pure]

/-
  A walk with enough steps answers.  The induction is on the
  steps; each drops the first node that is faced or has its
  children come in its place.
-/
theorem Faces.walk_spec
    {reader : NodeReader}
    {place : Position}
    {nodes : List Node}
    {steps : Nat}
    (offset : Position)
    (passes : Node → Bool)
    (h : reader.Faces place nodes)
    (hSteps : sizeAll nodes < steps) :
    ∃ found after,
      reader.walk offset (fun node => .ok (passes node))
          steps = .ok (found, after) ∧
        Answers offset passes reader place nodes found after
    := by
  induction steps generalizing reader place nodes with
  | zero => omega
  | succ steps ih =>
      cases hCurrent : reader.current with
      | none =>
          refine ⟨none, reader, by rw [walk, hCurrent], ?_⟩
          exact h.answers_before passes
            (.inl (h.eq_nil hCurrent))
      | some here =>
          rcases here with ⟨node, start⟩
          rcases h.eq_cons hCurrent with
            ⟨rfl, rest, rfl, hBehind⟩
          have hNode := (areLaidOut_cons.1 h.laidOut).1
          have hFits := hNode.fits start node (.self _ _)
          rw [sizeAll, size_eq node] at hSteps
          rcases h.exists_leave hBehind with
            ⟨left, hLeave, hLeft, hLeftSteps, hLeftOffset⟩
          by_cases hBefore : offset < start
          · refine ⟨none, reader, ?_,
              h.answers_before passes (.inr hBefore)⟩
            simp [walk, hCurrent, hBefore]
          have hStart := not_lt.1 hBefore
          by_cases hDrop :
              start < offset ∧
                (start + node.length ≤ offset ∨
                  node.children = [])
          · rcases ih hLeft (by omega) with
              ⟨found, after, hWalk, hAnswers⟩
            refine ⟨found, after, ?_,
              hAnswers.ofLeave hLeftSteps hLeftOffset
                h.laidOut hDrop.1 hDrop.2⟩
            rw [walk_leave _ hCurrent hFits hLeave hDrop.1
              hDrop.2, hWalk]
          by_cases hDecided :
              start = offset ∧
                (passes node = true ∨ node.children = [])
          · rcases hDecided with ⟨rfl, hDecided⟩
            exact ⟨_, left,
              walk_here passes hCurrent hLeave hDecided,
              answers_here passes hDecided hLeftSteps
                hLeftOffset h.laidOut hLeft⟩
          -- What is left has children to go on with.
          have hSome : node.children ≠ [] := by
            intro hLeaf
            rcases hStart.lt_or_eq with hEarly | hHere
            · exact hDrop ⟨hEarly, .inr hLeaf⟩
            · exact hDecided ⟨hHere, .inr hLeaf⟩
          have hSpan :
              start < offset → offset < start + node.length :=
            by
              intro hEarly
              by_contra hStop
              exact hDrop ⟨hEarly, .inl (not_lt.1 hStop)⟩
          have hFails :
              start = offset → passes node = false := by
            intro hHere
            by_contra hPasses
            rw [Bool.not_eq_false] at hPasses
            exact hDecided ⟨hHere, .inl hPasses⟩
          rcases h.exists_enter hBehind hSome with
            ⟨next, hEnter, hNext, hNextSteps, hNextOffset⟩
          rcases ih hNext (by rw [sizeAll_append]; omega) with
            ⟨found, after, hWalk, hAnswers⟩
          refine ⟨found, after, ?_,
            hAnswers.ofEnter hNextSteps hNextOffset
              h.laidOut hSome hStart hFails⟩
          rw [walk_enter hCurrent hFits hEnter hStart hSpan
            hFails, hWalk]

end NodeReader

end Bracketry

------------------------------------------------------------
-- Requests to a Reader
------------------------------------------------------------

namespace Bracketry

namespace NodeReader

open Node

/-
  The readers of a tree that were asked so far, each with
  what it may be asked for next.
-/
inductive IsAsked
    (root : Node) :
    NodeReader → (Position → Prop) → Prop where
  | start : IsAsked root (ofRoot root) fun _ => True
  | ask
      {reader after : NodeReader}
      {mayAsk : Position → Prop}
      {offset : Position}
      {passes : Node → Bool}
      {found : Option Node}
      (hAsked : IsAsked root reader mayAsk)
      (hOffset : mayAsk offset)
      (hRead :
        reader.readLongestAt offset
            (fun node => .ok (passes node)) =
          .ok (found, after)) :
      IsAsked root after (IsLater offset found)

/-
  The reader still faces every part of the tree that starts
  where it may be asked for.
-/
structure Stands
    (root : Node)
    (mayAsk : Position → Prop)
    (reader : NodeReader)
    (place : Position)
    (nodes : List Node) :
    Prop where
  faces : reader.Faces place nodes
  enough : sizeAll nodes < reader.steps
  upward :
    ∀ offset later, mayAsk offset → offset ≤ later →
      mayAsk later
  le_offset :
    ∀ offset, mayAsk offset → reader.lastOffset ≤ offset
  keeps :
    ∀ offset part, mayAsk offset →
      (HavePartAt place nodes offset part ↔
        HasPartAt 0 root offset part)

/- A reader that stands right answers a request. -/
theorem Stands.readLongestAt_spec
    {root : Node}
    {mayAsk : Position → Prop}
    {reader : NodeReader}
    {place offset : Position}
    {nodes : List Node}
    (passes : Node → Bool)
    (h : Stands root mayAsk reader place nodes)
    (hOffset : mayAsk offset) :
    ∃ found after,
      reader.readLongestAt offset
          (fun node => .ok (passes node)) =
        .ok (found, after) ∧
        after.lastOffset = offset ∧
        Answers offset passes
          { reader with lastOffset := offset } place nodes
          found after := by
  have hFaces :
      Faces { reader with lastOffset := offset } place nodes :=
    ⟨h.faces.ahead_eq, h.faces.laidOut⟩
  rcases hFaces.walk_spec offset passes h.enough with
    ⟨found, after, hWalk, hAnswers⟩
  refine ⟨found, after, ?_, hAnswers.lastOffset, hAnswers⟩
  rw [readLongestAt,
    if_neg (not_lt.2 (h.le_offset offset hOffset))]
  exact hWalk

/- Requests leave the reader where it may be asked next. -/
theorem IsAsked.stands
    {root : Node}
    {reader : NodeReader}
    {mayAsk : Position → Prop}
    (hRoot : IsLaidOut 0 root)
    (h : IsAsked root reader mayAsk) :
    ∃ place nodes, Stands root mayAsk reader place nodes := by
  induction h with
  | start =>
      refine ⟨0, [root], ⟨rfl, ?_⟩, ?_, by simp, ?_, ?_⟩
      · exact areLaidOut_cons.2 ⟨hRoot, areLaidOut_nil _⟩
      · simp [sizeAll, ofRoot]
      · intro offset _
        exact Length.zero_le offset
      · intro offset part _
        rw [havePartAt_cons, or_iff_left havePartAt_nil]
  | @ask reader after mayAsk offset passes found hAsked
      hOffset hRead ih =>
      rcases ih with ⟨place, nodes, hStands⟩
      rcases hStands.readLongestAt_spec passes hOffset with
        ⟨found', after', hAgain, hLast, hAnswers⟩
      rw [hRead] at hAgain
      cases hAgain
      rcases hAnswers.left with
        ⟨newPlace, newNodes, hFaces, hSize, hLeft⟩
      refine ⟨newPlace, newNodes, hFaces, ?_, ?_, ?_, ?_⟩
      · rw [hAnswers.steps]
        exact hSize.trans_lt hStands.enough
      · intro next later hNext hLe
        exact ⟨hNext.1.trans_le hLe, fun node hNode =>
          (hNext.2 node hNode).trans hLe⟩
      · intro later hLater
        rw [hLast]
        exact hLater.1.le
      · intro later part hLater
        rw [hLeft later part hLater]
        exact hStands.keeps later part
          (hStands.upward offset later hOffset hLater.1.le)

/-
  A reader of a tree that is laid out hands out the
  outermost node that starts at the offset and passes, and
  nothing only if none does, whatever it was asked before.
-/
theorem readLongestAt_of_isAsked
    {root : Node}
    {reader : NodeReader}
    {mayAsk : Position → Prop}
    {offset : Position}
    (passes : Node → Bool)
    (hRoot : IsLaidOut 0 root)
    (hAsked : IsAsked root reader mayAsk)
    (hOffset : mayAsk offset) :
    ∃ found after,
      reader.readLongestAt offset
          (fun node => .ok (passes node)) =
        .ok (found, after) ∧
        (∀ node, found = some node →
          IsOutermost (HasPartAt 0 root) offset passes
            node) ∧
        (found = none ↔
          ∀ part, HasPartAt 0 root offset part →
            passes part = false) := by
  rcases hAsked.stands hRoot with ⟨place, nodes, hStands⟩
  rcases hStands.readLongestAt_spec passes hOffset with
    ⟨found, after, hRead, _, hAnswers⟩
  have hKeeps :
      ∀ part,
        HavePartAt place nodes offset part ↔
          HasPartAt 0 root offset part :=
    fun part => hStands.keeps offset part hOffset
  have hFound :
      ∀ node, found = some node →
        IsOutermost (HasPartAt 0 root) offset passes node := by
    intro node hNode
    rcases hAnswers.outermost node hNode with
      ⟨hHeld, hPasses, hOthers⟩
    exact ⟨(hKeeps node).1 hHeld, hPasses,
      fun other hOther => hOthers other ((hKeeps other).2 hOther)⟩
  refine ⟨found, after, hRead, hFound, ?_, ?_⟩
  · intro hNone part hPart
    exact hAnswers.nothing hNone part ((hKeeps part).2 hPart)
  · intro hFails
    cases hResult : found with
    | none => rfl
    | some node =>
        rcases hFound node hResult with ⟨hHeld, hPasses, _⟩
        rw [hFails node hHeld] at hPasses
        cases hPasses

/-
  Four texts in two lists: of the nodes at the start that
  have at most five columns the left list is the outermost,
  and behind it comes the right one.
-/
theorem readLongestAt_of_isAsked_texts :
    let left : Node :=
      .list none 1 ⟨0, 5⟩ IdSet.empty
        [textOf ⟨0, 2⟩, textOf ⟨0, 3⟩]
    let right : Node :=
      .list none 1 ⟨0, 5⟩ IdSet.empty
        [textOf ⟨0, 1⟩, textOf ⟨0, 4⟩]
    let root : Node :=
      .list none 2 ⟨0, 10⟩ IdSet.empty [left, right]
    let short (node : Node) : Bool := node.length ≤ ⟨0, 5⟩
    ∃ reader,
      (ofRoot root).readLongestAt 0
          (fun node => .ok (short node)) =
        .ok (some left, reader) ∧
        IsLaidOut 0 root ∧
        IsAsked root reader (IsLater 0 (some left)) ∧
        IsLater 0 (some left) ⟨0, 5⟩ ∧
        ∃ found after,
          reader.readLongestAt ⟨0, 5⟩
              (fun node => .ok ((fun _ => true) node)) =
            .ok (found, after) ∧
            (∀ node, found = some node →
              IsOutermost (HasPartAt 0 root) ⟨0, 5⟩
                (fun _ => true) node) ∧
            (found = none ↔
              ∀ part, HasPartAt 0 root ⟨0, 5⟩ part →
                (fun _ => true) part = false) := by
  intro left right root short
  have hRoot : IsLaidOut 0 root := by
    simp only [root, left, right, textOf, isLaidOut_iff,
      children, areLaidOut_cons, areLaidOut_nil]
    decide
  have hLater : IsLater 0 (some left) ⟨0, 5⟩ := by
    refine ⟨by decide, ?_⟩
    rintro _ ⟨⟩
    decide
  let asked : NodeReader :=
    { current := some (right, ⟨0, 5⟩)
      behind := [⟨[], 0, ⟨0, 10⟩⟩]
      lastOffset := 0
      steps := 8 }
  have hRead :
      (ofRoot root).readLongestAt 0
          (fun node => .ok (short node)) =
        .ok (some left, asked) :=
    rfl
  have hAsked :
      IsAsked root asked (IsLater 0 (some left)) :=
    .ask .start trivial hRead
  exact ⟨asked, hRead, hRoot, hAsked, hLater,
    readLongestAt_of_isAsked (fun _ => true) hRoot hAsked
      hLater⟩

/-
  Behind a line of the greatest length, a text of five
  columns ends nowhere, though the tree ends on the next
  line.
-/
theorem readLongestAt_overflow :
    let wide := textOf ⟨0, maxCount⟩
    let short := textOf ⟨0, 5⟩
    let inner : Node :=
      .list none 1 ⟨1, 0⟩ IdSet.empty [short, textOf ⟨1, 0⟩]
    let root : Node :=
      .list none 2 ⟨1, 0⟩ IdSet.empty [wide, inner]
    let passes (node : Node) : Bool := node.length ≤ ⟨0, 6⟩
    (∀ place part, HasPartAt 0 root place part →
        part.length ≠ 0 ∧
          (part.children ≠ [] →
            (part.children.map length).sum =
              part.length)) ∧
      IsAsked root (ofRoot root) (fun _ => True) ∧
      IsOutermost (HasPartAt 0 root) ⟨0, maxCount⟩ passes
        short ∧
      (ofRoot root).readLongestAt ⟨0, maxCount⟩
          (fun node => .ok (passes node)) =
        .error .overflow := by
  intro wide short inner root passes
  have hParts :
      ∀ place part, HasPartAt 0 root place part ↔
        (place = 0 ∧ part = root) ∨
          (place = 0 ∧ part = wide) ∨
          (place = ⟨0, maxCount⟩ ∧ part = inner) ∨
          (place = ⟨0, maxCount⟩ ∧ part = short) ∨
          (place = ⟨0, maxCount + 5⟩ ∧
            part = textOf ⟨1, 0⟩) := by
    intro place part
    simp only [hasPartAt_iff, havePartAt_cons, root, inner,
      wide, short, children, textOf, Node.length,
      havePartAt_nil, or_false]
    rfl
  refine ⟨?_, .start, ?_, rfl⟩
  · intro place part hPart
    rcases (hParts place part).1 hPart with
      ⟨_, rfl⟩ | ⟨_, rfl⟩ | ⟨_, rfl⟩ | ⟨_, rfl⟩ | ⟨_, rfl⟩
    all_goals decide
  · refine ⟨(hParts _ _).2 (by simp), by decide, ?_⟩
    intro other hOther hPasses
    rcases (hParts _ other).1 hOther with
      ⟨hPlace, _⟩ | ⟨hPlace, _⟩ | ⟨_, rfl⟩ | ⟨_, rfl⟩ |
        ⟨hPlace, _⟩
    · cases hPlace
    · cases hPlace
    · cases hPasses
    · exact .self _ _
    · cases hPlace

end NodeReader

end Bracketry
