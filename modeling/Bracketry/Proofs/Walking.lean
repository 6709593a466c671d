import Bracketry.Proofs.Parsing

/-
  Walks through an old tree.

  A node of a tree stands for some of the tokens that the
  tree was made of, at a place that is the length of the
  tokens before them.  A reader keeps to such nodes: it
  never loses its place, and it never runs out of steps.
  What it hands out starts at the offset it was asked for,
  and once it has nothing for an offset, it has nothing for
  that offset again.

  Key definitions include:
    * `Forest.IsInherited`, `Forest.IsKept`
    * `Node.Shows`, `Node.IsAt`, `Node.Stands`
    * `NodeReader.Follows`, `NodeReader.IsPast`

  Main declarations:
    * `Node.IsAt.children`
    * `NodeReader.readLongestAt_spec`
-/

------------------------------------------------------------
-- Places of Nodes
------------------------------------------------------------

namespace Bracketry

/- What holds of a forest also holds of its parts. -/
structure Forest.IsInherited
    (kept : Forest Token → Prop) :
    Prop where
  left : ∀ {a b}, kept (a ++ b) → kept a
  right : ∀ {a b}, kept (a ++ b) → kept b
  inside :
    ∀ {opening inside closing rest},
      kept (.pair opening inside closing rest) → kept inside

theorem Forest.isInherited_isMatched :
    IsInherited Forest.IsMatched where
  left := isMatched_of_append_left
  right := isMatched_of_append_right
  inside h := h.2.1

/- Forests that are matched, with no bracket too deep. -/
def Forest.IsKept
    (forest : Forest Token) :
    Prop :=
  forest.IsMatched ∧ forest.IsShallow

theorem Forest.isInherited_isKept :
    IsInherited Forest.IsKept where
  left h :=
    ⟨isMatched_of_append_left h.1,
      (isShallow_append.1 h.2).1⟩
  right h :=
    ⟨isMatched_of_append_right h.1,
      (isShallow_append.1 h.2).2⟩
  inside h := ⟨h.1.2.1, h.2.1⟩

namespace Node

variable {kept : Forest Token → Prop}

/- The node is a proper tree of a forest that is kept. -/
structure Shows
    (kept : Forest Token → Prop)
    (node : Node)
    (forest : Forest Token) :
    Prop where
  proper : node.IsProper
  shape : forest.shape = node.shape
  kept : kept forest

/-
  The node stands for tokens that begin at a place.  The
  brackets of a pair stand for one token each.
-/
def IsAt
    (kept : Forest Token → Prop)
    (tokens : List Token)
    (place : Position)
    (node : Node) :
    Prop :=
  ∃ before own behind,
    tokens = before ++ (own ++ behind) ∧
      Token.total before = place ∧
      node.length = Token.total own ∧ own ≠ [] ∧
      (node.IsBracket ∨
        ∃ forest : Forest Token,
          forest.leaves = own ∧ node.Shows kept forest)

/- The nodes stand one behind the other. -/
def AllAt
    (kept : Forest Token → Prop)
    (tokens : List Token) :
    Position → List Node → Prop
  | _, [] => True
  | place, node :: rest =>
      node.IsAt kept tokens place ∧
        AllAt kept tokens (place + node.length) rest

/- A proper tree shows something. -/
theorem shape_ne_nil
    {node : Node}
    (h : node.IsProper) :
    node.shape ≠ .nil := by
  intro hNil
  have hItems := length_le_leaves [node]
  have hHeight := two_pow_height_le h
  have hPos := Nat.two_pow_pos node.height
  simp only [itemsOfAll, shapeOfAll, hNil, List.append_nil,
    Forest.append_nil, Forest.leaves, List.length_nil]
    at hItems
  omega

theorem Shows.leaves_ne_nil
    {node : Node}
    {forest : Forest Token}
    (h : node.Shows kept forest) :
    forest.leaves ≠ [] := by
  have hSome : forest ≠ .nil := by
    rintro rfl
    exact shape_ne_nil h.proper h.shape.symm
  exact List.ne_nil_of_length_pos
    (Forest.length_leaves_pos hSome)

/- The node stands for tokens, one for each of its leaves. -/
def Stands
    (kept : Forest Token → Prop)
    (own : List Token)
    (node : Node) :
    Prop :=
  node.length = Token.total own ∧
    own.length = node.leaves.length ∧
    (node.IsBracket ∨
      ∃ forest : Forest Token,
        forest.leaves = own ∧ node.Shows kept forest)

/- The nodes stand for tokens in a row. -/
def AllStand
    (kept : Forest Token → Prop) :
    List Token → List Node → Prop
  | own, [] => own = []
  | own, node :: rest =>
      ∃ first others,
        own = first ++ others ∧ node.Stands kept first ∧
          AllStand kept others rest

/- A node with its forest stands for the leaves of it. -/
theorem Shows.stands
    {node : Node}
    {forest : Forest Token}
    (h : node.Shows kept forest) :
    node.Stands kept forest.leaves :=
  ⟨length_eq_total h.proper h.shape.symm,
    length_leaves h.proper h.shape, .inr ⟨forest, rfl, h⟩⟩

/- A bracket of a pair stands for its token. -/
theorem stands_of_isBracket
    {node : Node}
    {token : Token}
    (hBracket : node.IsBracket)
    (hSign : token.sign = node.sign) :
    node.Stands kept [token] := by
  have hLength : node.length = token.length := by
    rw [← length_sign_of_isBracket hBracket, ← hSign,
      Token.length_sign]
  refine ⟨by simp [hLength], ?_, .inl hBracket⟩
  rcases hBracket with ⟨leaf, rfl⟩
  rfl

theorem Stands.ne_nil
    {node : Node}
    {own : List Token}
    (h : node.Stands kept own) :
    own ≠ [] := by
  rcases h with ⟨_, hCount, ⟨leaf, rfl⟩ | ⟨forest, rfl, hShows⟩⟩
  · rintro rfl
    cases hCount
  · exact hShows.leaves_ne_nil

/- What stands for tokens is where they begin. -/
theorem Stands.isAt
    {node : Node}
    {own : List Token}
    (before behind : List Token)
    (h : node.Stands kept own) :
    node.IsAt kept (before ++ (own ++ behind))
      (Token.total before) :=
  ⟨before, own, behind, rfl, rfl, h.1, h.ne_nil, h.2.2⟩

theorem AllStand.allAt
    {nodes : List Node}
    {own : List Token}
    (before behind : List Token)
    (h : AllStand kept own nodes) :
    AllAt kept (before ++ (own ++ behind))
      (Token.total before) nodes := by
  induction nodes generalizing own before with
  | nil => trivial
  | cons node rest ih =>
      rcases h with ⟨first, others, rfl, hNode, hRest⟩
      have hOthers := ih (before ++ first) hRest
      rw [Token.total_append, ← hNode.1, List.append_assoc]
        at hOthers
      rw [List.append_assoc]
      exact ⟨hNode.isAt before (others ++ behind), hOthers⟩

/- Nodes in a row are as long as their tokens. -/
theorem AllStand.sum_lengths
    {nodes : List Node}
    {own : List Token}
    (h : AllStand kept own nodes) :
    (nodes.map Node.length).sum = Token.total own := by
  induction nodes generalizing own with
  | nil =>
      subst h
      rfl
  | cons node rest ih =>
      rcases h with ⟨first, others, rfl, hNode, hRest⟩
      rw [List.map_cons, List.sum_cons, hNode.1, ih hRest,
        Token.total_append]

/- Nodes that show a forest stand for its leaves. -/
theorem allStand_of_shape
    (hInherited : Forest.IsInherited kept)
    {nodes : List Node}
    {forest : Forest Token}
    (hProper : ∀ node ∈ nodes, node.IsProper)
    (hShape : forest.shape = shapeOfAll nodes)
    (hKept : kept forest) :
    AllStand kept forest.leaves nodes := by
  induction nodes generalizing forest with
  | nil =>
      rcases Forest.shape_eq_nil.1 hShape with rfl
      rfl
  | cons node rest ih =>
      rw [List.forall_mem_cons] at hProper
      rcases Forest.exists_of_shape_append hShape with
        ⟨first, others, rfl, hFirst, hOthers⟩
      have hNode : node.Shows kept first :=
        ⟨hProper.1, hFirst, hInherited.left hKept⟩
      exact ⟨first.leaves, others.leaves,
        Forest.leaves_append _ _, hNode.stands,
        ih hProper.2 hOthers (hInherited.right hKept)⟩

/- The parts of a pair stand for its tokens. -/
theorem allStand_pair
    (hInherited : Forest.IsInherited kept)
    {key : Option Nat}
    {length : Length}
    {missing : IdSet}
    {opening : Node}
    {child closing : Option Node}
    {forest : Forest Token}
    (h :
      (Node.pair key length missing opening child
        closing).Shows kept forest) :
    AllStand kept forest.leaves
      (opening :: (child.toList ++ closing.toList)) := by
  rcases h with ⟨hProper, hShape, hKept⟩
  rcases isProper_pair.1 hProper with
    ⟨hOpening, hClosing, _, _, hChild⟩
  rw [shape_pair] at hShape
  rcases Forest.exists_of_shape_eq_pair hShape with
    ⟨first, inside, last, rfl, hFirst, hInside, hLast⟩
  have hEnd : AllStand kept last.toList closing.toList := by
    cases closing with
    | none =>
        rcases Option.map_eq_none_iff.1 hLast with rfl
        rfl
    | some node =>
        rcases Option.map_eq_some_iff.1 hLast with
          ⟨token, rfl, hSign⟩
        exact ⟨[token], [], rfl,
          stands_of_isBracket (hClosing node rfl) hSign, rfl⟩
  refine ⟨[first], inside.leaves ++ last.toList, ?_,
    stands_of_isBracket hOpening hFirst, ?_⟩
  · simp [Forest.leaves]
  cases child with
  | none =>
      rcases Forest.shape_eq_nil.1 hInside with rfl
      exact hEnd
  | some node =>
      have hNode : node.Shows kept inside :=
        ⟨hChild node rfl, hInside, hInherited.inside hKept⟩
      exact ⟨inside.leaves, last.toList, rfl, hNode.stands,
        hEnd⟩

/- The children of a node stand for its tokens, if any. -/
theorem Stands.children
    (hInherited : Forest.IsInherited kept)
    {node : Node}
    {own : List Token}
    (h : node.Stands kept own)
    (hSome : node.children ≠ []) :
    AllStand kept own node.children := by
  rcases h with ⟨_, _, ⟨leaf, rfl⟩ | ⟨forest, rfl, hShows⟩⟩
  · exact absurd rfl hSome
  · cases node with
    | text key length => exact absurd rfl hSome
    | bracket leaf => exact absurd rfl hSome
    | invalid key ids length => exact absurd rfl hSome
    | pair key length missing opening child closing =>
        exact allStand_pair hInherited hShows
    | list key height length missing items =>
        exact allStand_of_shape hInherited
          (fun item hItem =>
            (isProper_item hShows.proper item hItem).2)
          hShows.shape hShows.kept

/- The children of a node are where it is. -/
theorem IsAt.children
    (hInherited : Forest.IsInherited kept)
    {node : Node}
    {tokens : List Token}
    {place : Position}
    (h : node.IsAt kept tokens place) :
    AllAt kept tokens place node.children ∧
      (node.children ≠ [] →
        (node.children.map Node.length).sum =
          node.length) := by
  by_cases hSome : node.children = []
  · rw [hSome]
    exact ⟨trivial, fun hNot => absurd rfl hNot⟩
  rcases h with
    ⟨before, own, behind, rfl, rfl, hLength, _, hNode⟩
  rcases hNode with ⟨leaf, rfl⟩ | ⟨forest, rfl, hShows⟩
  · exact absurd rfl hSome
  · have hChildren := hShows.stands.children hInherited hSome
    exact ⟨hChildren.allAt before behind,
      fun _ => hChildren.sum_lengths.trans hLength.symm⟩

/- A node is one more than what is below it. -/
theorem size_eq
    (node : Node) :
    node.size = 1 + sizeAll node.children := by
  cases node with
  | text key length => rfl
  | bracket leaf => rfl
  | invalid key ids length => rfl
  | pair key length missing opening child closing =>
      cases child <;> cases closing <;>
        simp [size, children, sizeAll] <;> omega
  | list key height length missing items =>
      simp [size, children]

end Node

end Bracketry

------------------------------------------------------------
-- Steps of a Reader
------------------------------------------------------------

namespace Bracketry

namespace NodeReader

variable {kept : Forest Token → Prop}

/-
  What comes behind a place, up the parents: the nodes under
  one parent reach to its end.
-/
def Behind
    (kept : Forest Token → Prop)
    (tokens : List Token) :
    Position → List Siblings → Prop
  | _, [] => True
  | place, siblings :: upper =>
      let stop :=
        place + (siblings.nodes.map Node.length).sum
      Node.AllAt kept tokens place siblings.nodes ∧
        siblings.parentStart + siblings.parentLength = stop ∧
        Behind kept tokens stop upper

/- The number of nodes that a reader can still visit. -/
def workBehind
    (behind : List Siblings) :
    Nat :=
  (behind.map fun siblings => Node.sizeAll siblings.nodes).sum

def work
    (reader : NodeReader) :
    Nat :=
  (match reader.current with
    | some (node, _) => node.size
    | none => 0) + workBehind reader.behind

/-
  The current node and all nodes behind it stand for tokens
  of the tree.  An empty tree has only its root.
-/
def Tracks
    (kept : Forest Token → Prop)
    (tokens : List Token)
    (current : Option (Node × Position))
    (behind : List Siblings) :
    Prop :=
  ∀ node start, current = some (node, start) →
    (node.IsAt kept tokens start ∧
      Behind kept tokens (start + node.length) behind) ∨
    (node.isEmptyList = true ∧ node.length = 0 ∧
      start = 0 ∧ behind = [])

/- A reader that keeps to the tree, with steps to spare. -/
structure Follows
    (kept : Forest Token → Prop)
    (tokens : List Token)
    (reader : NodeReader) :
    Prop where
  tracks : Tracks kept tokens reader.current reader.behind
  enough : reader.work < reader.steps

/- The current node begins behind an offset. -/
def IsPast
    (offset : Position)
    (reader : NodeReader) :
    Prop :=
  ∀ node start, reader.current = some (node, start) →
    offset < start

theorem fits_of_isAt
    {tokens : List Token}
    {place : Position}
    {node : Node}
    (hFits : Token.AllFit tokens)
    (h : node.IsAt kept tokens place) :
    (place + node.length).Fits := by
  rcases h with ⟨before, own, behind, rfl, rfl, hLength, _⟩
  have hPlace := hFits (before ++ own) behind
    (List.append_assoc _ _ _).symm
  rwa [Token.total_append, ← hLength] at hPlace

theorem ne_zero_of_isAt
    {tokens : List Token}
    {place : Position}
    {node : Node}
    (hNonzero : ∀ token ∈ tokens, token.length ≠ 0)
    (h : node.IsAt kept tokens place) :
    node.length ≠ 0 := by
  rcases h with ⟨before, own, behind, rfl, _, hLength, hSome, _⟩
  rcases List.exists_cons_of_ne_nil hSome with
    ⟨token, rest, rfl⟩
  intro hZero
  rw [hZero, Token.total_cons] at hLength
  have hLe :=
    Length.le_add_right token.length (Token.total rest)
  rw [← hLength, Length.le_zero] at hLe
  exact hNonzero token (by simp) hLe

/- The node behind a place is the next of those behind. -/
theorem nextBehind_spec
    {tokens : List Token}
    {start : Position}
    {length : Length}
    {behind : List Siblings}
    (hFits : (start + length).Fits)
    (h : Behind kept tokens (start + length) behind) :
    ∃ current upper,
      nextBehind start length behind = .ok (current, upper) ∧
        (∀ node place, current = some (node, place) →
          node.IsAt kept tokens place ∧
            Behind kept tokens (place + node.length) upper ∧
            place = start + length) ∧
        (match current with
          | some (node, _) => node.size
          | none => 0) + workBehind upper =
            workBehind behind := by
  induction behind generalizing start length with
  | nil => exact ⟨none, [], rfl, by simp, rfl⟩
  | cons siblings upper ih =>
      rcases siblings with ⟨nodes, parentStart, parentLength⟩
      rcases h with ⟨hNodes, hParent, hUpper⟩
      cases nodes with
      | nil =>
          simp only [List.map_nil, List.sum_nil, add_zero]
            at hParent hUpper
          rw [← hParent] at hFits hUpper
          rcases ih hFits hUpper with
            ⟨current, left, hNext, hTracks, hWork⟩
          rw [hParent] at hTracks
          refine ⟨current, left, hNext, hTracks, ?_⟩
          rw [hWork]
          simp [workBehind, Node.sizeAll]
      | cons node rest =>
          refine ⟨some (node, start + length),
            ⟨rest, parentStart, parentLength⟩ :: upper, ?_,
            ?_, ?_⟩
          · rw [nextBehind, Length.plus_eq_ok hFits]
            rfl
          · rintro _ _ ⟨⟩
            refine ⟨hNodes.1, ⟨hNodes.2, ?_, ?_⟩, rfl⟩
            · rw [hParent]
              simp [add_assoc]
            · simpa [add_assoc] using hUpper
          · simp [workBehind, Node.sizeAll, add_assoc]

/- The node that a reader stands at is behind the last. -/
theorem leave_spec
    {tokens : List Token}
    {reader : NodeReader}
    {node : Node}
    {start : Position}
    (hFits : Token.AllFit tokens)
    (hNonzero : ∀ token ∈ tokens, token.length ≠ 0)
    (hCurrent : reader.current = some (node, start))
    (h : reader.Follows kept tokens) :
    ∃ after,
      reader.leave node start = .ok after ∧
        after.Follows kept tokens ∧ after.work < reader.work ∧
        after.lastOffset = reader.lastOffset ∧
        after.steps = reader.steps ∧
        after.IsPast start := by
  rcases h with ⟨hTracks, hEnough⟩
  have hSize := Node.size_eq node
  rw [work, hCurrent] at hEnough ⊢
  rcases hTracks node start hCurrent with
    ⟨hAt, hBehind⟩ | ⟨_, _, _, hNil⟩
  · rcases nextBehind_spec (fits_of_isAt hFits hAt) hBehind with
      ⟨current, upper, hNext, hFound, hWork⟩
    refine ⟨{ reader with
      current := current, behind := upper }, ?_,
      ⟨?_, ?_⟩, ?_, rfl, rfl, ?_⟩
    · rw [leave, hNext]
      rfl
    · intro next place hSome
      rcases hFound next place hSome with ⟨hNextAt, hUpper, _⟩
      exact .inl ⟨hNextAt, hUpper⟩
    · rw [work]
      simp only at hEnough ⊢
      omega
    · rw [work]
      simp only at hEnough ⊢
      omega
    · intro next place hSome
      rcases hFound next place hSome with ⟨_, _, rfl⟩
      exact Length.lt_add_right (ne_zero_of_isAt hNonzero hAt)
  · refine ⟨{ reader with current := none, behind := [] },
      ?_, ⟨by simp [Tracks], ?_⟩, ?_, rfl, rfl,
      by simp [IsPast]⟩
    · rw [leave, hNil]
      rfl
    · simp only [work, workBehind, List.map_nil,
        List.sum_nil] at hEnough ⊢
      omega
    · simp only [work, workBehind, List.map_nil,
        List.sum_nil]
      omega

/- A child of the current node stands where it does. -/
theorem enter_spec
    (hInherited : Forest.IsInherited kept)
    {tokens : List Token}
    {reader after : NodeReader}
    {node : Node}
    {start : Position}
    (hCurrent : reader.current = some (node, start))
    (hEnter : reader.enter? node start = some after)
    (h : reader.Follows kept tokens) :
    after.Follows kept tokens ∧ after.work < reader.work ∧
      after.lastOffset = reader.lastOffset ∧
      after.steps = reader.steps := by
  rcases h with ⟨hTracks, hEnough⟩
  have hSize := Node.size_eq node
  have hWork : reader.work =
      node.size + workBehind reader.behind := by
    rw [work, hCurrent]
  rw [enter?] at hEnter
  cases hChildren : node.children with
  | nil =>
      rw [hChildren] at hEnter
      cases hEnter
  | cons child rest =>
      rw [hChildren] at hEnter hSize
      rcases Option.some.inj hEnter with rfl
      rcases hTracks node start hCurrent with
        ⟨hAt, hBehind⟩ | ⟨hEmpty, _⟩
      · rcases hAt.children hInherited with ⟨hAll, hSum⟩
        rw [hChildren] at hAll hSum
        replace hSum := hSum (by simp)
        rw [List.map_cons, List.sum_cons] at hSum
        rw [Node.sizeAll] at hSize
        have hSmaller :
            child.size +
                workBehind
                  (⟨rest, start, node.length⟩ ::
                    reader.behind) <
              reader.work := by
          rw [hWork]
          simp only [workBehind, List.map_cons,
            List.sum_cons]
          omega
        refine ⟨⟨?_, ?_⟩, hSmaller, rfl, rfl⟩
        · rintro _ _ ⟨⟩
          rw [← hSum, ← add_assoc] at hBehind
          exact .inl ⟨hAll.1, hAll.2,
            by simp [← hSum, add_assoc], hBehind⟩
        · exact Nat.lt_trans hSmaller hEnough
      · cases node with
        | list key height length missing items =>
            rw [Node.isEmptyList, List.isEmpty_iff]
              at hEmpty
            rw [Node.children, hEmpty] at hChildren
            cases hChildren
        | text key length => cases hChildren
        | bracket leaf => cases hChildren
        | invalid key ids length => cases hChildren
        | pair key length missing opening child closing =>
            cases hEmpty

end NodeReader

end Bracketry

------------------------------------------------------------
-- Walks of a Reader
------------------------------------------------------------

namespace Bracketry

/-
  A test that can be asked of all nodes that show a forest,
  and that refuses brackets and the list of an empty text.
-/
structure IsTest
    (test : Node → Checked Bool) :
    Prop where
  proper :
    ∀ node, node.IsProper →
      ∃ answer, test node = .ok answer
  bracket : ∀ leaf, test (.bracket leaf) = .ok false
  empty :
    ∀ node, node.isEmptyList = true → test node = .ok false

namespace NodeReader

variable {kept : Forest Token → Prop}

/- A test of a node that a reader stands at is answered. -/
theorem Follows.exists_test
    {tokens : List Token}
    {reader : NodeReader}
    {node : Node}
    {start : Position}
    {test : Node → Checked Bool}
    (hTest : IsTest test)
    (hCurrent : reader.current = some (node, start))
    (h : reader.Follows kept tokens) :
    test node = .ok false ∨
      (test node = .ok true ∧
        ∃ before forest behind,
          tokens = before ++ (Forest.leaves forest ++ behind) ∧
            Token.total before = start ∧
            node.Shows kept forest) := by
  rcases h.tracks node start hCurrent with
    ⟨⟨before, own, behind, rfl, rfl, _, _, hNode⟩, _⟩ |
      ⟨hEmpty, _⟩
  · rcases hNode with ⟨leaf, rfl⟩ | ⟨forest, rfl, hShows⟩
    · exact .inl (hTest.bracket leaf)
    · rcases hTest.proper node hShows.proper with
        ⟨answer, hAnswer⟩
      cases answer with
      | false => exact .inl hAnswer
      | true =>
          exact .inr ⟨hAnswer, before, forest, behind, rfl,
            rfl, hShows⟩
  · exact .inl (hTest.empty node hEmpty)

/-
  What a walk finds at an offset: a node that passes the
  test, or nothing, now and later.
-/
structure Walked
    (kept : Forest Token → Prop)
    (tokens : List Token)
    (offset : Position)
    (test : Node → Checked Bool)
    (reader : NodeReader)
    (found : Option Node)
    (after : NodeReader) :
    Prop where
  follows : after.Follows kept tokens
  lastOffset : after.lastOffset = reader.lastOffset
  steps : after.steps = reader.steps
  past : found = none → after.IsPast offset
  node :
    ∀ node, found = some node →
      test node = .ok true ∧
        ∃ before forest behind,
          tokens = before ++ (Forest.leaves forest ++ behind) ∧
            Token.total before = offset ∧
            node.Shows kept forest

/- What a walk finds from one step on, it finds. -/
theorem Walked.ofStep
    {tokens : List Token}
    {offset : Position}
    {test : Node → Checked Bool}
    {reader next after : NodeReader}
    {found : Option Node}
    (hOffset : next.lastOffset = reader.lastOffset)
    (hSteps : next.steps = reader.steps)
    (h : Walked kept tokens offset test next found after) :
    Walked kept tokens offset test reader found after :=
  ⟨h.follows, h.lastOffset.trans hOffset,
    h.steps.trans hSteps, h.past, h.node⟩

theorem walk_spec
    (offset : Position)
    (hInherited : Forest.IsInherited kept)
    {tokens : List Token}
    {reader : NodeReader}
    {test : Node → Checked Bool}
    {steps : Nat}
    (hFits : Token.AllFit tokens)
    (hNonzero : ∀ token ∈ tokens, token.length ≠ 0)
    (hTest : IsTest test)
    (hSteps : reader.work < steps)
    (h : reader.Follows kept tokens) :
    ∃ found after,
      reader.walk offset test steps = .ok (found, after) ∧
        Walked kept tokens offset test reader found after := by
  induction steps generalizing reader with
  | zero => omega
  | succ steps ih =>
      cases hCurrent : reader.current with
      | none =>
          exact ⟨none, reader, by rw [walk, hCurrent], h, rfl,
            rfl, fun _ => by simp [IsPast, hCurrent],
            by simp⟩
      | some here =>
          rcases here with ⟨node, start⟩
          rcases leave_spec hFits hNonzero hCurrent h with
            ⟨left, hLeave, hLeft, hLess, hOffset, hSame, hPast⟩
          -- Both ways on shrink the work that is left.
          have hOn :
              ∀ next : NodeReader,
                next.Follows kept tokens →
                next.work < reader.work →
                next.lastOffset = reader.lastOffset →
                next.steps = reader.steps →
                ∃ found after,
                  next.walk offset test steps =
                      .ok (found, after) ∧
                    Walked kept tokens offset test reader found
                      after := by
            intro next hNext hSmaller hNextOffset hNextSteps
            rcases ih (by omega) hNext with
              ⟨found, after, hWalk, hFound⟩
            exact ⟨found, after, hWalk,
              hFound.ofStep hNextOffset hNextSteps⟩
          have hStop : (start + node.length).Fits := by
            rcases h.tracks node start hCurrent with
              ⟨hAt, _⟩ | ⟨_, hZero, rfl, _⟩
            · exact fits_of_isAt hFits hAt
            · rw [hZero, add_zero]
              exact Length.fits_zero
          rw [walk, hCurrent]
          simp only
          rcases lt_trichotomy offset start with
            hBefore | rfl | hBehind
          · rw [if_pos hBefore]
            refine ⟨none, reader, rfl, h, rfl, rfl, ?_,
              by simp⟩
            rintro - _ _ hSome
            rw [hCurrent] at hSome
            rcases Prod.mk.inj (Option.some.inj hSome) with
              ⟨-, rfl⟩
            exact hBefore
          · rw [if_neg (lt_irrefl _), if_neg (lt_irrefl _)]
            rcases h.exists_test hTest hCurrent with
              hNo | ⟨hYes, hNode⟩
            · rw [hNo]
              simp only [bind, Except.bind, Bool.false_eq_true,
                if_false]
              cases hEnter : reader.enter? node offset with
              | some next =>
                  rcases enter_spec hInherited hCurrent hEnter
                      h with
                    ⟨hNext, hSmaller, hNextOffset, hNextSteps⟩
                  exact hOn next hNext hSmaller hNextOffset
                    hNextSteps
              | none =>
                  rw [hLeave]
                  exact ⟨none, left, rfl, hLeft, hOffset,
                    hSame, fun _ => hPast, by simp⟩
            · rw [hYes]
              simp only [bind, Except.bind, if_true, hLeave]
              refine ⟨some node, left, rfl, hLeft, hOffset,
                hSame, by simp, ?_⟩
              rintro _ ⟨⟩
              exact ⟨hYes, hNode⟩
          · rw [if_neg (lt_asymm hBehind), if_pos hBehind,
              Length.plus_eq_ok hStop]
            simp only [bind, Except.bind]
            split_ifs with hEnds
            · rw [hLeave]
              exact hOn left hLeft hLess hOffset hSame
            · cases hEnter : reader.enter? node start with
              | some next =>
                  rcases enter_spec hInherited hCurrent hEnter
                      h with
                    ⟨hNext, hSmaller, hNextOffset, hNextSteps⟩
                  exact hOn next hNext hSmaller hNextOffset
                    hNextSteps
              | none =>
                  rw [hLeave]
                  exact hOn left hLeft hLess hOffset hSame

/-
  The longest node is found at an offset that does not lie
  before the last one.
-/
theorem readLongestAt_spec
    (test : Node → Checked Bool)
    (hInherited : Forest.IsInherited kept)
    {tokens : List Token}
    {reader : NodeReader}
    {offset : Position}
    (hFits : Token.AllFit tokens)
    (hNonzero : ∀ token ∈ tokens, token.length ≠ 0)
    (hTest : IsTest test)
    (hOffset : reader.lastOffset ≤ offset)
    (h : reader.Follows kept tokens) :
    ∃ found after,
      reader.readLongestAt offset test =
          .ok (found, after) ∧
        after.Follows kept tokens ∧ after.lastOffset = offset ∧
        after.steps = reader.steps ∧
        (found = none → after.IsPast offset) ∧
        ∀ node, found = some node →
          test node = .ok true ∧
            ∃ before forest behind,
              tokens =
                  before ++
                    (Forest.leaves forest ++ behind) ∧
                Token.total before = offset ∧
                node.Shows kept forest := by
  have hMoved :
      Follows kept tokens { reader with lastOffset := offset } :=
    ⟨h.tracks, h.enough⟩
  rcases walk_spec offset hInherited hFits hNonzero hTest
      hMoved.enough hMoved with
    ⟨found, after, hWalk, hWalked⟩
  refine ⟨found, after, ?_, hWalked.follows,
    hWalked.lastOffset, hWalked.steps, hWalked.past,
    hWalked.node⟩
  rw [readLongestAt, if_neg (not_lt.2 hOffset)]
  exact hWalk

/- Where a reader is past an offset, it finds nothing. -/
theorem readLongestAt_of_isPast
    {tokens : List Token}
    {reader : NodeReader}
    {offset : Position}
    (test : Node → Checked Bool)
    (hOffset : reader.lastOffset ≤ offset)
    (hPast : reader.IsPast offset)
    (h : reader.Follows kept tokens) :
    reader.readLongestAt offset test =
      .ok (none, { reader with lastOffset := offset }) := by
  have hEnough := h.enough
  rw [readLongestAt, if_neg (not_lt.2 hOffset)]
  cases hSteps : reader.steps with
  | zero => omega
  | succ steps =>
      rw [walk]
      cases hCurrent : reader.current with
      | none => simp
      | some here =>
          rcases here with ⟨node, start⟩
          simp [hPast node start hCurrent]

/- A reader of a whole tree. -/
theorem follows_ofRoot
    {root : Node}
    {forest : Forest Token}
    (hRoot : root.IsRoot)
    (hShape : forest.shape = root.shape)
    (hKept : kept forest) :
    (ofRoot root).Follows kept forest.leaves := by
  refine ⟨?_, by simp [work, workBehind, ofRoot]⟩
  rintro node start ⟨⟩
  rcases hRoot with hProper | ⟨key, rfl⟩
  · have hShows : root.Shows kept forest :=
      ⟨hProper, hShape, hKept⟩
    have hAt := hShows.stands.isAt [] []
    rw [List.nil_append, List.append_nil] at hAt
    exact .inl ⟨hAt, trivial⟩
  · exact .inr ⟨rfl, rfl, rfl, rfl⟩

end NodeReader

end Bracketry
