import Bracketry.Proofs.Parsing
import Bracketry.Proofs.Regrouping

/-
  What a parse is made of.

  Whatever the tokens and the old tree are, the items of a
  parse are parts of the old tree, leaves of single tokens,
  and pairs around the items of another parse.  The parts
  come out of the old tree in its order: a reader drops the
  node that it stands at or goes on to its children, and it
  hands out each part once.

  Key definitions include:
    * `Node.placed`, `NodeReader.ahead`
    * `NodeReader.Unfolds`
    * `Parser.Makes`

  Main declarations:
    * `NodeReader.unfolds_readLongestAt`
    * `Parser.makes_of_parseItems`
    * `exists_makes_of_parseDocument`
-/

------------------------------------------------------------
-- Nodes with Their Places
------------------------------------------------------------

namespace Bracketry

namespace Node

/- Nodes one behind the other, with where they start. -/
def placed
    (start : Position) :
    List Node → List (Position × Node)
  | [] => []
  | node :: rest =>
      (start, node) :: placed (start + node.length) rest

theorem map_placed
    (start : Position)
    (nodes : List Node) :
    (placed start nodes).map Prod.snd = nodes := by
  induction nodes generalizing start with
  | nil => rfl
  | cons node rest ih => simp [placed, ih]

end Node

namespace NodeReader

/- The nodes behind a place, up the parents. -/
def placedBehind :
    Position → List Siblings → List (Position × Node)
  | _, [] => []
  | place, siblings :: upper =>
      Node.placed place siblings.nodes ++
        placedBehind
          (siblings.parentStart + siblings.parentLength) upper

/- The current node and those behind it. -/
def ahead
    (reader : NodeReader) :
    List (Position × Node) :=
  match reader.current with
  | none => []
  | some (node, start) =>
      (start, node) ::
        placedBehind (start + node.length) reader.behind

/-
  Nodes in a row give way to others: the first of them is
  dropped, or its children come in its place.
-/
inductive Unfolds :
    List (Position × Node) → List (Position × Node) → Prop
    where
  | refl (nodes : List (Position × Node)) :
    Unfolds nodes nodes
  | drop
    {rest last : List (Position × Node)}
    (head : Position × Node)
    (hRest : Unfolds rest last) :
    Unfolds (head :: rest) last
  | enter
    {rest last : List (Position × Node)}
    {start : Position}
    {node : Node}
    (hRest :
      Unfolds (Node.placed start node.children ++ rest)
        last) :
    Unfolds ((start, node) :: rest) last

/-
  What holds of a node and then of its children holds of all
  that comes out of nodes that it holds of.
-/
theorem Unfolds.forall
    {P : Position → Node → Prop}
    {a b : List (Position × Node)}
    (hChildren :
      ∀ start node, P start node →
        ∀ child ∈ Node.placed start node.children,
          P child.1 child.2)
    (h : Unfolds a b)
    (hAll : ∀ node ∈ a, P node.1 node.2) :
    ∀ node ∈ b, P node.1 node.2 := by
  induction h with
  | refl nodes => exact hAll
  | drop head _ ih =>
      rw [List.forall_mem_cons] at hAll
      exact ih hAll.2
  | enter _ ih =>
      rw [List.forall_mem_cons] at hAll
      rw [List.forall_mem_append] at ih
      exact ih ⟨hChildren _ _ hAll.1, hAll.2⟩

end NodeReader

end Bracketry

------------------------------------------------------------
-- Steps of a Reader
------------------------------------------------------------

namespace Bracketry

namespace NodeReader

/- The next node is the first of those behind. -/
theorem ahead_nextBehind
    {start : Position}
    {length : Length}
    {behind upper : List Siblings}
    {current : Option (Node × Position)}
    (reader : NodeReader)
    (h : nextBehind start length behind = .ok (current, upper)) :
    ahead { reader with current := current, behind := upper } =
      placedBehind (start + length) behind := by
  induction behind generalizing start length with
  | nil =>
      cases h
      rfl
  | cons siblings above ih =>
      rcases siblings with ⟨nodes, parentStart, parentLength⟩
      cases nodes with
      | nil => exact ih h
      | cons node rest =>
          rcases Checked.bind_eq_ok_iff.1 h with
            ⟨stop, hStop, h⟩
          rcases Length.plus_eq_ok_iff.1 hStop with ⟨_, rfl⟩
          cases h
          rfl

/- A node that is left behind is dropped. -/
theorem ahead_leave
    {reader after : NodeReader}
    {node : Node}
    {start : Position}
    (h : reader.leave node start = .ok after) :
    after.ahead =
      placedBehind (start + node.length) reader.behind := by
  rcases Checked.bind_eq_ok_iff.1 h with
    ⟨⟨current, upper⟩, hNext, h⟩
  cases h
  exact ahead_nextBehind reader hNext

/- A node that is entered gives way to its children. -/
theorem ahead_enter
    {reader after : NodeReader}
    {node : Node}
    {start : Position}
    (h : reader.enter? node start = some after) :
    after.ahead =
      Node.placed start node.children ++
        placedBehind (start + node.length) reader.behind := by
  rw [enter?] at h
  cases hChildren : node.children with
  | nil =>
      rw [hChildren] at h
      cases h
  | cons child rest =>
      rw [hChildren] at h
      rcases Option.some.inj h with rfl
      rfl

/- Nodes ahead unfold to those behind the current one. -/
theorem unfolds_leave
    {reader next : NodeReader}
    {node : Node}
    {start : Position}
    {last : List (Position × Node)}
    (hCurrent : reader.current = some (node, start))
    (hNext : reader.leave node start = .ok next)
    (hLast : Unfolds next.ahead last) :
    Unfolds reader.ahead last := by
  rw [ahead_leave hNext] at hLast
  rw [ahead, hCurrent]
  exact .drop _ hLast

/- They unfold to the children of the current one. -/
theorem unfolds_enter
    {reader next : NodeReader}
    {node : Node}
    {start : Position}
    {last : List (Position × Node)}
    (hCurrent : reader.current = some (node, start))
    (hNext : reader.enter? node start = some next)
    (hLast : Unfolds next.ahead last) :
    Unfolds reader.ahead last := by
  rw [ahead_enter hNext] at hLast
  rw [ahead, hCurrent]
  exact .enter hLast

/-
  A walk unfolds the tree, up to the node that it finds,
  which passes the test.
-/
theorem unfolds_walk
    {offset : Position}
    {test : Node → Checked Bool}
    {steps : Nat}
    {reader after : NodeReader}
    {found : Option Node}
    (h : reader.walk offset test steps = .ok (found, after)) :
    Unfolds reader.ahead
        (found.toList.map (offset, ·) ++ after.ahead) ∧
      ∀ node, found = some node → test node = .ok true := by
  induction steps generalizing reader with
  | zero =>
      cases h
      exact ⟨.refl _, by simp⟩
  | succ steps ih =>
      rw [walk] at h
      cases hCurrent : reader.current with
      | none =>
          rw [hCurrent] at h
          cases h
          exact ⟨.refl _, by simp⟩
      | some here =>
          rcases here with ⟨node, start⟩
          rw [hCurrent] at h
          simp only at h
          split_ifs at h with hBefore hBehind
          · cases h
            exact ⟨.refl _, by simp⟩
          · rcases Checked.bind_eq_ok_iff.1 h with ⟨stop, _, h⟩
            split_ifs at h
            · rcases Checked.bind_eq_ok_iff.1 h with
                ⟨next, hNext, h⟩
              exact ⟨unfolds_leave hCurrent hNext (ih h).1,
                (ih h).2⟩
            · split at h
              · rename_i next hNext
                exact ⟨unfolds_enter hCurrent hNext (ih h).1,
                  (ih h).2⟩
              · rcases Checked.bind_eq_ok_iff.1 h with
                  ⟨next, hNext, h⟩
                exact ⟨unfolds_leave hCurrent hNext (ih h).1,
                  (ih h).2⟩
          · rcases Checked.bind_eq_ok_iff.1 h with
              ⟨passes, hPasses, h⟩
            have hHere : start = offset :=
              le_antisymm (not_lt.1 hBefore)
                (not_lt.1 hBehind)
            split_ifs at h with hPassed
            · rcases Checked.bind_eq_ok_iff.1 h with
                ⟨next, hNext, h⟩
              cases h
              refine ⟨?_, ?_⟩
              · rw [ahead_leave hNext, ahead, hCurrent, hHere]
                exact .refl _
              · rintro _ ⟨⟩
                rw [hPasses, hPassed]
            · split at h
              · rename_i next hNext
                exact ⟨unfolds_enter hCurrent hNext (ih h).1,
                  (ih h).2⟩
              · rcases Checked.bind_eq_ok_iff.1 h with
                  ⟨next, hNext, h⟩
                cases h
                exact ⟨unfolds_leave hCurrent hNext (.refl _),
                  by simp⟩

/- A reader unfolds the tree, up to the node it hands out. -/
theorem unfolds_readLongestAt
    {offset : Position}
    {test : Node → Checked Bool}
    {reader after : NodeReader}
    {found : Option Node}
    (h : reader.readLongestAt offset test = .ok (found, after)) :
    Unfolds reader.ahead
        (found.toList.map (offset, ·) ++ after.ahead) ∧
      ∀ node, found = some node → test node = .ok true := by
  rw [readLongestAt] at h
  split_ifs at h
  have hWalk := unfolds_walk h
  exact hWalk

end NodeReader

end Bracketry

------------------------------------------------------------
-- Reuse
------------------------------------------------------------

namespace Bracketry

namespace Parser

/- The nodes of the old tree that lie ahead. -/
def ahead
    (parser : Parser) :
    List (Position × Node) :=
  match parser.old with
  | none => []
  | some reader => reader.ahead

/-
  A part that is used again comes out of the old tree, which
  is unfolded up to it.
-/
theorem unfolds_reuse?
    {parser after : Parser}
    {opened : IdSet}
    {found : Option Node}
    (h : parser.reuse? opened = .ok (found, after)) :
    ∃ offset,
      NodeReader.Unfolds parser.ahead
        (found.toList.map (offset, ·) ++ after.ahead) := by
  unfold reuse? at h
  cases hOld : parser.old with
  | none =>
      rw [hOld] at h
      cases h
      exact ⟨0, .refl _⟩
  | some reader =>
      have hAhead : parser.ahead = reader.ahead := by
        rw [ahead, hOld]
      rw [hOld] at h
      simp only at h
      split_ifs at h
      · cases h
        rw [hAhead]
        exact ⟨0, .refl _⟩
      · rcases Checked.bind_eq_ok_iff.1 h with
          ⟨⟨node, left⟩, hRead, h⟩
        rcases NodeReader.unfolds_readLongestAt hRead with
          ⟨hUnfolds, _⟩
        rw [hAhead]
        cases node with
        | none =>
            cases h
            exact ⟨_, hUnfolds⟩
        | some node =>
            rcases Checked.bind_eq_ok_iff.1 h with
              ⟨stream, _, h⟩
            cases h
            exact ⟨_, hUnfolds⟩

theorem ahead_peek
    {parser after : Parser}
    {token : Option Token}
    (h : parser.peek = .ok (token, after)) :
    after.ahead = parser.ahead := by
  rcases Checked.bind_eq_ok_iff.1 h with ⟨⟨next, stream⟩, _, h⟩
  cases h
  rfl

theorem ahead_read
    {parser after : Parser}
    {token : Option Token}
    (h : parser.read = .ok (token, after)) :
    after.ahead = parser.ahead := by
  rcases Checked.bind_eq_ok_iff.1 h with ⟨⟨next, stream⟩, _, h⟩
  cases h
  rfl

theorem ahead_readClosing
    {parser after : Parser}
    {opening : Bracket}
    {id : Option Nat}
    {closing : Option Node}
    (h :
      parser.readClosing opening id = .ok (closing, after)) :
    after.ahead = parser.ahead := by
  rcases Checked.bind_eq_ok_iff.1 h with
    ⟨⟨next, seen⟩, hPeek, h⟩
  have hSeen := ahead_peek hPeek
  simp only at h
  split at h
  · split_ifs at h
    · rcases Checked.bind_eq_ok_iff.1 h with
        ⟨⟨last, left⟩, hRead, h⟩
      cases h
      exact (ahead_read hRead).trans hSeen
    · cases h
      exact hSeen
  · cases h
    exact hSeen

/- The closing of a pair is a bracket. -/
theorem isBracket_of_readClosing
    {parser after : Parser}
    {opening : Bracket}
    {id : Option Nat}
    {closing : Option Node}
    (h :
      parser.readClosing opening id = .ok (closing, after)) :
    ∀ node, closing = some node → node.IsBracket := by
  rcases Checked.bind_eq_ok_iff.1 h with ⟨⟨next, seen⟩, _, h⟩
  simp only at h
  split at h
  · split_ifs at h
    · rcases Checked.bind_eq_ok_iff.1 h with
        ⟨⟨last, left⟩, _, h⟩
      cases h
      rintro node ⟨⟩
      exact ⟨_, rfl⟩
    · cases h
      simp
  · cases h
    simp

end Parser

end Bracketry

------------------------------------------------------------
-- Pairs
------------------------------------------------------------

namespace Bracketry

namespace Node

theorem eq_of_plusPart
    {length total : Length}
    {part : Option Node}
    (h : plusPart length part = .ok total) :
    total = length + partLength part := by
  cases part with
  | none =>
      cases h
      exact (add_zero length).symm
  | some node => exact (Length.plus_eq_ok_iff.1 h).2

/- A pair is as long as its parts. -/
theorem eq_of_pairOf
    {opening node : Node}
    {child closing : Option Node}
    (h : pairOf opening child closing = .ok node) :
    node =
      .pair none
        (opening.length +
          (partLength child + partLength closing))
        (partMissing child) opening child closing := by
  rcases Checked.bind_eq_ok_iff.1 h with ⟨middle, hMiddle, h⟩
  rcases Checked.bind_eq_ok_iff.1 h with ⟨length, hLength, h⟩
  cases h
  rw [eq_of_plusPart hLength, eq_of_plusPart hMiddle,
    add_assoc]
  cases child <;> rfl

end Node

end Bracketry

------------------------------------------------------------
-- Items
------------------------------------------------------------

namespace Bracketry

namespace Parser

/- The node of a token that opens no pair at a level. -/
def leafOf
    (level : Nat) :
    Option Token → Option Node
  | none => some Node.emptyList
  | some (.text length) => some (Node.textOf length)
  | some (.bracket leaf _) =>
      if !leaf.kind.isOpening then
        some (Node.invalidOf leaf.ids leaf.length)
      else if maxNestingLevel < level then
        some (Node.textOf leaf.length)
      else none

/- A leaf is text, or a bracket that closes nothing. -/
theorem leafOf_cases
    {level : Nat}
    {token : Option Token}
    {node : Node}
    (h : leafOf level token = some node) :
    node = Node.emptyList ∨
      (∃ length, node = Node.textOf length) ∨
        ∃ ids length, node = Node.invalidOf ids length := by
  unfold leafOf at h
  split at h
  · exact .inl (Option.some.inj h).symm
  · exact .inr (.inl ⟨_, (Option.some.inj h).symm⟩)
  · split_ifs at h
    · exact .inr (.inr ⟨_, _, (Option.some.inj h).symm⟩)
    · exact .inr (.inl ⟨_, (Option.some.inj h).symm⟩)

/- The items with a node before them, unless it is empty. -/
def withItem
    (node : Node)
    (items : List Node) :
    List Node :=
  if node.isEmptyList then items else node :: items

theorem mem_withItem
    {node item : Node}
    {items : List Node}
    (h : item ∈ withItem node items) :
    item = node ∨ item ∈ items := by
  rw [withItem] at h
  split_ifs at h
  · exact .inr h
  · exact List.mem_cons.1 h

/- A token is read where nothing can be used again. -/
def Reads
    (opened : IdSet)
    (parser : Parser)
    (token : Option Token)
    (after : Parser) :
    Prop :=
  ∃ unused seen next,
    parser.reuse? opened = .ok (none, unused) ∧
      unused.peek = .ok (next, seen) ∧
      stopsAt opened next = false ∧
      seen.countConstructed.read = .ok (token, after)

/-
  The items that a parser makes at a level, with what comes
  of the parser: parts of the old tree, leaves, and pairs
  around the items of the next level.
-/
inductive Makes :
    IdSet → Nat → Parser → List Node → Parser → Prop where
  | bounded
    (opened : IdSet)
    (level : Nat)
    (parser : Parser) :
    Makes opened level parser [] parser
  | stopped
    {opened : IdSet}
    {parser unused after : Parser}
    {next : Option Token}
    (level : Nat)
    (hReuse : parser.reuse? opened = .ok (none, unused))
    (hPeek : unused.peek = .ok (next, after))
    (hStops : stopsAt opened next = true) :
    Makes opened level parser [] after
  | reused
    {opened : IdSet}
    {level : Nat}
    {parser next after : Parser}
    {node : Node}
    {rest : List Node}
    (hReuse : parser.reuse? opened = .ok (some node, next))
    (hRest : Makes opened level next rest after) :
    Makes opened level parser (withItem node rest) after
  | leaf
    {opened : IdSet}
    {level : Nat}
    {parser next after : Parser}
    {token : Option Token}
    {node : Node}
    {rest : List Node}
    (hRead : Reads opened parser token next)
    (hLeaf : leafOf level token = some node)
    (hRest : Makes opened level next rest after) :
    Makes opened level parser (withItem node rest) after
  | pair
    {opened : IdSet}
    {level : Nat}
    {parser next inside closed after : Parser}
    {leaf : Bracket}
    {id : Option Nat}
    {items rest : List Node}
    {child closing : Option Node}
    {node : Node}
    (hRead : Reads opened parser (some (.bracket leaf id)) next)
    (hOpening : leaf.kind.isOpening = true)
    (hLevel : level ≤ maxNestingLevel)
    (hInside :
      Makes (opened.union leaf.ids) (level + 1) next items
        inside)
    (hChild : inside.joinItems items = .ok child)
    (hClosing :
      inside.readClosing leaf id = .ok (closing, closed))
    (hNode :
      Node.pairOf (.bracket leaf) child closing = .ok node)
    (hRest : Makes opened level closed rest after) :
    Makes opened level parser (withItem node rest) after

/- What a parse makes is made in this way. -/
theorem makes_of_parseItems
    {bound : Nat}
    {opened : IdSet}
    {level : Nat}
    {parser after : Parser}
    {items : List Node}
    (h :
      parser.parseItems bound opened level =
        .ok (items, after)) :
    Makes opened level parser items after := by
  induction bound generalizing opened level parser items
      after with
  | zero =>
      cases h
      exact .bounded opened level parser
  | succ bound ih =>
      rw [parseItems] at h
      rcases Checked.bind_eq_ok_iff.1 h with
        ⟨⟨reused, unused⟩, hReuse, h⟩
      cases reused with
      | some node =>
          rcases Checked.bind_eq_ok_iff.1 h with
            ⟨⟨rest, last⟩, hRest, h⟩
          cases h
          exact .reused hReuse (ih hRest)
      | none =>
          rcases Checked.bind_eq_ok_iff.1 h with
            ⟨⟨next, seen⟩, hPeek, h⟩
          simp only at h
          by_cases hStops : stopsAt opened next = true
          · rw [if_pos hStops] at h
            cases h
            exact .stopped level hReuse hPeek hStops
          rw [if_neg hStops] at h
          rcases Checked.bind_eq_ok_iff.1 h with
            ⟨⟨token, read⟩, hRead, h⟩
          have hReads : Reads opened parser token read :=
            ⟨unused, seen, next, hReuse, hPeek,
              eq_false_of_ne_true hStops, hRead⟩
          -- A token that opens nothing is a leaf.
          have hLeaf :
              ∀ node,
                leafOf level token = some node →
                  (parseItems bound opened level read >>=
                      fun made =>
                        pure (withItem node made.1, made.2)) =
                    .ok (items, after) →
                  Makes opened level parser items after := by
            intro node hLeaf hMade
            rcases Checked.bind_eq_ok_iff.1 hMade with
              ⟨⟨rest, last⟩, hRest, hItems⟩
            cases hItems
            exact .leaf hReads hLeaf (ih hRest)
          simp only at h
          split at h
          · exact hLeaf _ rfl h
          · exact hLeaf _ rfl h
          · rename_i leaf id
            split_ifs at h with hClosing hDeep
            · exact hLeaf _ (by rw [leafOf, if_pos hClosing]) h
            · exact hLeaf _ (by rw [leafOf, if_neg hClosing,
                if_pos hDeep]) h
            · rcases Checked.bind_eq_ok_iff.1 h with
                ⟨⟨inner, inside⟩, hInside, h⟩
              rcases Checked.bind_eq_ok_iff.1 h with
                ⟨child, hChild, h⟩
              rcases Checked.bind_eq_ok_iff.1 h with
                ⟨⟨closing, closed⟩, hClosed, h⟩
              rcases Checked.bind_eq_ok_iff.1 h with
                ⟨pair, hPair, h⟩
              rw [pure_bind] at h
              rcases Checked.bind_eq_ok_iff.1 h with
                ⟨⟨rest, last⟩, hRest, h⟩
              cases h
              exact .pair hReads (by simpa using hClosing)
                (Nat.le_of_not_lt hDeep) (ih hInside) hChild
                hClosed hPair (ih hRest)

/-
  What is known of the nodes ahead stays known while tokens
  are read.
-/
theorem unfolds_of_reads
    {opened : IdSet}
    {parser after : Parser}
    {token : Option Token}
    (h : Reads opened parser token after) :
    NodeReader.Unfolds parser.ahead after.ahead := by
  rcases h with ⟨unused, seen, next, hReuse, hPeek, _, hRead⟩
  rcases unfolds_reuse? hReuse with ⟨_, hUnfolds⟩
  have hSeen := ahead_peek hPeek
  have hAfter := ahead_read hRead
  have hCount : seen.countConstructed.ahead = seen.ahead := rfl
  rw [hAfter, hCount, hSeen]
  exact hUnfolds

end Parser

theorem Parser.ahead_ofStream
    (stream : TokenStream)
    (map : PositionMap)
    (old : Option Node) :
    (Parser.ofStream stream map old).ahead =
      old.toList.map (0, ·) := by
  cases old <;> rfl

/- The tree of a parse holds the items that were made. -/
theorem exists_makes_of_parseDocument
    {stream : TokenStream}
    {edits : List Edit}
    {old : Option Node}
    {root : Node}
    {stats : ParseStats}
    (h : parseDocument stream edits old = .ok (root, stats)) :
    ∃ map items after,
      PositionMap.ofEdits edits = .ok map ∧
        Parser.Makes IdSet.empty 0
          (Parser.ofStream stream map old) items after ∧
        Node.Regroups items [root] := by
  rcases Checked.bind_eq_ok_iff.1 h with ⟨map, hMap, h⟩
  rcases Checked.bind_eq_ok_iff.1 h with
    ⟨⟨items, after⟩, hItems, h⟩
  rcases Checked.bind_eq_ok_iff.1 h with ⟨whole, hWhole, h⟩
  cases h
  exact ⟨map, items, after, hMap,
    Parser.makes_of_parseItems hItems,
    (Parser.regroups_joinItems hWhole).trans
      (Node.regroups_getD whole)⟩

end Bracketry
